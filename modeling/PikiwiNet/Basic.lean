import Mathlib.Logic.Relation
import Mathlib.Algebra.Ring.Int.Defs

/-!
# Runs of a state machine, and C `int`s

Every stateful part of the network runtime under `src/src/net` (the task inbox of `EventLoop`,
its object registry, the timer table of `LibeventReactor`, a `TcpObject`) is modelled as a
labelled step relation on an explicit state.  `Machine` packages such a relation with its initial
states; `Machine.Reachable` is the set of states its runs reach and `Machine.Steps` the states a
run reaches from a given one.  Every invariant of the development goes through
`Machine.Reachable.rec_inv`: it holds initially and every step keeps it.

The code computes on C `int`s.  `wrap32` is the two's complement wrap-around of 32-bit `int`
arithmetic (and of the narrowing `static_cast<int>`), the semantics the code relies on where it
tests an `int` for `< 0` after an increment.
-/

namespace PikiwiNet

/-- A labelled transition system with its initial states. -/
structure Machine (S L : Type) where
  /-- The states a run may start in. -/
  init : S → Prop
  /-- `step s l s'`: the system moves from `s` to `s'` performing `l`. -/
  step : S → L → S → Prop

namespace Machine

variable {S L : Type} (M : Machine S L)

/-- `s'` is reached from `s` in zero or more steps. -/
def Steps (s s' : S) : Prop := Relation.ReflTransGen (fun a b => ∃ l, M.step a l b) s s'

/-- The states of the runs of `M`. -/
def Reachable (s : S) : Prop := ∃ s₀, M.init s₀ ∧ M.Steps s₀ s

variable {M}

theorem Steps.invariant {I : S → Prop} {s s' : S} (h : M.Steps s s') (h₀ : I s)
    (hstep : ∀ a l b, I a → M.step a l b → I b) : I s' := by
  induction h with
  | refl => exact h₀
  | tail _ hab ih => obtain ⟨l, hl⟩ := hab; exact hstep _ _ _ ih hl

theorem Reachable.rec_inv {I : S → Prop} {s : S} (h : M.Reachable s) (h₀ : ∀ s, M.init s → I s)
    (hstep : ∀ a l b, I a → M.step a l b → I b) : I s := by
  obtain ⟨s₀, hi, hs⟩ := h
  exact hs.invariant (h₀ s₀ hi) hstep

theorem Reachable.step {s s' : S} {l : L} (h : M.Reachable s) (hs : M.step s l s') :
    M.Reachable s' := by
  obtain ⟨s₀, hi, hr⟩ := h
  exact ⟨s₀, hi, hr.tail ⟨l, hs⟩⟩

theorem Reachable.steps {s s' : S} (h : M.Reachable s) (hs : M.Steps s s') : M.Reachable s' := by
  obtain ⟨s₀, hi, hr⟩ := h
  exact ⟨s₀, hi, hr.trans hs⟩

theorem Steps.single {s s' : S} {l : L} (h : M.step s l s') : M.Steps s s' :=
  Relation.ReflTransGen.single ⟨l, h⟩

/-- Run a list of labels through a step function (`none` when one is not enabled). -/
def runList (f : S → L → Option S) : S → List L → Option S
  | s, [] => some s
  | s, l :: ls => (f s l).bind fun s' => runList f s' ls

/-- A trace computed by a step function that implements `M.step` is a run of `M`: concrete runs
are checked by evaluating `runList`. -/
theorem Steps.of_runList {f : S → L → Option S} (hf : ∀ s l s', f s l = some s' → M.step s l s') :
    ∀ {s s' : S} {ls : List L}, runList f s ls = some s' → M.Steps s s'
  | _, _, [], h => by cases h; exact .refl
  | s, s', l :: ls, h => by
    simp only [runList, Option.bind_eq_some] at h
    obtain ⟨s₁, h₁, h₂⟩ := h
    exact Relation.ReflTransGen.head ⟨l, hf _ _ _ h₁⟩ (Steps.of_runList hf h₂)

theorem Reachable.of_runList {f : S → L → Option S} (hf : ∀ s l s', f s l = some s' → M.step s l s')
    {s₀ s : S} (h₀ : M.init s₀) (ls : List L) (h : runList f s₀ ls = some s) : M.Reachable s :=
  ⟨s₀, h₀, Steps.of_runList hf h⟩

end Machine

/-- Where an element sits in a list that has just grown by one element at its end: in the new
element, or in the old list. -/
theorem append_singleton_eq_append_cons {α : Type} {l pre post : List α} {x y : α}
    (h : l ++ [x] = pre ++ y :: post) :
    (post = [] ∧ pre = l ∧ y = x) ∨ ∃ post', post = post' ++ [x] ∧ l = pre ++ y :: post' := by
  rcases List.eq_nil_or_concat post with rfl | ⟨L, b, rfl⟩
  · obtain ⟨rfl, h'⟩ := List.append_inj' h rfl
    exact .inl ⟨rfl, rfl, (List.singleton_inj.1 h').symm⟩
  · rw [List.concat_eq_append, ← List.cons_append, ← List.append_assoc] at h
    obtain ⟨h₁, h₂⟩ := List.append_inj' h rfl
    exact .inr ⟨L, by rw [List.concat_eq_append, List.singleton_inj.1 h₂], h₁⟩

/-! ### C `int`s -/

/-- `INT_MAX` of a 32-bit `int`. -/
def intMax : Int := 2 ^ 31 - 1

/-- `x` is a value of a 32-bit `int`. -/
def IsInt (x : Int) : Prop := -2 ^ 31 ≤ x ∧ x ≤ intMax

instance (x : Int) : Decidable (IsInt x) := inferInstanceAs (Decidable (_ ∧ _))

/-- Two's complement wrap-around of a mathematical integer to a 32-bit `int`. -/
def wrap32 (x : Int) : Int := (x + 2 ^ 31) % 2 ^ 32 - 2 ^ 31

theorem wrap32_of_isInt {x : Int} (h : IsInt x) : wrap32 x = x := by
  unfold IsInt intMax at h; unfold wrap32; omega

theorem isInt_wrap32 (x : Int) : IsInt (wrap32 x) := by
  unfold IsInt intMax wrap32; omega

/-- Wrapping never increases a non-negative value. -/
theorem wrap32_le_self {x : Int} (h : 0 ≤ x) : wrap32 x ≤ x := by
  unfold wrap32; omega

end PikiwiNet
