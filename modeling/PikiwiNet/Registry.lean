import PikiwiNet.Basic
import Mathlib.Logic.Function.Basic
import Mathlib.Data.Int.Interval

/-!
# The object registry of `EventLoop` and `LibeventReactor`

`EventLoop::Register` draws a unique id for an event object in a do-while loop over the shared
generator `obj_id_generator_`, stores it in the object (`SetUniqueId`), asks the reactor to
install the requested watches and, when the reactor accepts, records the object in the loop's
`objects_` under that id.  `LibeventReactor::Register` keeps its own `objects_`, keyed by the same
id, with one record per object that has at least one watch (a zero event mask installs nothing).
`Unregister` erases both entries; `Modify` rewrites the watches of a record; the end of `Run`
unregisters everything, clears `objects_` and destroys the reactor.

The two maps are updated in different orders.  Their agreement is the invariant `Inv`:

* `Registry.inv_of_reachable` : along every run, every key of the loop's map is an id `≥ 0` of the
  object it maps to, and every key of the reactor's map is a key of the loop's map, for the same
  object;
* `Registry.register_true` : hence the reactor never rejects a freshly drawn id, and the branch
  of `EventLoop::Register` that returns `false` after `SetUniqueId` is dead;
* `Registry.allocId_terminates` : from every `int` in the generator, with fewer than `INT_MAX`
  ids in use, the allocation loop ends within `2 ^ 32` rounds (one wrap and reset, then a scan up
  to a free id) with a fresh id in `0 … INT_MAX`, so `Register` always returns;
* `Registry.uid_stable` : `Unregister` never resets an object's id, so an object keeps the id
  `Register` gave it for the rest of the run.
-/

namespace PikiwiNet

namespace Registry

/-- An event object, by identity. -/
abbrev Obj := Nat

/-- `kEventRead`: the read bit of an event mask.  Modelled from the spec: `reactor.h`, which
declares it, is absent; the spec makes the mask a bitmask over {read, write}. -/
def kEventRead : Nat := 1

/-- `kEventWrite`: the write bit of an event mask (declared in the absent `reactor.h`, as
`kEventRead`). -/
def kEventWrite : Nat := 2

/-- `LibeventReactor::Object`: the object and whether its read and write watches exist. -/
structure Rec where
  /-- `ev_obj`. -/
  evObj : Obj
  /-- `read_event` is set. -/
  read : Bool
  /-- `write_event` is set. -/
  write : Bool
  deriving DecidableEq, Repr

/-- The registry state of one loop. -/
structure St where
  /-- `GetUniqueId()` of every object; a new object's id is `-1`. -/
  uid : Obj → Int
  /-- `EventLoop::objects_`. -/
  objects : Int → Option Obj
  /-- `reactor_` with its `objects_`; `none` once `Run` has reset it. -/
  reactor : Option (Int → Option Rec)
  /-- `obj_id_generator_`, shared by all loops. -/
  gen : Int

/-! ### The reactor's half -/

/-- `LibeventReactor::Register`: `none` when it returns `false`. -/
def reactorRegister (r : Int → Option Rec) (id : Int) (o : Obj) (events : Nat) :
    Option (Int → Option Rec) :=
  if events = 0 then some r
  else match r id with
    | some _ => none
    | none => some (Function.update r id
        (some ⟨o, events &&& kEventRead ≠ 0, events &&& kEventWrite ≠ 0⟩))

/-- `LibeventReactor::Modify`: `none` when it finds no record and returns `false`. -/
def reactorModify (r : Int → Option Rec) (id : Int) (events : Nat) :
    Option (Int → Option Rec) :=
  match r id with
  | none => none
  | some rec => some (Function.update r id
      (some { rec with read := events &&& kEventRead ≠ 0, write := events &&& kEventWrite ≠ 0 }))

/-- `LibeventReactor::Unregister`: drop the record, if there is one. -/
def reactorUnregister (r : Int → Option Rec) (id : Int) : Int → Option Rec :=
  Function.update r id none

/-! ### Drawing an id -/

/-- One round of the do-while body of `EventLoop::Register`: `id = fetch_add(1) + 1` with the
wrap-around the test `id < 0` relies on, and the reset of the generator to `0` when `id < 0`.
Returns the id and the new generator. -/
def allocRound (g : Int) : Int × Int :=
  let id := wrap32 (g + 1)
  (id, if id < 0 then 0 else id)

/-- The do-while loop, for at most `fuel` rounds: it repeats while `id < 0` or `id` is in use. -/
def allocLoop (used : Int → Bool) : Nat → Int → Option (Int × Int)
  | 0, _ => none
  | fuel + 1, g =>
    let (id, g') := allocRound g
    if id < 0 ∨ used id = true then allocLoop used fuel g' else some (id, g')

/-- The id allocation of `EventLoop::Register`.  A round depends only on the generator, an `int`,
so a loop that has not ended after `2 ^ 32 + 1` rounds has met a value twice and never ends:
`none` is the loop that runs forever. -/
def allocId (used : Int → Bool) (g : Int) : Option (Int × Int) := allocLoop used (2 ^ 32 + 1) g

theorem allocLoop_spec {used : Int → Bool} :
    ∀ {fuel : Nat} {g id g' : Int}, allocLoop used fuel g = some (id, g') →
      0 ≤ id ∧ used id = false ∧ g' = id
  | 0, _, _, _, h => by simp [allocLoop] at h
  | fuel + 1, g, id, g', h => by
    simp only [allocLoop, allocRound] at h
    split at h
    · exact allocLoop_spec h
    · rename_i hc
      simp only [Option.some.injEq, Prod.mk.injEq] at h
      obtain ⟨rfl, rfl⟩ := h
      simp only [not_or, Bool.not_eq_true] at hc
      exact ⟨by omega, hc.2, by simp [hc.1]⟩

/-- The id the loop returns is an `int`: it comes out of the wrap of some round. -/
theorem allocLoop_isInt {used : Int → Bool} :
    ∀ {fuel : Nat} {g id g' : Int}, allocLoop used fuel g = some (id, g') → IsInt id
  | 0, _, _, _, h => by simp [allocLoop] at h
  | fuel + 1, g, id, g', h => by
    simp only [allocLoop, allocRound] at h
    split at h
    · exact allocLoop_isInt h
    · simp only [Option.some.injEq, Prod.mk.injEq] at h
      exact h.1 ▸ isInt_wrap32 _

/-! ### The allocation loop ends -/

/-- The rounds the allocation loop takes from generator `g` to reach the id `k`
(`1 ≤ k ≤ INT_MAX`) when every id it meets before `k` is in use: up to `k` from below; or up to
`INT_MAX`, one round that wraps and resets the generator, and up from `0`; a generator below `-1`
resets at its first round. -/
def roundsTo (g k : Int) : Int :=
  if g < -1 then k + 1 else if g < k then k - g else intMax - g + 1 + k

/-- A round that does not draw `k` brings the loop one round closer to it, and leaves an `int`
in the generator. -/
theorem allocRound_closer {g k : Int} (hg : IsInt g) (hk₁ : 1 ≤ k) (hk₂ : k ≤ intMax)
    (hne : (allocRound g).1 ≠ k) :
    IsInt (allocRound g).2 ∧ roundsTo (allocRound g).2 k = roundsTo g k - 1 := by
  unfold allocRound roundsTo wrap32 IsInt intMax at *
  simp only at *
  split_ifs <;> omega

/-- From any `int`, at most `2 ^ 32` rounds reach `k`. -/
theorem roundsTo_bounds {g k : Int} (hg : IsInt g) (hk₁ : 1 ≤ k) (hk₂ : k ≤ intMax) :
    1 ≤ roundsTo g k ∧ roundsTo g k ≤ 2 ^ 32 := by
  unfold roundsTo IsInt intMax at *
  split_ifs <;> omega

/-- With `k` free, the loop ends within `roundsTo g k` rounds. -/
theorem allocLoop_isSome {used : Int → Bool} {k : Int} (hk₁ : 1 ≤ k) (hk₂ : k ≤ intMax)
    (hk : used k = false) :
    ∀ (fuel : Nat) (g : Int), IsInt g → roundsTo g k < fuel → (allocLoop used fuel g).isSome
  | 0, g, hg, h => absurd h (by have := (roundsTo_bounds hg hk₁ hk₂).1; omega)
  | fuel + 1, g, hg, h => by
    have hround := allocRound_closer hg hk₁ hk₂
    rcases hr : allocRound g with ⟨id, g'⟩
    rw [hr] at hround
    dsimp only at hround
    simp only [allocLoop, hr]
    split
    · rename_i hc
      have hne : id ≠ k := by rintro rfl; simp only [hk, Bool.false_eq_true, or_false] at hc; omega
      obtain ⟨hg', hd⟩ := hround hne
      exact allocLoop_isSome hk₁ hk₂ hk fuel g' hg' (by push_cast at h; omega)
    · rfl

/-- Fewer than `INT_MAX` ids in use leave one of `1 … INT_MAX` free. -/
theorem exists_free {R : Finset Int} (hR : R.card < 2 ^ 31 - 1) :
    ∃ k, 1 ≤ k ∧ k ≤ intMax ∧ k ∉ R := by
  by_contra h
  push_neg at h
  have hsub : Finset.Icc 1 intMax ⊆ R := fun k hk => (Finset.mem_Icc.1 hk).elim (h k)
  have hcard := Finset.card_le_card hsub
  rw [Int.card_Icc, show (intMax + 1 - 1).toNat = 2 ^ 31 - 1 from rfl] at hcard
  omega

/-- **The id allocation of `Register` ends with a fresh id.**  From every `int` in the
generator, with fewer than `INT_MAX` ids in use and no other thread drawing meanwhile, the
do-while loop of `EventLoop::Register` ends, and the id it returns is an `int`, at least `0`, and
not in use. -/
theorem allocId_terminates {R : Finset Int} (hR : R.card < 2 ^ 31 - 1) {g : Int} (hg : IsInt g) :
    ∃ id g', allocId (fun k => decide (k ∈ R)) g = some (id, g') ∧ 0 ≤ id ∧ id ≤ intMax ∧
      id ∉ R := by
  obtain ⟨k, hk₁, hk₂, hk⟩ := exists_free hR
  have hb := (roundsTo_bounds hg hk₁ hk₂).2
  obtain ⟨⟨id, g'⟩, h⟩ := Option.isSome_iff_exists.1
    (@allocLoop_isSome (fun k => decide (k ∈ R)) k hk₁ hk₂ (by simpa using hk) (2 ^ 32 + 1) g hg
      (by push_cast; omega))
  obtain ⟨h0, hfree, -⟩ := allocLoop_spec h
  exact ⟨id, g', h, h0, (allocLoop_isInt h).2, by simpa using hfree⟩

/-- The generator at `INT_MAX` with ids `1` and `2` in use: the loop wraps, resets and returns a
fresh id. -/
theorem allocId_terminates_after_wrap :
    ∃ id g', allocId (fun k => decide (k ∈ ({1, 2} : Finset Int))) intMax = some (id, g') ∧
      0 ≤ id ∧ id ≤ intMax ∧ id ∉ ({1, 2} : Finset Int) :=
  allocId_terminates (by decide) (by decide)

/-! ### The loop's operations -/

/-- `EventLoop::Register` after its assertions: `none` when the allocation loop never ends,
otherwise the result and the new state. -/
def register (s : St) (o : Obj) (events : Nat) : Option (Bool × St) :=
  match s.reactor with
  | none => some (false, s)
  | some r =>
    match allocId (fun k => (s.objects k).isSome) s.gen with
    | none => none
    | some (id, g) =>
      match reactorRegister r id o events with
      | some r' => some (true, ⟨Function.update s.uid o id,
          Function.update s.objects id (some o), some r', g⟩)
      | none => some (false, { s with uid := Function.update s.uid o id, gen := g })

/-- `EventLoop::Modify` after its assertions. -/
def modify (s : St) (o : Obj) (events : Nat) : Bool × St :=
  match s.reactor with
  | none => (false, s)
  | some r =>
    match reactorModify r (s.uid o) events with
    | none => (false, s)
    | some r' => (true, { s with reactor := some r' })

/-- `EventLoop::Unregister` after its assertions: the reactor's record goes first, then the
loop's entry.  The object's id is left as it is. -/
def unregister (s : St) (o : Obj) : St :=
  match s.reactor with
  | none => s
  | some r =>
    { s with
      reactor := some (reactorUnregister r (s.uid o))
      objects := Function.update s.objects (s.uid o) none }

/-- The end of `EventLoop::Run`: `objects_.clear()` and `reactor_.reset()`.  The reactor-side
`Unregister` of every object before them only empties a reactor that is then destroyed. -/
def teardown (s : St) : St := { s with objects := fun _ => none, reactor := none }

/-- `o` is in the loop's registry under its own id. -/
def Registered (s : St) (o : Obj) : Prop := s.objects (s.uid o) = some o

/-- The calls on the registry, each under its assertions. -/
inductive Act
  /-- `Register(o, events)`, asserting `o->GetUniqueId() == -1`. -/
  | register (o : Obj) (events : Nat)
  /-- `Modify(o, events)` on a registered object. -/
  | modify (o : Obj) (events : Nat)
  /-- `Unregister(o)` on a registered object. -/
  | unregister (o : Obj)
  /-- The teardown at the end of `Run`. -/
  | teardown
  /-- Another loop draws ids: the shared generator moves to `g`. -/
  | share (g : Int)

/-- One step of the registry. -/
def Step (s : St) : Act → St → Prop
  | .register o events, s' => s.uid o = -1 ∧ ∃ b, register s o events = some (b, s')
  | .modify o events, s' => 0 ≤ s.uid o ∧ Registered s o ∧ s' = (modify s o events).2
  | .unregister o, s' => 0 ≤ s.uid o ∧ Registered s o ∧ s' = unregister s o
  | .teardown, s' => s' = teardown s
  | .share g, s' => IsInt g ∧ s' = { s with gen := g }

/-- The registry as a machine: no object has an id yet, both maps are empty and the generator
holds some `int`. -/
def machine : Machine St Act where
  init s := s.uid = (fun _ => -1) ∧ s.objects = (fun _ => none) ∧ s.reactor = some (fun _ => none)
    ∧ IsInt s.gen
  step := Step

/-- A fresh loop: no object has an id yet, both maps are empty, the generator holds `g`. -/
def St.fresh (g : Int) : St := ⟨fun _ => -1, fun _ => none, some (fun _ => none), g⟩

theorem reachable_fresh {g : Int} (hg : IsInt g) : machine.Reachable (St.fresh g) :=
  ⟨_, ⟨rfl, rfl, rfl, hg⟩, .refl⟩

/-! ### The invariant -/

/-- The agreement of the loop's map, the objects' ids and the reactor's map. -/
structure Inv (s : St) : Prop where
  /-- Every key of the loop's map is an id `≥ 0` of the object it maps to. -/
  objects_uid : ∀ k o, s.objects k = some o → 0 ≤ k ∧ s.uid o = k
  /-- Every record of the reactor sits under a key of the loop's map, for the same object. -/
  reactor_sub : ∀ r, s.reactor = some r → ∀ k rec, r k = some rec → s.objects k = some rec.evObj

theorem reactorRegister_isSome {r : Int → Option Rec} {id : Int} (o : Obj) (events : Nat)
    (h : r id = none) : (reactorRegister r id o events).isSome := by
  unfold reactorRegister; split <;> simp [h]

theorem reactorRegister_mem {r r' : Int → Option Rec} {id : Int} {o : Obj} {events : Nat}
    (h : reactorRegister r id o events = some r') {k : Int} {rec : Rec} (hk : r' k = some rec) :
    (k = id ∧ rec.evObj = o) ∨ r k = some rec := by
  unfold reactorRegister at h
  split at h
  · cases h; exact .inr hk
  · split at h
    · cases h
    · cases h
      by_cases hki : k = id
      · subst hki; simp at hk; exact .inl ⟨rfl, by rw [← hk]⟩
      · exact .inr (by simpa [hki] using hk)

/-- A drawn id is free in the loop's map, and so in the reactor's. -/
theorem allocId_fresh {s : St} (hi : Inv s) {r : Int → Option Rec} (hr : s.reactor = some r)
    {i g : Int} (ha : allocId (fun k => (s.objects k).isSome) s.gen = some (i, g)) :
    0 ≤ i ∧ s.objects i = none ∧ r i = none ∧ g = i := by
  obtain ⟨hi0, hfree, hg⟩ := allocLoop_spec ha
  have hnone : s.objects i = none := by simpa using hfree
  refine ⟨hi0, hnone, ?_, hg⟩
  cases hri : r i with
  | none => rfl
  | some rec => simp [hi.reactor_sub r hr i rec hri] at hnone

/-- **The reactor never rejects a drawn id**: in a state satisfying the invariant,
`EventLoop::Register` returns `false` only when the reactor is gone, before it draws an id. -/
theorem register_true {s s' : St} {o : Obj} {events : Nat} {b : Bool} (hi : Inv s)
    (h : register s o events = some (b, s')) (hr : s.reactor ≠ none) : b = true := by
  obtain ⟨r, hr⟩ := Option.ne_none_iff_exists'.1 hr
  simp only [register, hr] at h
  split at h
  · cases h
  · rename_i i g ha
    obtain ⟨-, -, hrid, -⟩ := allocId_fresh hi hr ha
    obtain ⟨r', hr'⟩ := Option.isSome_iff_exists.1 (reactorRegister_isSome o events hrid)
    simp only [hr', Option.some.injEq, Prod.mk.injEq] at h
    exact h.1.symm

theorem inv_register {s s' : St} {o : Obj} {events : Nat} {b : Bool} (hi : Inv s)
    (ho : s.uid o = -1) (h : register s o events = some (b, s')) : Inv s' := by
  cases hr : s.reactor with
  | none =>
    simp only [register, hr, Option.some.injEq, Prod.mk.injEq] at h
    exact h.2 ▸ hi
  | some r =>
    simp only [register, hr] at h
    split at h
    · cases h
    · rename_i i g ha
      obtain ⟨hi0, hfree, hrid, hg⟩ := allocId_fresh hi hr ha
      obtain ⟨r', hr'⟩ := Option.isSome_iff_exists.1 (reactorRegister_isSome o events hrid)
      simp only [hr', Option.some.injEq, Prod.mk.injEq] at h
      obtain ⟨-, rfl⟩ := h
      constructor
      · intro k o' hk
        by_cases hki : k = i
        · subst hki; simp at hk; subst hk; simp [hi0]
        · simp only [Function.update_noteq hki] at hk
          obtain ⟨hk0, hko⟩ := hi.objects_uid k o' hk
          have hne : o' ≠ o := by rintro rfl; omega
          simp [Function.update_noteq hne, hk0, hko]
      · rintro r'' ⟨⟩ k rec hk
        rcases reactorRegister_mem hr' hk with ⟨rfl, ho'⟩ | hk'
        · simp [ho']
        · have hki : k ≠ i := by rintro rfl; simp [hrid] at hk'
          simpa [Function.update_noteq hki] using hi.reactor_sub r hr k rec hk'

theorem inv_modify {s : St} {o : Obj} {events : Nat} (hi : Inv s) : Inv (modify s o events).2 := by
  unfold modify
  split
  · exact hi
  · rename_i r hr
    split
    · exact hi
    · rename_i r' hm
      refine ⟨hi.objects_uid, ?_⟩
      rintro _ ⟨⟩ k rec hk
      unfold reactorModify at hm
      split at hm
      · cases hm
      · rename_i rec₀ h₀
        cases hm
        by_cases hki : k = s.uid o
        · subst hki; simp at hk; subst hk; exact hi.reactor_sub r hr _ rec₀ h₀
        · exact hi.reactor_sub r hr k rec (by simpa [Function.update_noteq hki] using hk)

theorem inv_unregister {s : St} {o : Obj} (hi : Inv s) : Inv (unregister s o) := by
  unfold unregister
  split
  · exact hi
  · rename_i r hr
    constructor
    · intro k o' hk
      by_cases hki : k = s.uid o
      · subst hki; simp at hk
      · exact hi.objects_uid k o' (by simpa [Function.update_noteq hki] using hk)
    · rintro _ ⟨⟩ k rec hk
      by_cases hki : k = s.uid o
      · subst hki; simp [reactorUnregister] at hk
      · simpa [Function.update_noteq hki] using
          hi.reactor_sub r hr k rec (by simpa [reactorUnregister, Function.update_noteq hki] using hk)

theorem inv_step {s s' : St} {a : Act} (hi : Inv s) (h : Step s a s') : Inv s' := by
  cases a with
  | register o events => obtain ⟨ho, b, h⟩ := h; exact inv_register hi ho h
  | modify o events => obtain ⟨-, -, rfl⟩ := h; exact inv_modify hi
  | unregister o => obtain ⟨-, -, rfl⟩ := h; exact inv_unregister hi
  | teardown => cases h; exact ⟨fun _ _ h => by simp [teardown] at h, fun _ h => by simp [teardown] at h⟩
  | share g => obtain ⟨-, rfl⟩ := h; exact ⟨hi.objects_uid, hi.reactor_sub⟩

theorem inv_of_reachable {s : St} (hs : machine.Reachable s) : Inv s :=
  hs.rec_inv (fun s ⟨_, ho, hr, _⟩ => ⟨by simp [ho], by simp [hr, ho]⟩) fun _ _ _ hi h => inv_step hi h

/-- What the registry of every reachable state satisfies. -/
structure Agrees (s : St) : Prop where
  /-- The loop's map, the ids and the reactor's map agree. -/
  inv : Inv s
  /-- No two registered objects share an id. -/
  uid_inj : ∀ k₁ k₂ o₁ o₂, s.objects k₁ = some o₁ → s.objects k₂ = some o₂ →
    s.uid o₁ = s.uid o₂ → o₁ = o₂
  /-- `LibeventReactor::Register` accepts every id the allocation loop draws. -/
  reactor_accepts : ∀ r, s.reactor = some r →
    ∀ i g, allocId (fun k => (s.objects k).isSome) s.gen = some (i, g) →
      ∀ o events, (reactorRegister r i o events).isSome
  /-- `EventLoop::Register` returns `false` only when the reactor is gone. -/
  register_true : ∀ o events b s', register s o events = some (b, s') → s.reactor ≠ none → b = true

/-- **The loop's and the reactor's registries agree** along every run. -/
theorem registry_agreement {s : St} (hs : machine.Reachable s) : Agrees s := by
  have hi := inv_of_reachable hs
  refine ⟨hi, fun k₁ k₂ o₁ o₂ h₁ h₂ he => ?_, fun r hr i g ha o events => ?_,
    fun _ _ _ _ h hr => register_true hi h hr⟩
  · rw [(hi.objects_uid _ _ h₁).2, (hi.objects_uid _ _ h₂).2] at he
    subst he
    exact Option.some.inj (h₁.symm.trans h₂)
  · exact reactorRegister_isSome o events (allocId_fresh hi hr ha).2.2.1

/-- A fresh loop with generator `0` after `Register(0, kEventRead)`: object `0` holds id `1` and
has a read watch. -/
def oneObject : St :=
  ⟨Function.update (fun _ => -1) 0 1, Function.update (fun _ => none) 1 (some 0),
    some (Function.update (fun _ => none) 1 (some ⟨0, true, false⟩)), 1⟩

theorem reachable_oneObject : machine.Reachable oneObject :=
  (reachable_fresh (g := 0) (by decide)).step (l := .register 0 kEventRead)
    (by exact ⟨rfl, true, rfl⟩)

theorem registry_agreement_oneObject : Agrees oneObject :=
  registry_agreement reachable_oneObject

/-! ### Ids are never given back -/

theorem register_uid_other {s s' : St} {o o' : Obj} {events : Nat} {b : Bool}
    (h : register s o' events = some (b, s')) (hne : o ≠ o') : s'.uid o = s.uid o := by
  unfold register at h
  split at h
  · cases h; rfl
  · split at h
    · cases h
    · split at h <;> (cases h; simp [Function.update_noteq hne])

theorem uid_step {s s' : St} {a : Act} {o : Obj} (h : Step s a s') (ho : s.uid o ≠ -1) :
    s'.uid o = s.uid o := by
  cases a with
  | register o' events =>
    obtain ⟨ho', b, h⟩ := h
    exact register_uid_other h (by rintro rfl; exact ho ho')
  | modify o' events =>
    obtain ⟨-, -, rfl⟩ := h
    unfold modify; split
    · rfl
    · split <;> rfl
  | unregister o' => obtain ⟨-, -, rfl⟩ := h; unfold unregister; split <;> rfl
  | teardown => cases h; rfl
  | share g => obtain ⟨-, rfl⟩ := h; rfl

/-- Once an object has an id, it keeps it along every run. -/
theorem uid_stable {s s' : St} {o : Obj} (h : machine.Steps s s') (ho : s.uid o ≠ -1) :
    s'.uid o = s.uid o :=
  h.invariant (I := fun t => t.uid o = s.uid o) rfl fun _ _ _ hu hs => (uid_step hs (hu ▸ ho)).trans hu

/-- The id `-1` means "never registered", not "unregistered": after `Register` and `Unregister`
object `0` is in no entry of the registry, yet its id is `1`. -/
theorem uid_ne_neg_one_after_unregister :
    ¬ ∀ s, machine.Reachable s → ∀ o, (s.uid o = -1 ↔ ¬ ∃ k, s.objects k = some o) := by
  intro h
  have hs : machine.Reachable (unregister oneObject 0) :=
    reachable_oneObject.step (l := .unregister 0) (by exact ⟨by decide, rfl, rfl⟩)
  have hfree : ¬ ∃ k, (unregister oneObject 0).objects k = some 0 := by
    rintro ⟨k, hk⟩
    by_cases hk1 : k = 1 <;> simp_all [unregister, oneObject, Function.update_noteq]
  exact absurd ((h _ hs 0).2 hfree) (by decide)

/-- **Ids of registered objects, and what `-1` means.**  Along every run, an object whose id is
`-1` is in no entry of the loop's registry; and once `Register` has given an object an id, the
object keeps it for the rest of the run, also after `Unregister`, so `Register`'s assertion
`GetUniqueId() == -1` rules out registering it again. -/
theorem uid_neg_one_unregistered_and_kept :
    (∀ s, machine.Reachable s → ∀ o, s.uid o = -1 → ¬ ∃ k, s.objects k = some o) ∧
    (∀ s s', machine.Steps s s' → ∀ o, s.uid o ≠ -1 →
      s'.uid o = s.uid o ∧ ∀ events t, ¬ Step s' (.register o events) t) := by
  refine ⟨fun s hs o ho ⟨k, hk⟩ => ?_, fun s s' h o ho => ⟨uid_stable h ho, ?_⟩⟩
  · have := (inv_of_reachable hs).objects_uid k o hk
    omega
  · rintro events t ⟨ho', -⟩
    exact ho ((uid_stable h ho).symm.trans ho')

end Registry

end PikiwiNet
