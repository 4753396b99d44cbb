import PikiwiNet.Basic
import Mathlib.Logic.Function.Basic

/-!
# The timer table of `LibeventReactor`

`LibeventReactor::Schedule` makes a `Timer` (id, callback, `repeat` flag), arms a libevent timer
event for it (persistent when the timer repeats) and stores it in `timers_`.  `Cancel(id)` erases
the record; the `Timer` is shared, so its destructor, which frees the libevent event, runs when
the last owner lets go.  `TimerCallback` takes an owning copy of the timer
(`shared_from_this`), runs the callback and, for a one-shot timer, cancels it.

The model keeps, per id, the record in `timers_`, whether the libevent event is pending, and the
timer a running `TimerCallback` holds.  A callback runs between `fireStart` and `fireEnd`, so that
the loop thread can make calls from inside it.  Ids are tracked per id: the ids the event loop
hands out are never reused.

* `Timers.Reactor.Good` : a pending event has an owner, a record or the running callback; every
  operation keeps it (`schedule_good`, `cancel_good`, `fireStart_good`, `fireEnd_good`);
* `Timers.Reactor.cancel_dead` : after `Cancel(id)` the timer of `id` is dead, and
  `fireStart_dead` : a dead timer does not fire, and no operation on another id revives it.
-/

namespace PikiwiNet

namespace Timers

/-- `LibeventReactor::Timer`, without its callback: the callback is named by the id. -/
structure Timer where
  /-- `id`. -/
  id : Int
  /-- `repeat`. -/
  rep : Bool
  /-- The period or delay in milliseconds the timer was armed with. -/
  ms : Int
  deriving DecidableEq, Repr

/-- The timer side of a `LibeventReactor`. -/
structure Reactor where
  /-- `timers_`. -/
  timers : Int → Option Timer
  /-- The libevent timer event of the id is pending. -/
  pending : Int → Bool
  /-- The timer a running `TimerCallback` holds. -/
  current : Option Timer

namespace Reactor

/-- A new reactor: no timers. -/
def empty : Reactor := ⟨fun _ => none, fun _ => false, none⟩

/-- `LibeventReactor::Schedule(id, ms, f, repeat)`: arm the event and store the record. -/
def schedule (r : Reactor) (id ms : Int) (rep : Bool) : Reactor :=
  { r with
    timers := Function.update r.timers id (some ⟨id, rep, ms⟩)
    pending := Function.update r.pending id true }

/-- The running callback holds the timer of `id`. -/
def Holds (r : Reactor) (id : Int) : Prop := r.current.map Timer.id = some id

instance (r : Reactor) (id : Int) : Decidable (r.Holds id) := inferInstanceAs (Decidable (_ = _))

/-- `LibeventReactor::Cancel(id)`: erase the record.  The timer is destroyed, and its event
freed, unless the running callback still holds it. -/
def cancel (r : Reactor) (id : Int) : Bool × Reactor :=
  match r.timers id with
  | none => (false, r)
  | some _ => (true, { r with
      timers := Function.update r.timers id none
      pending := if r.Holds id then r.pending else Function.update r.pending id false })

/-- libevent activates the pending timer event of `id` and `TimerCallback` takes hold of the
timer; a one-shot event is no longer pending once activated. -/
def fireStart (r : Reactor) (id : Int) : Option Reactor :=
  if r.current = none ∧ r.pending id = true then
    (r.timers id).map fun t => { r with
      current := some t
      pending := if t.rep then r.pending else Function.update r.pending id false }
  else none

/-- `TimerCallback` lets go of its owning copy of `t`: the timer is destroyed, and its event
freed, when no record holds it any more. -/
def release (r : Reactor) (t : Timer) : Reactor :=
  { r with
    current := none
    pending := if r.timers t.id = none then Function.update r.pending t.id false else r.pending }

/-- The callback returns: a one-shot timer cancels itself, then `TimerCallback` lets go of the
timer. -/
def fireEnd (r : Reactor) : Option (Timer × Reactor) :=
  r.current.map fun t => (t, (if t.rep then r else (r.cancel t.id).2).release t)

/-! ### What each operation does to the table -/

variable {r r' : Reactor} {id k : Int}

@[simp] theorem empty_timers : empty.timers k = none := rfl

@[simp] theorem empty_pending : empty.pending k = false := rfl

@[simp] theorem empty_current : empty.current = none := rfl

@[simp] theorem schedule_timers (ms : Int) (rep : Bool) :
    (r.schedule id ms rep).timers k = if k = id then some ⟨id, rep, ms⟩ else r.timers k := by
  simp [schedule, Function.update_apply]

@[simp] theorem schedule_pending (ms : Int) (rep : Bool) :
    (r.schedule id ms rep).pending k = if k = id then true else r.pending k := by
  simp [schedule, Function.update_apply]

@[simp] theorem schedule_current (ms : Int) (rep : Bool) : (r.schedule id ms rep).current = r.current :=
  rfl

@[simp] theorem cancel_fst : (r.cancel id).1 = (r.timers id).isSome := by
  unfold cancel; split <;> simp_all

@[simp] theorem cancel_timers : (r.cancel id).2.timers k = if k = id then none else r.timers k := by
  unfold cancel; split
  · split <;> simp_all
  · simp [Function.update_apply]

@[simp] theorem cancel_current : (r.cancel id).2.current = r.current := by
  unfold cancel; split <;> rfl

theorem cancel_pending : (r.cancel id).2.pending k =
    if k = id ∧ r.timers id ≠ none ∧ ¬ r.Holds id then false else r.pending k := by
  unfold cancel; split
  · simp_all
  · split <;> simp_all [Function.update_apply]

theorem fireStart_eq_some : r.fireStart id = some r' ↔ r.current = none ∧ r.pending id = true ∧
    ∃ t, r.timers id = some t ∧ r' =
      { r with
        current := some t
        pending := if t.rep then r.pending else Function.update r.pending id false } := by
  unfold fireStart
  split
  · rename_i h
    simp only [Option.map_eq_some', h, true_and]
    exact ⟨fun ⟨t, ht, e⟩ => ⟨t, ht, e.symm⟩, fun ⟨t, ht, e⟩ => ⟨t, ht, e.symm⟩⟩
  · rename_i h
    simp only [reduceCtorEq, false_iff, not_and, not_exists]
    exact fun h₁ h₂ => absurd ⟨h₁, h₂⟩ h

@[simp] theorem release_timers (t : Timer) : (r.release t).timers = r.timers := rfl

@[simp] theorem release_current (t : Timer) : (r.release t).current = none := rfl

theorem release_pending (t : Timer) : (r.release t).pending k =
    if k = t.id ∧ r.timers t.id = none then false else r.pending k := by
  unfold release
  split
  · simp only [Function.update_apply]; by_cases hk : k = t.id <;> simp_all
  · simp_all

theorem fireEnd_eq_some {t : Timer} : r.fireEnd = some (t, r') ↔
    r.current = some t ∧ r' = (if t.rep then r else (r.cancel t.id).2).release t := by
  unfold fireEnd
  cases r.current with
  | none => simp
  | some t' =>
    simp only [Option.map_some', Option.some.injEq, Prod.mk.injEq]
    constructor
    · rintro ⟨rfl, rfl⟩; exact ⟨rfl, rfl⟩
    · rintro ⟨rfl, rfl⟩; exact ⟨rfl, rfl⟩

theorem fireEnd_timers {t : Timer} (h : r.fireEnd = some (t, r')) :
    r'.timers k = if t.rep = false ∧ k = t.id then none else r.timers k := by
  obtain ⟨-, rfl⟩ := fireEnd_eq_some.1 h
  cases t.rep <;> simp

/-- No operation but `schedule` makes an event pending. -/
theorem cancel_pending_of (h : (r.cancel id).2.pending k = true) : r.pending k = true := by
  rw [cancel_pending] at h
  split at h
  · cases h
  · exact h

theorem fireStart_pending_of (hf : r.fireStart id = some r') (h : r'.pending k = true) :
    r.pending k = true := by
  obtain ⟨-, -, t, -, rfl⟩ := fireStart_eq_some.1 hf
  split at h
  · exact h
  · simp only [Function.update_apply] at h
    split at h
    · cases h
    · exact h

theorem release_pending_of {t : Timer} (h : (r.release t).pending k = true) : r.pending k = true := by
  rw [release_pending] at h
  split at h
  · cases h
  · exact h

theorem fireEnd_pending_of {t : Timer} (hf : r.fireEnd = some (t, r')) (h : r'.pending k = true) :
    r.pending k = true := by
  obtain ⟨-, rfl⟩ := fireEnd_eq_some.1 hf
  have h₁ := release_pending_of h
  split at h₁
  · exact h₁
  · exact cancel_pending_of h₁

/-- The return of a callback keeps the pending event of every id that keeps its record. -/
theorem fireEnd_pending_keep {t : Timer} (hf : r.fireEnd = some (t, r')) (ht : r'.timers k ≠ none)
    (hp : r.pending k = true) : r'.pending k = true := by
  have htm := fireEnd_timers (k := k) hf
  obtain ⟨-, rfl⟩ := fireEnd_eq_some.1 hf
  rw [release_pending, if_neg fun h => ht (by rw [release_timers, h.1]; exact h.2)]
  split
  · exact hp
  · rename_i hrep
    rw [cancel_pending, if_neg fun h => ht (by rw [htm]; simp [hrep, h.1])]
    exact hp

/-! ### A pending event has an owner -/

/-- The libevent event of an id is pending only while a record or the running callback holds its
timer: a freed event never fires. -/
def Good (r : Reactor) : Prop := ∀ id, r.pending id = true → r.timers id ≠ none ∨ r.Holds id

theorem holds_iff {t : Timer} (hc : r.current = some t) : r.Holds id ↔ t.id = id := by
  simp [Holds, hc]

theorem not_holds (hc : r.current = none) : ¬ r.Holds id := by
  simp [Holds, hc]

theorem empty_good : empty.Good := fun _ h => by simp at h

theorem schedule_good (h : r.Good) (ms : Int) (rep : Bool) : (r.schedule id ms rep).Good := by
  intro k hk
  by_cases hki : k = id
  · simp [hki]
  · simp only [schedule_pending, hki, if_false] at hk
    simpa [Holds, hki] using h k hk

theorem cancel_good (h : r.Good) : (r.cancel id).2.Good := by
  intro k hk
  rw [cancel_pending] at hk
  simp only [Holds, cancel_current, cancel_timers]
  split at hk
  · cases hk
  · rename_i hne
    by_cases hki : k = id
    · subst hki
      right
      have := h k hk
      simp only [Holds, true_and, not_and, not_not] at hne this
      exact this.elim hne fun h => h
    · simpa [hki, Holds] using h k hk

theorem fireStart_good (h : r.Good) (hf : r.fireStart id = some r') : r'.Good := fun k hk => by
  have hp := fireStart_pending_of hf hk
  obtain ⟨hc, -, t, -, rfl⟩ := fireStart_eq_some.1 hf
  exact .inl ((h k hp).resolve_right (not_holds hc))

theorem release_good {t : Timer} (h : r.Good) (hc : r.current = some t) : (r.release t).Good := by
  intro k hk
  rw [release_pending] at hk
  left
  split at hk
  · cases hk
  · rename_i hne
    by_cases hki : k = t.id
    · subst hki; exact fun h' => hne ⟨rfl, h'⟩
    · exact (h k hk).resolve_right fun hh => hki ((holds_iff hc).1 hh).symm

theorem fireEnd_good {t : Timer} (h : r.Good) (hf : r.fireEnd = some (t, r')) : r'.Good := by
  obtain ⟨hc, rfl⟩ := fireEnd_eq_some.1 hf
  split
  · exact release_good h hc
  · exact release_good (cancel_good h) (by simpa using hc)

/-! ### A timer that can never fire again -/

/-- `id` has no record, and its event is pending only while the running callback holds it, so
that the event goes when the callback returns. -/
def Dead (r : Reactor) (id : Int) : Prop := r.timers id = none ∧ (r.pending id = true → r.Holds id)

theorem cancel_dead (h : r.Good) : (r.cancel id).2.Dead id := by
  refine ⟨by simp, fun hp => ?_⟩
  rw [cancel_pending] at hp
  simp only [Holds, cancel_current]
  split at hp
  · cases hp
  · rename_i hne
    have := h id hp
    simp only [Holds, true_and, not_and, not_not] at hne this
    exact this.elim hne fun h => h

theorem schedule_dead (h : r.Dead id) (hk : k ≠ id) (ms : Int) (rep : Bool) :
    (r.schedule k ms rep).Dead id := by
  simpa [Dead, Holds, Ne.symm hk] using h

theorem cancel_dead_of_dead (h : r.Dead id) : (r.cancel k).2.Dead id := by
  refine ⟨by simp [h.1], fun hp => ?_⟩
  rw [cancel_pending] at hp
  simp only [Holds, cancel_current]
  split at hp
  · cases hp
  · exact h.2 hp

/-- A dead timer does not fire, and firing another keeps it dead. -/
theorem fireStart_dead (h : r.Dead id) (hf : r.fireStart k = some r') : k ≠ id ∧ r'.Dead id := by
  obtain ⟨hc, hp, t, -, rfl⟩ := fireStart_eq_some.1 hf
  have hk : k ≠ id := by rintro rfl; exact not_holds hc (h.2 hp)
  have hq : r.pending id = false := Bool.eq_false_iff.2 fun hq => not_holds hc (h.2 hq)
  refine ⟨hk, h.1, fun hp => ?_⟩
  split at hp
  · simp [hq] at hp
  · simp [Function.update_apply, Ne.symm hk, hq] at hp

theorem fireEnd_dead {t : Timer} (h : r.Dead id) (hf : r.fireEnd = some (t, r')) : r'.Dead id := by
  obtain ⟨hc, rfl⟩ := fireEnd_eq_some.1 hf
  have h₁ : (if t.rep then r else (r.cancel t.id).2).Dead id := by
    split
    · exact h
    · exact cancel_dead_of_dead h
  have hc₁ : (if t.rep then r else (r.cancel t.id).2).current = some t := by split <;> simp [hc]
  generalize (if t.rep then r else (r.cancel t.id).2) = r₁ at h₁ hc₁
  refine ⟨h₁.1, fun hp => ?_⟩
  rw [release_pending] at hp
  split at hp
  · cases hp
  · rename_i hne
    have e := (holds_iff hc₁).1 (h₁.2 hp)
    exact absurd ⟨e.symm, e ▸ h₁.1⟩ hne

end Reactor

end Timers

end PikiwiNet
