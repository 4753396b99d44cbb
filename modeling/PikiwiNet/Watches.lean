import PikiwiNet.Registry

/-!
# The reactor's record of a registered object, along a run

`LibeventReactor::Register` returns `true` at once for an empty event mask ("evobj can manage
events by itself", the case of every `TcpObject` and `TcpListenerObj`) and installs no
`LibeventReactor::Object`; for a non-empty mask it installs one, with the requested watches.
`LibeventReactor::Modify` finds the record by id and fails without one; with one it rewrites the
watches, keeping the record even for an empty mask.  `EventLoop::Modify` returns what the
reactor's `Modify` returns.

Other objects' registrations, modifications and unregistrations, and other loops drawing ids,
never touch the record kept under a registered object's id, and an object that has left the
registry never comes back.  So:

* `Watches.registered_step` : one step of the registry keeps, for an object that has an id and
  is registered afterwards, that it was registered before and whether the reactor holds its
  record;
* `Watches.hasRec_steps` : the same along a whole run;
* **`Watches.modify_iff_events`** : along every run, `Modify` on a registered object returns
  `true` exactly when the object was registered with a non-empty event mask, whatever mask
  `Modify` asks for and whatever happened in between; an object registered with mask `0` can
  never be given a watch by `Modify`.
-/

namespace PikiwiNet

namespace Watches

open Registry

/-- The reactor holds a `LibeventReactor::Object` under `o`'s id. -/
def hasRec (s : St) (o : Obj) : Bool :=
  match s.reactor with
  | none => false
  | some r => (r (s.uid o)).isSome

/-! ### One spec lemma per operation -/

theorem modify_fst (s : St) (o : Obj) (events : Nat) : (Registry.modify s o events).1 = hasRec s o := by
  unfold Registry.modify hasRec reactorModify
  cases s.reactor with
  | none => rfl
  | some r => dsimp only; cases r (s.uid o) <;> rfl

@[simp] theorem modify_uid (s : St) (o : Obj) (events : Nat) : (Registry.modify s o events).2.uid = s.uid := by
  unfold Registry.modify; split
  · rfl
  · split <;> rfl

@[simp] theorem modify_objects (s : St) (o : Obj) (events : Nat) :
    (Registry.modify s o events).2.objects = s.objects := by
  unfold Registry.modify; split
  · rfl
  · split <;> rfl

/-- `Modify` rewrites the watches of a record, never whether there is one. -/
theorem hasRec_modify (s : St) (o o' : Obj) (events : Nat) :
    hasRec (Registry.modify s o' events).2 o = hasRec s o := by
  unfold Registry.modify reactorModify
  rcases hre : s.reactor with _ | r
  · rfl
  · dsimp only
    rcases h : r (s.uid o') with _ | rec
    · rfl
    · simp only [hasRec, hre]
      by_cases hk : s.uid o = s.uid o'
      · rw [hk, Function.update_same, h]; rfl
      · rw [Function.update_noteq hk]

/-- A registration installs a record at most under the drawn id. -/
theorem reactorRegister_ne {r r' : Int → Option Rec} {id k : Int} {o : Obj} {events : Nat}
    (h : reactorRegister r id o events = some r') (hk : k ≠ id) : r' k = r k := by
  unfold reactorRegister at h
  split at h
  · cases h; rfl
  · split at h
    · cases h
    · cases h; exact Function.update_noteq hk _ _

theorem registered_register {s s' : St} {o o' : Obj} {events : Nat} {b : Bool} (hi : Inv s)
    (h : register s o' events = some (b, s')) (hne : o ≠ o') (hr : Registered s' o) :
    Registered s o ∧ hasRec s' o = hasRec s o := by
  unfold register at h
  cases hre : s.reactor with
  | none =>
    simp only [hre, Option.some.injEq, Prod.mk.injEq] at h
    obtain ⟨-, rfl⟩ := h
    exact ⟨hr, rfl⟩
  | some r =>
    simp only [hre] at h
    split at h
    · cases h
    · rename_i i g ha
      have hfree := (allocId_fresh hi hre ha).2.1
      split at h <;> simp only [Option.some.injEq, Prod.mk.injEq] at h <;> obtain ⟨-, rfl⟩ := h
      · rename_i r' hr'
        simp only [Registered] at hr
        rw [Function.update_noteq hne] at hr
        have hki : s.uid o ≠ i := by
          rintro hki
          rw [hki, Function.update_same, Option.some.injEq] at hr
          exact hne hr.symm
        rw [Function.update_noteq hki] at hr
        refine ⟨hr, ?_⟩
        simp only [hasRec, hre]
        rw [Function.update_noteq hne, reactorRegister_ne hr' hki]
      · simp only [Registered] at hr ⊢
        rw [Function.update_noteq hne] at hr
        simp only [hasRec, hre]
        rw [Function.update_noteq hne]
        exact ⟨hr, rfl⟩

theorem registered_unregister {s : St} {o o' : Obj} (hr : Registered (unregister s o') o) :
    Registered s o ∧ hasRec (unregister s o') o = hasRec s o := by
  unfold unregister at hr ⊢
  split at hr
  · exact ⟨hr, rfl⟩
  · rename_i r hre
    simp only [Registered] at hr
    have hk : s.uid o ≠ s.uid o' := by rintro hk; rw [hk, Function.update_same] at hr; cases hr
    rw [Function.update_noteq hk] at hr
    refine ⟨hr, ?_⟩
    simp only [hasRec, hre, reactorUnregister]
    rw [Function.update_noteq hk]

/-! ### Along a run -/

/-- **One step keeps the record of a registered object**: an object that has an id and is
registered after a step was registered before it, and the reactor holds its record after the
step exactly when it held it before. -/
theorem registered_step {s s' : St} {a : Act} {o : Obj} (hi : Inv s) (h : Step s a s')
    (ho : s.uid o ≠ -1) (hr : Registered s' o) : Registered s o ∧ hasRec s' o = hasRec s o := by
  cases a with
  | register o' events =>
    obtain ⟨ho', b, h⟩ := h
    exact registered_register hi h (by rintro rfl; exact ho ho') hr
  | modify o' events =>
    obtain ⟨-, -, rfl⟩ := h
    exact ⟨by simpa [Registered] using hr, hasRec_modify s o o' events⟩
  | unregister o' => obtain ⟨-, -, rfl⟩ := h; exact registered_unregister hr
  | teardown => cases h; simp [Registered, teardown] at hr
  | share g => obtain ⟨-, rfl⟩ := h; exact ⟨hr, rfl⟩

/-- Along every run from a reachable state in which `o` has an id, `o` is registered at the end
only if it has been all along, and the reactor holds its record at the end exactly when it did at
the start. -/
theorem hasRec_steps {s₁ s : St} {o : Obj} (h₁ : machine.Reachable s₁) (hs : machine.Steps s₁ s)
    (ho : s₁.uid o ≠ -1) (hr : Registered s o) : hasRec s o = hasRec s₁ o := by
  induction hs with
  | refl => rfl
  | tail hst hab ih =>
    obtain ⟨a, hab⟩ := hab
    have hu : _ ≠ -1 := (uid_stable hst ho).symm ▸ ho
    obtain ⟨hrb, he⟩ := registered_step (inv_of_reachable (h₁.steps hst)) hab hu hr
    exact he.trans (ih hrb)

/-- A successful `Register` gives the object an id, and a record exactly for a non-empty
mask: the drawn id is free in the reactor. -/
theorem hasRec_register {s s' : St} {o : Obj} {events : Nat} (hi : Inv s)
    (h : register s o events = some (true, s')) : s'.uid o ≠ -1 ∧ hasRec s' o = decide (events ≠ 0) := by
  unfold register at h
  cases hre : s.reactor with
  | none => simp [hre] at h
  | some r =>
    simp only [hre] at h
    split at h
    · cases h
    · rename_i i g ha
      obtain ⟨hi0, -, hri, -⟩ := allocId_fresh hi hre ha
      split at h
      · rename_i r' hr'
        simp only [Option.some.injEq, Prod.mk.injEq, true_and] at h
        subst h
        refine ⟨by dsimp only; rw [Function.update_same]; omega, ?_⟩
        simp only [hasRec, Function.update_same]
        unfold reactorRegister at hr'
        split at hr'
        · cases hr'; simp [hri, *]
        · simp only [hri, Option.some.injEq] at hr'
          subst hr'
          simp [*]
      · simp at h

/-- **`Modify` works exactly on objects registered with a non-empty mask.**  Along every run,
after `Register(o, events)` has succeeded, a `Modify(o, events')` on `o` while it is still
registered returns `true` exactly when `events ≠ 0`, whatever `events'` is and whatever other
objects and loops did in between. -/
theorem modify_iff_events {s₀ s₁ s : St} {o : Obj} {events events' : Nat}
    (h₀ : machine.Reachable s₀) (hu : s₀.uid o = -1) (hreg : register s₀ o events = some (true, s₁))
    (hs : machine.Steps s₁ s) (ho : Registered s o) :
    (Registry.modify s o events').1 = decide (events ≠ 0) := by
  have h₁ : machine.Reachable s₁ := h₀.step (l := .register o events) ⟨hu, true, hreg⟩
  obtain ⟨hid, hrec⟩ := hasRec_register (inv_of_reachable h₀) hreg
  rw [modify_fst, hasRec_steps h₁ hs hid ho, hrec]

/-- A fresh loop with generator `0` after `Register(0, 0)`: object `0` holds id `1`, and the
reactor holds no record. -/
def silentObject : St :=
  ⟨Function.update (fun _ => -1) 0 1, Function.update (fun _ => none) 1 (some 0), some (fun _ => none), 1⟩

/-- An object registered with an empty mask is never given a watch: after another object, `1`,
has registered with `kEventRead` and so got a record, `Modify(0, kEventRead)` on object `0` still
fails. -/
theorem modify_iff_events_silent :
    ∃ s, machine.Steps silentObject s ∧ hasRec s 1 = true ∧
      (Registry.modify s 0 kEventRead).1 = false := by
  have hs := Machine.Steps.single (M := machine) (s := silentObject) (l := .register 1 kEventRead)
    (by exact ⟨rfl, true, rfl⟩)
  exact ⟨_, hs, rfl, @modify_iff_events (St.fresh 0) silentObject _ 0 0 kEventRead
    (reachable_fresh (by decide)) rfl rfl hs rfl⟩

end Watches

end PikiwiNet
