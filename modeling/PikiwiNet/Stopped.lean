import PikiwiNet.Facade
import PikiwiNet.Registry

/-!
# The entry points of `EventLoop` once `Run` has returned

`Run` ends by clearing `objects_` and resetting `reactor_` to null; only `Reset`, which nothing
calls, would make a new reactor.  The public entry points stay callable on the loop's thread.
`Register`, `Modify`, `Unregister` and `Cancel` test `reactor_` and return their failure value.
The `int` overloads of `ScheduleLater` and `ScheduleRepeatedly` call through `reactor_` untested,
and so do `Listen` and `Connect`, in `loop_->GetReactor()->Backend()` of `TcpListenerObj::Bind` and
`TcpObject::Connect`.

A loop here is the registry of `PikiwiNet.Registry` and the timers of `PikiwiNet.Facade`, two
halves of the one `reactor_`: the structure carries that both have it or neither does.  A call
returns a value, calls through the null `reactor_`, or never returns (the id allocation of
`Register`).  Calls are taken after their assertions, as in `PikiwiNet.Registry`: once `objects_`
is cleared, those of `Modify` and `Unregister` fail in a debug build.

* `Stopped.call_stopped` : once it is gone, `Register`, `Modify`, `Unregister` and `Cancel` return
  `false` (or nothing) and leave it gone, and the other four dereference it;
* `Stopped.calls_after_run` : so on every loop whose `Run` has returned.
-/

namespace PikiwiNet

namespace Stopped

open Registry (Obj)

/-! ### One `reactor_` for both halves -/

theorem register_reactor_isSome {s s' : Registry.St} {o : Obj} {events : Nat} {b : Bool}
    (h : Registry.register s o events = some (b, s')) : s'.reactor.isSome = s.reactor.isSome := by
  unfold Registry.register at h
  split at h
  · cases h; rfl
  · split at h
    · cases h
    · split at h <;> cases h <;> simp_all

theorem modify_reactor_isSome (s : Registry.St) (o : Obj) (events : Nat) :
    (Registry.modify s o events).2.reactor.isSome = s.reactor.isSome := by
  unfold Registry.modify
  split
  · rfl
  · split <;> simp_all

theorem unregister_reactor_isSome (s : Registry.St) (o : Obj) :
    (Registry.unregister s o).reactor.isSome = s.reactor.isSome := by
  cases h : s.reactor <;> simp [Registry.unregister, h]

theorem cancel_reactor_isSome (s : Facade.Loop) (id : Int) :
    (s.cancel id).reactor.isSome = s.reactor.isSome := by
  cases h : s.reactor with
  | none => rw [(Facade.cancel_of_none id h).1]
  | some r => rw [(Facade.cancel_of_some id h).1]; rfl

/-! ### The loop and its entry points -/

/-- One event loop: its registry and its timers, which share the one `reactor_`. -/
structure Loop where
  /-- The objects, their ids, the reactor's object map and `obj_id_generator_`. -/
  reg : Registry.St
  /-- The inbox, the reactor's timers, `timerid_generator_` and what the timers did. -/
  timers : Facade.Loop
  /-- Both halves have the reactor, or neither. -/
  one : reg.reactor.isSome = timers.reactor.isSome

/-- A loop before `Run`: no objects, a new reactor, both generators at `0`. -/
def Loop.fresh : Loop := ⟨Registry.St.fresh 0, Facade.Loop.fresh 0, rfl⟩

/-- The end of `Run`: `objects_.clear()` and `reactor_.reset()`. -/
def Loop.teardown (s : Loop) : Loop :=
  ⟨Registry.teardown s.reg, { s.timers with reactor := none }, rfl⟩

/-- The public entry points of `EventLoop`, called on the loop's thread. -/
inductive Call
  /-- `Register(obj, events)`. -/
  | register (o : Obj) (events : Nat)
  /-- `Modify(obj, events)`. -/
  | modify (o : Obj) (events : Nat)
  /-- `Unregister(obj)`. -/
  | unregister (o : Obj)
  /-- `Cancel(id)`. -/
  | cancel (id : Int)
  /-- `ScheduleLater(int delay_ms, f)`. -/
  | scheduleLater (delayMs : Int)
  /-- `ScheduleRepeatedly(int period_ms, f)`. -/
  | scheduleRepeatedly (periodMs : Int)
  /-- `Listen(ip, port, ccb)` with the new listener `o`; `bindOk` is whether
  `evconnlistener_new_bind` succeeds. -/
  | listen (o : Obj) (bindOk : Bool)
  /-- `Connect(ip, port, ccb, fcb)` with the new connection `o`; `bevOk` is whether
  `bufferevent_socket_new` succeeds and `connOk` whether `bufferevent_socket_connect` does. -/
  | connect (o : Obj) (bevOk connOk : Bool)

/-- What a call returns. -/
inductive Ret
  /-- `Register`, `Modify` and `Listen` return a `bool`; `Cancel` a future resolving to it. -/
  | bool (b : Bool)
  /-- `Unregister` returns nothing. -/
  | unit
  /-- `ScheduleLater` and `ScheduleRepeatedly` return the id they drew. -/
  | timerId (id : Int)
  /-- `Connect` returns the connection, or a null one. -/
  | conn (o : Option Obj)
  deriving DecidableEq, Repr

/-- How a call ends. -/
inductive Outcome
  /-- It returns `v`, leaving the loop in `s`. -/
  | returns (v : Ret) (s : Loop)
  /-- It calls through the null `reactor_`. -/
  | nullDeref
  /-- It never returns: the id allocation of `Register` runs forever. -/
  | diverges

/-- `loop_->Register(obj, events)`, its `bool` handed to `ret`. -/
def registerThen (s : Loop) (o : Obj) (events : Nat) (ret : Bool → Ret) : Outcome :=
  match h : Registry.register s.reg o events with
  | some (b, reg) => .returns (ret b) ⟨reg, s.timers, (register_reactor_isSome h).trans s.one⟩
  | none => .diverges

/-- The `int` overloads of `ScheduleLater` (`rep = false`) and `ScheduleRepeatedly` on the loop's
thread: draw an id, then `reactor_->Schedule...(id, ms, cb)` with `reactor_` untested. -/
def schedule (s : Loop) (ms : Int) (rep : Bool) : Outcome :=
  match h : s.timers.reactor with
  | none => .nullDeref
  | some r => .returns (.timerId (s.timers.gen + 1))
      ⟨s.reg, { s.timers.draw rep with reactor := some (r.schedule (s.timers.gen + 1) ms rep) },
        by rw [s.one, h]; rfl⟩

/-- A call on the loop's thread. -/
def call (s : Loop) : Call → Outcome
  | .register o events => registerThen s o events .bool
  | .modify o events => .returns (.bool (Registry.modify s.reg o events).1)
      ⟨(Registry.modify s.reg o events).2, s.timers, (modify_reactor_isSome _ o events).trans s.one⟩
  | .unregister o => .returns .unit
      ⟨Registry.unregister s.reg o, s.timers, (unregister_reactor_isSome _ o).trans s.one⟩
  | .cancel id => .returns (.bool (Facade.cancelIn s.timers.reactor id).1)
      ⟨s.reg, s.timers.cancel id, s.one.trans (cancel_reactor_isSome _ id).symm⟩
  | .scheduleLater ms => schedule s ms false
  | .scheduleRepeatedly ms => schedule s ms true
  | .listen o bindOk =>
    if s.reg.reactor.isNone then .nullDeref
    else if bindOk then registerThen s o 0 .bool else .returns (.bool false) s
  | .connect o bevOk connOk =>
    if s.reg.reactor.isNone then .nullDeref
    else if bevOk && connOk then registerThen s o 0 fun b => .conn (if b then some o else none)
    else .returns (.conn none) s

/-- The entry points that reach `reactor_` without testing it. -/
def Call.untested : Call → Bool
  | .scheduleLater _ | .scheduleRepeatedly _ | .listen _ _ | .connect _ _ _ => true
  | _ => false

/-! ### Before and after the teardown -/

theorem registerThen_ne_nullDeref (s : Loop) (o : Obj) (events : Nat) (ret : Bool → Ret) :
    registerThen s o events ret ≠ .nullDeref := by
  unfold registerThen
  split <;> simp

theorem registerThen_of_eq {s : Loop} {o : Obj} {events : Nat} {ret : Bool → Ret} {b : Bool}
    {reg : Registry.St} (hr : Registry.register s.reg o events = some (b, reg)) :
    ∃ p, registerThen s o events ret = .returns (ret b) ⟨reg, s.timers, p⟩ := by
  unfold registerThen
  split <;> rename_i heq <;> rw [hr] at heq <;> cases heq
  exact ⟨(register_reactor_isSome hr).trans s.one, rfl⟩

theorem schedule_of_none {s : Loop} (h : s.timers.reactor = none) (ms : Int) (rep : Bool) :
    schedule s ms rep = .nullDeref := by
  unfold schedule
  split <;> simp_all

/-- Once the reactor is gone, `Register`, `Modify`, `Unregister` and `Cancel` return `false` (or
nothing) and leave it gone, and the untested entry points dereference it. -/
theorem call_stopped (s : Loop) (h : s.reg.reactor = none) :
    (∀ c, call s c = .nullDeref ↔ c.untested = true) ∧
    ∀ c, c.untested = false → ∃ v s', call s c = .returns v s' ∧ s'.reg.reactor = none ∧
      (v = .bool false ∨ v = .unit) := by
  have ht : s.timers.reactor = none := Option.not_isSome_iff_eq_none.1 (by simp [← s.one, h])
  have hreg : ∀ o events, Registry.register s.reg o events = some (false, s.reg) := fun o events => by
    simp [Registry.register, h]
  refine ⟨fun c => ?_, fun c hc => ?_⟩
  · cases c with
    | register o events => simp [call, Call.untested, registerThen_ne_nullDeref]
    | modify o events => simp [call, Call.untested]
    | unregister o => simp [call, Call.untested]
    | cancel id => simp [call, Call.untested]
    | scheduleLater ms => simp [call, Call.untested, schedule_of_none ht]
    | scheduleRepeatedly ms => simp [call, Call.untested, schedule_of_none ht]
    | listen o bindOk => simp [call, Call.untested, h]
    | connect o bevOk connOk => simp [call, Call.untested, h]
  · cases c with
    | register o events =>
      obtain ⟨p, hp⟩ := @registerThen_of_eq s o events .bool false s.reg (hreg o events)
      exact ⟨.bool false, s, hp, h, .inl rfl⟩
    | modify o events => exact ⟨.bool false, s, by simp [call, Registry.modify, h], h, .inl rfl⟩
    | unregister o => exact ⟨.unit, s, by simp [call, Registry.unregister, h], h, .inr rfl⟩
    | cancel id => exact ⟨_, _, rfl, h, .inl (by simp [Facade.cancelIn, ht])⟩
    | _ => simp [Call.untested] at hc

/-- **A loop whose `Run` has returned.**  On its thread, `Register`, `Modify` and `Unregister`
find no reactor and return `false` or nothing, and `Cancel` returns a future of `false`; but
`ScheduleLater`, `ScheduleRepeatedly`, `Listen` and `Connect` dereference the null `reactor_`. -/
theorem calls_after_run (s : Loop) :
    (∀ o events, call s.teardown (.register o events) = .returns (.bool false) s.teardown) ∧
    (∀ o events, call s.teardown (.modify o events) = .returns (.bool false) s.teardown) ∧
    (∀ o, call s.teardown (.unregister o) = .returns .unit s.teardown) ∧
    (∀ id, ∃ s', call s.teardown (.cancel id) = .returns (.bool false) s') ∧
    (∀ ms, call s.teardown (.scheduleLater ms) = .nullDeref) ∧
    (∀ ms, call s.teardown (.scheduleRepeatedly ms) = .nullDeref) ∧
    (∀ o bindOk, call s.teardown (.listen o bindOk) = .nullDeref) ∧
    (∀ o bevOk connOk, call s.teardown (.connect o bevOk connOk) = .nullDeref) := by
  obtain ⟨hd, -⟩ := call_stopped s.teardown rfl
  exact ⟨fun _ _ => rfl, fun _ _ => rfl, fun _ => rfl, fun _ => ⟨_, rfl⟩,
    fun _ => (hd _).2 rfl, fun _ => (hd _).2 rfl, fun _ _ => (hd _).2 rfl, fun _ _ _ => (hd _).2 rfl⟩

end Stopped

end PikiwiNet
