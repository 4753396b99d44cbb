import PikiwiNet.Facade
import Mathlib.Data.Rat.Floor

/-!
# Timer delays, from `ScheduleLater` to the `timeval` libevent is armed with

`EventLoop::ScheduleLater` and `ScheduleRepeatedly` come in two overloads.  The `Duration` one
casts the delay to whole milliseconds (`duration_cast`, which truncates toward zero), raises it to
at least 1 ms, narrows the count to an `int` and calls the `int` one.  The `int` one passes its
argument on as it is, to the reactor on the loop's thread or through `Execute` from another.
`LibeventReactor::Schedule` then arms libevent with the `timeval`
`{period_ms / 1000, 1000 * (period_ms % 1000)}`, C's `/` and `%` truncating toward zero.

A duration is taken as its exact length in milliseconds, a rational, and the cast is computed
exactly: a duration whose millisecond count overflows the 64-bit `rep` of `milliseconds` is
outside the model.  The calls become the steps `scheduleOn` and `scheduleOff` of
`PikiwiNet.Facade`, whose timers keep the milliseconds they were armed with.

* **`Delay.schedule_timeout_unclamped`** : nothing on the way clamps the delay: the `int`
  overloads arm `0` ms and negative `timeval`s, and a `Duration` of `2 ^ 31` ms arms a negative
  one.
-/

namespace PikiwiNet

namespace Delay

open Facade Timers

/-- `struct timeval`. -/
structure Timeval where
  /-- `tv_sec`. -/
  sec : Int
  /-- `tv_usec`. -/
  usec : Int
  deriving DecidableEq, Repr

/-- The time a `timeval` stands for, in microseconds. -/
def Timeval.toUs (tv : Timeval) : Int := tv.sec * 1000000 + tv.usec

/-- A normalised `timeval`: `tv_sec ≥ 0` and `0 ≤ tv_usec < 1000000`. -/
def Timeval.Normal (tv : Timeval) : Prop := 0 ≤ tv.sec ∧ 0 ≤ tv.usec ∧ tv.usec < 1000000

instance (tv : Timeval) : Decidable tv.Normal := inferInstanceAs (Decidable (_ ∧ _))

/-- The `timeout` of `LibeventReactor::Schedule(id, period_ms, f, repeat)`:
`tv_sec = period_ms / 1000`, `tv_usec = 1000 * (period_ms % 1000)`. -/
def timeout (periodMs : Int) : Timeval := ⟨periodMs.tdiv 1000, 1000 * periodMs.tmod 1000⟩

/-- `duration_cast<milliseconds>(d).count()` for a duration `d` ms long: the integer division of
the count truncates toward zero. -/
def durationCastMs (d : ℚ) : Int := d.num.tdiv d.den

/-- The `int` a `Duration` overload passes on:
`static_cast<int>(std::max(milliseconds(1), duration_cast<milliseconds>(d)).count())`. -/
def durationMs (d : ℚ) : Int := wrap32 (max 1 (durationCastMs d))

/-- The `int` overloads of `ScheduleLater` (`rep = false`) and `ScheduleRepeatedly`: arm the
timer at once on the loop's thread, or post the arming from another thread. -/
def scheduleInt (rep onLoop : Bool) (ms : Int) : Act :=
  if onLoop then .scheduleOn ms rep else .scheduleOff ms rep

/-- `ScheduleLater(int delay_ms, f)`. -/
def scheduleLaterInt (onLoop : Bool) (delayMs : Int) : Act := scheduleInt false onLoop delayMs

/-- `ScheduleRepeatedly(int period_ms, f)`. -/
def scheduleRepeatedlyInt (onLoop : Bool) (periodMs : Int) : Act := scheduleInt true onLoop periodMs

/-- The `Duration` overloads: narrow, then call the `int` one. -/
def scheduleDuration (rep onLoop : Bool) (d : ℚ) : Act := scheduleInt rep onLoop (durationMs d)

/-- `ScheduleLater(const Duration& delay, f)`. -/
def scheduleLater (onLoop : Bool) (delay : ℚ) : Act := scheduleDuration false onLoop delay

/-- `ScheduleRepeatedly(const Duration& period, f)`. -/
def scheduleRepeatedly (onLoop : Bool) (period : ℚ) : Act := scheduleDuration true onLoop period

/-- **The `int` overloads do not clamp, and the `Duration` ones wrap.**  On the loop's thread,
`ScheduleLater(0)` arms a `timeval` of `0`, `ScheduleRepeatedly(-1)` one of `-1000` µs, and
`ScheduleLater` with a duration of `2 ^ 31` ms (about 24.8 days) narrows it to `-2 ^ 31` and arms
`{-2147483, -648000}`. -/
theorem schedule_timeout_unclamped :
    ∃ s, Facade.machine.Reachable s ∧ ∃ r, s.reactor = some r ∧
      (r.timers 1).map (fun t => timeout t.ms) = some ⟨0, 0⟩ ∧
      (r.timers 2).map (fun t => timeout t.ms) = some ⟨0, -1000⟩ ∧
      (r.timers 3).map (fun t => timeout t.ms) = some ⟨-2147483, -648000⟩ := by
  obtain ⟨s, hs, he⟩ := Option.map_eq_some'.1 (show (Machine.runList Facade.step (Loop.fresh 0)
      [scheduleLaterInt true 0, scheduleRepeatedlyInt true (-1), scheduleLater true 2147483648]).map
      (fun s => s.reactor.map fun r => ((r.timers 1).map (fun t => timeout t.ms),
        (r.timers 2).map (fun t => timeout t.ms), (r.timers 3).map (fun t => timeout t.ms))) =
      some (some (some ⟨0, 0⟩, some ⟨0, -1000⟩, some ⟨-2147483, -648000⟩)) by decide)
  obtain ⟨r, hr, he⟩ := Option.map_eq_some'.1 he
  simp only [Prod.mk.injEq] at he
  exact ⟨s, Machine.Reachable.of_runList (fun _ _ _ h => h) ⟨0, rfl⟩ _ hs, r, hr, he⟩

end Delay

end PikiwiNet
