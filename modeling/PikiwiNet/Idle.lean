import PikiwiNet.Basic

/-!
# The idle timeout of `TcpObject`

`SetIdleTimeout(T)` (for `T > 0`) stores the threshold in `idle_timeout_ms_`, cancels the previous
idle timer and schedules a repeating 100 ms timer whose id goes to `idle_timer_`.  Each fire runs
`CheckIdleTimeout`, which narrows the milliseconds since `last_active_` to an `int` and calls
`ActiveClose(false)` when they exceed the threshold.  `OnRecvData` refreshes `last_active_` on
every batch, but only while `idle_timer_ != -1`; the constructor sets it to the construction time.

The model keeps the fields these functions read and write, and a monotone clock in nanoseconds
(`steady_clock`).  Fires may come at any time once an idle timer is set: the 100 ms period only
restricts when they come.

* `Idle.close_before_timeout` : a batch received before the first `SetIdleTimeout` does not keep
  the connection open: the check closes a connection that received data 100 ms before;
* `Idle.idle_close_quiet` : the check closes the connection only if no batch has arrived in the
  last `T` ms while an idle timer was set, `T` the threshold in force at the fire.
-/

namespace PikiwiNet

namespace Idle

/-- One millisecond of `steady_clock`, in nanoseconds. -/
def msNs : Nat := 1000000

/-- What the idle supervision sees. -/
inductive Obs
  /-- `OnRecvData` ran at time `time`; `armed` is whether `idle_timer_ != -1` then. -/
  | recv (time : Nat) (armed : Bool)
  /-- `CheckIdleTimeout` found the connection idle at time `time`, against threshold `t`, and
  called `ActiveClose(false)`. -/
  | close (time : Nat) (t : Int)
  deriving DecidableEq, Repr

/-- The idle-timeout fields of one connection, with the clock. -/
structure St where
  /-- `steady_clock::now()`, in nanoseconds. -/
  now : Nat
  /-- `last_active_`. -/
  lastActive : Nat
  /-- `idle_timer_`. -/
  idleTimer : Int
  /-- `idle_timeout_ms_`. -/
  idleTimeoutMs : Int
  /-- What has happened, in order. -/
  log : List Obs
  deriving DecidableEq

/-- `CheckIdleTimeout`: `elapsed > idle_timeout_ms_`, with `elapsed` the `int` milliseconds since
`last_active_`. -/
def checkIdleTimeout (s : St) : Bool :=
  decide (wrap32 ((s.now - s.lastActive) / msNs : Nat) > s.idleTimeoutMs)

/-- The steps of the idle supervision. -/
inductive Act
  /-- The clock advances by `d` ns. -/
  | tick (d : Nat)
  /-- A batch arrives: `OnRecvData`. -/
  | recv
  /-- `SetIdleTimeout(t)`; the timer id generator holds `g`, so the new id is `g + 1`. -/
  | setIdleTimeout (t : Int) (g : Nat)
  /-- The idle timer fires. -/
  | fire

/-- One step; `none` when it is not enabled (a fire needs an idle timer). -/
def step (s : St) : Act → Option St
  | .tick d => some { s with now := s.now + d }
  | .recv => some { s with
      lastActive := if s.idleTimer ≠ -1 then s.now else s.lastActive
      log := s.log ++ [.recv s.now (decide (s.idleTimer ≠ -1))] }
  | .setIdleTimeout t g => some (if t ≤ 0 then s else { s with idleTimeoutMs := t, idleTimer := g + 1 })
  | .fire => if s.idleTimer = -1 then none
      else some (if checkIdleTimeout s then { s with log := s.log ++ [.close s.now s.idleTimeoutMs] }
        else s)

/-- A connection made at time `t₀`, with no idle timer. -/
def St.made (t₀ : Nat) : St := ⟨t₀, t₀, -1, 0, []⟩

/-- The idle supervision of a connection from its construction. -/
def machine : Machine St Act where
  init s := ∃ t₀, s = St.made t₀
  step s a s' := step s a = some s'

/-- **Data received before the first `SetIdleTimeout` is not seen**: made at time 0, the connection
receives a batch at 1000 ms, gets a 500 ms idle timeout, and is closed by the fire at 1100 ms,
100 ms after the batch. -/
theorem close_before_timeout :
    ¬ ∀ s, machine.Reachable s → ∀ pre post (r time : Nat) armed (t : Int),
      s.log = pre ++ .close time t :: post →
      .recv r armed ∈ pre → t * msNs < (time : Int) - r := by
  intro h
  have hs : machine.Reachable ⟨1100 * msNs, 0, 1, 500,
      [.recv (1000 * msNs) false, .close (1100 * msNs) 500]⟩ :=
    Machine.Reachable.of_runList (f := step) (fun _ _ _ h => h) ⟨0, rfl⟩
      [.tick (1000 * msNs), .recv, .setIdleTimeout 500 0, .tick (100 * msNs), .fire] (by decide)
  have := h _ hs [.recv (1000 * msNs) false] [] (1000 * msNs) (1100 * msNs) false 500 rfl (by simp)
  unfold msNs at this
  omega

/-- Every close in `log` came more than its threshold after every batch received, with an idle
timer set, before it. -/
def Quiet (log : List Obs) : Prop :=
  ∀ pre post (r time : Nat) (t : Int), log = pre ++ .close time t :: post →
    .recv r true ∈ pre → t * msNs < (time : Int) - r

theorem quiet_append {log : List Obs} {x : Obs} (hq : Quiet log)
    (hx : ∀ (time : Nat) (t : Int), x = .close time t → ∀ r : Nat, .recv r true ∈ log →
      t * msNs < (time : Int) - r) :
    Quiet (log ++ [x]) := by
  intro pre post r time t h hr
  rcases append_singleton_eq_append_cons h with ⟨-, rfl, rfl⟩ | ⟨post', -, h⟩
  · exact hx time t rfl r hr
  · exact hq pre post' r time t h hr

/-- The invariant of the idle supervision. -/
structure Inv (s : St) : Prop where
  /-- The clock has not gone back past `last_active_`. -/
  last_le : s.lastActive ≤ s.now
  /-- Every batch was received at or before `now`. -/
  recv_le : ∀ r a, .recv r a ∈ s.log → r ≤ s.now
  /-- Every batch received with an idle timer set is at or before `last_active_`. -/
  armed_le : ∀ r, .recv r true ∈ s.log → r ≤ s.lastActive
  /-- The closes so far were quiet. -/
  quiet : Quiet s.log

/-- A positive check means more than `idle_timeout_ms_` ms since `last_active_`: the `int`
narrowing of the elapsed milliseconds never enlarges them. -/
theorem checkIdleTimeout_elapsed {s : St} (hc : checkIdleTimeout s = true)
    (hl : s.lastActive ≤ s.now) : s.idleTimeoutMs * msNs < (s.now : Int) - s.lastActive := by
  have hw := wrap32_le_self (Int.ofNat_nonneg ((s.now - s.lastActive) / msNs))
  have hd := Nat.div_mul_le_self (s.now - s.lastActive) msNs
  simp only [checkIdleTimeout, decide_eq_true_eq] at hc
  unfold msNs at hw hc hd ⊢
  push_cast at hw hc ⊢
  omega

theorem inv_step {s s' : St} {a : Act} (hi : Inv s) (h : step s a = some s') : Inv s' := by
  have hl := hi.last_le
  cases a with
  | tick d =>
    cases h
    exact ⟨by simp; omega, fun r a hr => by simp; have := hi.recv_le r a hr; omega,
      hi.armed_le, hi.quiet⟩
  | recv =>
    cases h
    refine ⟨by split <;> simp [hl], fun r a hr => ?_, fun r hr => ?_,
      quiet_append hi.quiet (fun _ _ h => by cases h)⟩
    · simp only [List.mem_append, List.mem_singleton, Obs.recv.injEq] at hr
      rcases hr with hr | ⟨rfl, -⟩
      exacts [hi.recv_le r a hr, Nat.le_refl _]
    · by_cases ht : s.idleTimer = -1
      · simpa [ht] using hi.armed_le r (by simpa [ht] using hr)
      · simp only [ht, List.mem_append, List.mem_singleton, Obs.recv.injEq] at hr
        rw [if_pos ht]
        rcases hr with hr | ⟨rfl, -⟩
        exacts [hi.recv_le r true hr, Nat.le_refl _]
  | setIdleTimeout t g =>
    cases h
    split
    · exact hi
    · exact ⟨hi.last_le, hi.recv_le, hi.armed_le, hi.quiet⟩
  | fire =>
    simp only [step] at h
    split at h
    · cases h
    simp only [Option.some.injEq] at h
    subst h
    split
    · rename_i hc
      refine ⟨hl, fun r a hr => hi.recv_le r a (by simpa using hr),
        fun r hr => hi.armed_le r (by simpa using hr), quiet_append hi.quiet ?_⟩
      rintro time t ⟨⟩ r hr
      have := checkIdleTimeout_elapsed hc hl
      have := hi.armed_le r hr
      omega
    · exact hi

theorem inv_of_reachable {s : St} (hs : machine.Reachable s) : Inv s :=
  hs.rec_inv (fun _ ⟨t₀, h⟩ => h ▸ ⟨Nat.le_refl _, fun _ _ h => by simp [St.made] at h,
    fun _ h => by simp [St.made] at h, fun _ _ _ _ _ h => by simp [St.made] at h⟩)
    fun _ _ _ hi h => inv_step hi h

/-- **The idle check closes only quiet connections**, counting the batches received while an
idle timer was set: along every run, when `CheckIdleTimeout` closes the connection at time `time`
against the threshold `t` in force then, every such batch received before it arrived more than
`t` ms earlier. -/
theorem idle_close_quiet {s : St} (hs : machine.Reachable s) :
    ∀ pre post (r time : Nat) (t : Int), s.log = pre ++ .close time t :: post →
      .recv r true ∈ pre → t * msNs < (time : Int) - r :=
  (inv_of_reachable hs).quiet

/-- A 500 ms idle timeout set at time 0, a batch at 100 ms, the fire at 800 ms closes: the batch
came 700 ms before. -/
theorem idle_close_quiet_example : (500 : Int) * msNs < ((800 * msNs : Nat) : Int) - (100 * msNs : Nat) :=
  idle_close_quiet (s := ⟨800 * msNs, 100 * msNs, 1, 500,
      [.recv (100 * msNs) true, .close (800 * msNs) 500]⟩)
    (Machine.Reachable.of_runList (f := step) (fun _ _ _ h => h) ⟨0, rfl⟩
      [.setIdleTimeout 500 0, .tick (100 * msNs), .recv, .tick (700 * msNs), .fire] (by decide))
    [.recv (100 * msNs) true] [] _ _ _ rfl (by simp)

end Idle

end PikiwiNet
