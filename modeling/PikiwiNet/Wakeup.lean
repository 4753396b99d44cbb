import PikiwiNet.Inbox

/-!
# Waking the loop: `task_mutex_` and the notifier pipe

`PikiwiNet.Inbox` takes `Execute`'s append and `Run`'s test and `try_lock` as single steps.  This
module splits them as the code does, and adds what wakes the loop thread out of
`reactor_->Poll()`:

* `Execute` off the loop's thread takes `task_mutex_`, appends its task, calls
  `notifier_->Notify()` (a one-byte `write` to a non-blocking pipe, which fails when the pipe is
  full) and only then releases the mutex;
* `Stop` clears `running_` and then calls `Notify()`, without the mutex;
* each iteration of `Run` tests `running_`, then tries the mutex: on success it swaps the tasks
  out and releases it, runs the batch and polls; on failure (the mutex is held, or `try_lock`
  fails spuriously, as the standard allows) it polls at once;
* `Poll` is `event_base_loop(base, EVLOOP_ONCE)`: it returns after one round of active events.
  While the pipe holds a byte its read event (registered by `Run` with `kEventRead`) is active,
  and `PipeObject::HandleReadEvent` reads one byte.  Otherwise the loop sleeps until another
  event: a timer, a socket, or the reactor's `wakeup_event_`, which fires every 10 ms.

A `Poll` that starts with the pipe empty may thus sleep up to 10 ms with work pending.

* `Wakeup.wakeup_refines_inbox` : every run of this model is matched, under `abs`, by a run of
  `PikiwiNet.Inbox` with the same `Execute` calls, so the tasks posted are the tasks run, then the
  rest of the batch, then `tasks_`, and when `Run` returns the tasks never run are those left in
  `tasks_`;
* `Wakeup.poll_after_swap_wakes` : **after a successful swap, a task whose `Execute` has notified
  never waits for the 10 ms wakeup**; after a failed `try_lock` it can;
* `Wakeup.stop_wakes` : once `Stop` has returned, the pipe holds a byte until the loop leaves
  its iteration, so `Run` returns without waiting for the 10 ms wakeup.

Whether `Register(notifier_, kEventRead)` succeeds is not modelled: the pipe's read event is
taken as registered.
-/

namespace PikiwiNet

namespace Wakeup

/-- The notifier's non-blocking pipe. -/
structure Pipe where
  /-- The bytes it holds before a `write` fails with `EAGAIN`. -/
  cap : Nat
  /-- The bytes written and not read yet. -/
  bytes : Nat
  cap_pos : 0 < cap
  le_cap : bytes ≤ cap

/-- `PipeObject::Notify`: `write` one byte; `true` when it was written. -/
def Pipe.notify (p : Pipe) : Bool × Pipe :=
  if h : p.bytes < p.cap then (true, ⟨p.cap, p.bytes + 1, p.cap_pos, h⟩) else (false, p)

/-- `PipeObject::HandleReadEvent`: `read` one byte; `true` when one was read. -/
def Pipe.handleReadEvent (p : Pipe) : Bool × Pipe :=
  if 0 < p.bytes then (true, ⟨p.cap, p.bytes - 1, p.cap_pos, Nat.le_trans (Nat.sub_le _ _) p.le_cap⟩)
  else (false, p)

@[simp] theorem Pipe.notify_bytes (p : Pipe) : p.notify.2.bytes = min p.cap (p.bytes + 1) := by
  have := p.le_cap
  unfold Pipe.notify
  split <;> simp only <;> omega

@[simp] theorem Pipe.handleReadEvent_bytes (p : Pipe) : p.handleReadEvent.2.bytes = p.bytes - 1 := by
  unfold Pipe.handleReadEvent
  split
  · rfl
  · simp only; omega

@[simp] theorem Pipe.notify_cap (p : Pipe) : p.notify.2.cap = p.cap := by
  unfold Pipe.notify; split <;> rfl

/-- Where the loop thread is in an iteration of `EventLoop::Run`. -/
inductive Pc
  /-- At the test `while (running_)`. -/
  | top
  /-- The test passed; at `task_mutex_.try_lock()`. -/
  | tested
  /-- Running the swapped batch `funcs`. -/
  | batch
  /-- Inside `reactor_->Poll()`; `swapped` is whether this iteration's `try_lock` succeeded. -/
  | poll (swapped : Bool)
  /-- `Run` has left its loop. -/
  | done
  deriving DecidableEq, Repr

/-- How far the `Execute` call holding `task_mutex_` has got. -/
inductive Held
  /-- It has appended its task and not called `Notify()` yet. -/
  | appended
  /-- It has called `Notify()` and not released the mutex yet. -/
  | notified
  deriving DecidableEq, Repr

/-- One loop, the callers of its `Execute` and `Stop`, and its notifier pipe. -/
structure St (α : Type) where
  /-- `tasks_`. -/
  tasks : List α
  /-- The tasks of the swapped batch `funcs` not run yet. -/
  batch : List α
  /-- `running_`. -/
  running : Bool
  /-- The loop thread's position in `Run`. -/
  pc : Pc
  /-- `task_mutex_`, when an `Execute` call holds it. -/
  held : Option Held
  /-- The notifier pipe. -/
  pipe : Pipe
  /-- The `Stop` calls that have cleared `running_` and not notified yet. -/
  stopping : Nat
  /-- Ghost: some `Stop` call has returned. -/
  stopped : Bool
  /-- Ghost: every task the loop has run, in order. -/
  executed : List α

/-- The steps of the loop thread and of the threads calling `Execute` and `Stop`. -/
inductive Act (α : Type)
  /-- `Execute(f)` off the loop's thread takes the free mutex and appends `f`. -/
  | execute (f : α)
  /-- It calls `notifier_->Notify()`, still holding the mutex. -/
  | notify
  /-- It releases the mutex. -/
  | unlock
  /-- `Stop()`: `running_ = false`. -/
  | stop
  /-- `Stop()`: `notifier_->Notify()`, and `Stop` returns. -/
  | stopNotify
  /-- The loop tests `while (running_)`; if it fails, `Run` tears the loop down. -/
  | test
  /-- `try_lock` succeeds: `funcs.swap(tasks_)`, unlock. -/
  | swap
  /-- `try_lock` fails. -/
  | busy
  /-- Run the next task of the batch. -/
  | run
  /-- The batch is done: `reactor_->Poll()`. -/
  | poll
  /-- `Poll` returns having run the pipe's read event. -/
  | wakeRead
  /-- `Poll` returns on another event: a timer, a socket, or the 10 ms `wakeup_event_`. -/
  | wakeOther

variable {α : Type}

/-- A loop before `Run`, with an empty pipe. -/
def St.fresh (p : Pipe) : St α := ⟨[], [], true, .top, none, p, 0, false, []⟩

/-- One step; `none` when it is not enabled. -/
def step (s : St α) : Act α → Option (St α)
  | .execute f => if s.held = none then
      some { s with tasks := s.tasks ++ [f], held := some .appended }
    else none
  | .notify => if s.held = some .appended then
      some { s with pipe := s.pipe.notify.2, held := some .notified } else none
  | .unlock => if s.held = some .notified then some { s with held := none } else none
  | .stop => some { s with running := false, stopping := s.stopping + 1 }
  | .stopNotify => if 0 < s.stopping then
      some { s with pipe := s.pipe.notify.2, stopping := s.stopping - 1, stopped := true } else none
  | .test => if s.pc = .top then some { s with pc := if s.running then .tested else .done }
    else none
  | .swap => if s.pc = .tested ∧ s.held = none then
      some { s with tasks := [], batch := s.tasks, pc := .batch } else none
  | .busy => if s.pc = .tested then some { s with pc := .poll false } else none
  | .run => match s.pc, s.batch with
    | .batch, f :: rest => some { s with batch := rest, executed := s.executed ++ [f] }
    | _, _ => none
  | .poll => match s.pc, s.batch with
    | .batch, [] => some { s with pc := .poll true }
    | _, _ => none
  | .wakeRead => match s.pc with
    | .poll _ => if 0 < s.pipe.bytes then
        some { s with pipe := s.pipe.handleReadEvent.2, pc := .top } else none
    | _ => none
  | .wakeOther => match s.pc with
    | .poll _ => some { s with pc := .top }
    | _ => none

/-- The loop with its callers: it starts before `Run`, with an empty pipe of any size. -/
def machine (α : Type) : Machine (St α) (Act α) where
  init s := ∃ p : Pipe, p.bytes = 0 ∧ s = St.fresh p
  step s a s' := step s a = some s'

/-! ### The invariant -/

/-- The loop has passed its test in the current iteration. -/
def Pc.inIteration : Pc → Bool
  | .tested | .batch | .poll _ => true
  | _ => false

/-- An `Execute` call has appended and not notified yet. -/
def St.unnotified (s : St α) : Nat := if s.held = some .appended then 1 else 0

/-- The invariant of the loop and its callers. -/
structure Inv (s : St α) : Prop where
  /-- Once the loop has swapped, every task of `tasks_` whose `Execute` has notified has its
  byte in the pipe, as far as the pipe holds them. -/
  notified : s.pc = .batch ∨ s.pc = .poll true →
    min s.pipe.cap (s.tasks.length - s.unnotified) ≤ s.pipe.bytes
  /-- A `Stop` under way has cleared `running_`. -/
  stopping : 0 < s.stopping → s.running = false
  /-- So has one that returned. -/
  stopped : s.stopped = true → s.running = false
  /-- Once a `Stop` has returned, the pipe holds a byte until the loop leaves its iteration. -/
  stopped_bytes : s.stopped = true → s.pc.inIteration = true → 0 < s.pipe.bytes

theorem inv_step {s s' : St α} {a : Act α} (hi : Inv s) (h : step s a = some s') : Inv s' := by
  cases a with
  | execute f =>
    obtain ⟨hh, ⟨⟩⟩ := Option.ite_none_right_eq_some.1 h
    refine ⟨fun hp => ?_, hi.stopping, hi.stopped, hi.stopped_bytes⟩
    have := hi.notified hp
    simp only [St.unnotified, hh, reduceCtorEq, if_false, if_true, List.length_append,
      List.length_singleton] at this ⊢
    omega
  | notify =>
    obtain ⟨hh, ⟨⟩⟩ := Option.ite_none_right_eq_some.1 h
    have := s.pipe.cap_pos
    refine ⟨fun hp => ?_, hi.stopping, hi.stopped, fun _ _ => by simp only [Pipe.notify_bytes]; omega⟩
    have := hi.notified hp
    simp only [St.unnotified, hh, reduceCtorEq, if_false, if_true, Pipe.notify_bytes,
      Pipe.notify_cap] at this ⊢
    omega
  | unlock =>
    obtain ⟨hh, ⟨⟩⟩ := Option.ite_none_right_eq_some.1 h
    refine ⟨fun hp => ?_, hi.stopping, hi.stopped, hi.stopped_bytes⟩
    simpa [St.unnotified, hh] using hi.notified hp
  | stop =>
    cases h
    exact ⟨hi.notified, fun _ => rfl, fun _ => rfl, hi.stopped_bytes⟩
  | stopNotify =>
    obtain ⟨hs, ⟨⟩⟩ := Option.ite_none_right_eq_some.1 h
    have := s.pipe.cap_pos
    refine ⟨fun hp => ?_, fun _ => hi.stopping hs, fun _ => hi.stopping hs,
      fun _ _ => by simp only [Pipe.notify_bytes]; omega⟩
    have := hi.notified hp
    simp only [St.unnotified, Pipe.notify_bytes, Pipe.notify_cap] at this ⊢
    omega
  | test =>
    obtain ⟨hpc, ⟨⟩⟩ := Option.ite_none_right_eq_some.1 h
    refine ⟨fun hp => ?_, hi.stopping, hi.stopped, fun hst => ?_⟩
    · split at hp <;> simp at hp
    · simp [hi.stopped hst, Pc.inIteration]
  | swap =>
    obtain ⟨⟨hpc, -⟩, ⟨⟩⟩ := Option.ite_none_right_eq_some.1 h
    exact ⟨fun _ => by simp, hi.stopping, hi.stopped,
      fun hst _ => hi.stopped_bytes hst (by simp [hpc, Pc.inIteration])⟩
  | busy =>
    obtain ⟨hpc, ⟨⟩⟩ := Option.ite_none_right_eq_some.1 h
    exact ⟨fun hp => by simp at hp, hi.stopping, hi.stopped,
      fun hst _ => hi.stopped_bytes hst (by simp [hpc, Pc.inIteration])⟩
  | run =>
    simp only [step] at h
    split at h
    · rename_i hpc _
      cases h
      exact ⟨fun _ => hi.notified (.inl hpc), hi.stopping, hi.stopped, hi.stopped_bytes⟩
    · cases h
  | poll =>
    simp only [step] at h
    split at h
    · rename_i hpc _
      cases h
      exact ⟨fun _ => hi.notified (.inl hpc), hi.stopping, hi.stopped,
        fun hst _ => hi.stopped_bytes hst (by simp [hpc, Pc.inIteration])⟩
    · cases h
  | wakeRead =>
    simp only [step] at h
    split at h
    · obtain ⟨-, ⟨⟩⟩ := Option.ite_none_right_eq_some.1 h
      exact ⟨fun hp => by simp at hp, hi.stopping, hi.stopped, fun _ hp => by simp [Pc.inIteration] at hp⟩
    · cases h
  | wakeOther =>
    simp only [step] at h
    split at h
    · cases h
      exact ⟨fun hp => by simp at hp, hi.stopping, hi.stopped, fun _ hp => by simp [Pc.inIteration] at hp⟩
    · cases h

theorem inv_of_reachable {s : St α} (hs : (machine α).Reachable s) : Inv s :=
  hs.rec_inv (fun _ ⟨_, _, e⟩ => e ▸ ⟨fun h => by simp [St.fresh] at h, fun h => by simp [St.fresh] at h,
    fun h => by simp [St.fresh] at h, fun h => by simp [St.fresh] at h⟩) fun _ _ _ hi h => inv_step hi h

/-! ### The inbox it refines -/

/-- The loop's position as `PikiwiNet.Inbox` sees it. -/
def Pc.abs : Pc → Inbox.Pc
  | .batch => .batch
  | .done => .done
  | _ => .top

/-- The state of `PikiwiNet.Inbox` this one stands for.  A loop that has passed its test still
runs its iteration, so a `Stop` reaches `Inbox` when the loop next comes to the test. -/
def abs (s : St α) : Inbox.St α :=
  ⟨s.tasks, s.batch, s.running || s.pc.inIteration, s.pc.abs, s.executed⟩

/-- The task a step posts: that of an `Execute` call. -/
def Act.task : Act α → Option α
  | .execute f => some f
  | _ => none

/-- The tasks the `Execute` calls of a run post, in the order they take `task_mutex_`. -/
def posted (ls : List (Act α)) : List α := ls.filterMap Act.task

@[simp] theorem posted_cons (a : Act α) (ls : List (Act α)) :
    posted (a :: ls) = a.task.toList ++ posted ls := by
  cases a <;> rfl

/-- Leaving `Poll` for the top of the loop: a `Stop` made during the iteration reaches `Inbox`;
otherwise `Inbox` sees nothing change. -/
theorem abs_leave_poll {s : St α} {b : Bool} (hpc : s.pc = .poll b) (p : Pipe) :
    abs { s with pipe := p, pc := .top } = abs s ∨
      Inbox.step (abs s) .stop = some (abs { s with pipe := p, pc := .top }) := by
  cases hr : s.running
  · exact .inr (by simp [abs, Inbox.step, hpc, hr, Pc.inIteration, Pc.abs])
  · exact .inl (by simp [abs, hpc, hr, Pc.inIteration, Pc.abs])

/-- Every step is a step of `Inbox` that posts the same task, or posts nothing and changes
nothing `Inbox` sees. -/
theorem abs_step {s s' : St α} {a : Act α} (h : step s a = some s') :
    (abs s' = abs s ∧ a.task = none) ∨
      ∃ b, Inbox.step (abs s) b = some (abs s') ∧ b.task = a.task := by
  cases a with
  | execute f =>
    obtain ⟨-, ⟨⟩⟩ := Option.ite_none_right_eq_some.1 h
    exact .inr ⟨.execute f, rfl, rfl⟩
  | notify | unlock | stopNotify =>
    obtain ⟨-, ⟨⟩⟩ := Option.ite_none_right_eq_some.1 h
    exact .inl ⟨rfl, rfl⟩
  | stop =>
    cases h
    cases hp : s.pc.inIteration
    · exact .inr ⟨.stop, by simp [abs, Inbox.step, hp], rfl⟩
    · exact .inl ⟨by simp [abs, hp], rfl⟩
  | test =>
    obtain ⟨hpc, ⟨⟩⟩ := Option.ite_none_right_eq_some.1 h
    cases hr : s.running
    · exact .inr ⟨.exit, by simp [abs, Inbox.step, hpc, hr, Pc.inIteration, Pc.abs], rfl⟩
    · exact .inl ⟨by simp [abs, hpc, hr, Pc.inIteration, Pc.abs], rfl⟩
  | swap =>
    obtain ⟨⟨hpc, -⟩, ⟨⟩⟩ := Option.ite_none_right_eq_some.1 h
    exact .inr ⟨.swap, by simp [abs, Inbox.step, hpc, Pc.inIteration, Pc.abs], rfl⟩
  | busy =>
    obtain ⟨hpc, ⟨⟩⟩ := Option.ite_none_right_eq_some.1 h
    exact .inl ⟨by simp [abs, hpc, Pc.inIteration, Pc.abs], rfl⟩
  | run =>
    simp only [step] at h
    split at h
    · rename_i f rest hpc hb
      cases h
      exact .inr ⟨.run, by simp [abs, Inbox.step, hpc, hb, Pc.abs], rfl⟩
    · cases h
  | poll =>
    simp only [step] at h
    split at h
    · rename_i hpc hb
      cases h
      exact .inr ⟨.poll, by simp [abs, Inbox.step, hpc, hb, Pc.inIteration, Pc.abs], rfl⟩
    · cases h
  | wakeRead =>
    simp only [step] at h
    split at h
    · obtain ⟨-, ⟨⟩⟩ := Option.ite_none_right_eq_some.1 h
      exact (abs_leave_poll ‹_› _).imp (⟨·, rfl⟩) (⟨.stop, ·, rfl⟩)
    · cases h
  | wakeOther =>
    simp only [step] at h
    split at h
    · cases h
      exact (abs_leave_poll ‹_› s.pipe).imp (⟨·, rfl⟩) (⟨.stop, ·, rfl⟩)
    · cases h

/-- **A run of this model is a run of `Inbox` with the same posts.** -/
theorem abs_run : ∀ {ls : List (Act α)} {s s' : St α}, Machine.runList step s ls = some s' →
    ∃ ls', Machine.runList Inbox.step (abs s) ls' = some (abs s') ∧ Inbox.posted ls' = posted ls
  | [], _, _, h => by cases h; exact ⟨[], rfl, rfl⟩
  | a :: ls, s, s', h => by
    obtain ⟨s₁, h₁, h₂⟩ := Option.bind_eq_some.1 h
    obtain ⟨ls', h', hp⟩ := abs_run h₂
    rcases abs_step h₁ with ⟨he, ht⟩ | ⟨b, hb, ht⟩
    · refine ⟨ls', by rw [← he]; exact h', ?_⟩
      rw [posted_cons, ht, hp]; rfl
    · refine ⟨b :: ls', by show (Inbox.step (abs s) b).bind _ = _; rw [hb]; exact h', ?_⟩
      rw [Inbox.posted_cons, posted_cons, ht, hp]

/-- **The loop with its mutex and pipe refines `Inbox`, task for task.**  Every run of this
model, from any pipe, is matched by a run of `PikiwiNet.Inbox` from the empty inbox that ends in
`abs` of its last state and posts the same tasks: each `Execute` step is an `Execute` step of the
inbox, and every other step is a step of the inbox that posts nothing, or changes nothing it
sees.  So no task is lost or run twice: the tasks of the run's `Execute` calls are the tasks run,
then the rest of the batch, then `tasks_`; and once `Run` has returned, the tasks never run are
exactly those left in `tasks_`. -/
theorem wakeup_refines_inbox {p : Pipe} {ls : List (Act α)} {s : St α}
    (h : Machine.runList step (St.fresh p) ls = some s) :
    (∃ ls', Machine.runList Inbox.step Inbox.St.empty ls' = some (abs s) ∧
      Inbox.posted ls' = posted ls) ∧
    posted ls = s.executed ++ s.batch ++ s.tasks ∧
      (s.pc = .done → posted ls = s.executed ++ s.tasks) := by
  obtain ⟨ls', h', hp⟩ := abs_run h
  obtain ⟨hi, hq⟩ := Inbox.received_run (fun _ => rfl) h'
  have happ : posted ls = s.executed ++ s.batch ++ s.tasks := by
    rw [← hp]
    simpa [Inbox.St.received, abs, St.fresh] using hq.symm
  refine ⟨⟨ls', h', hp⟩, happ, fun hpc => ?_⟩
  have hb : s.batch = [] := hi (by simp [abs, hpc, Pc.abs])
  rw [happ, hb, List.append_nil]

/-- Two tasks posted, the first run by a batch, the second posted during it: both are accounted
for. -/
theorem wakeup_refines_inbox_second_batch :
    ∃ s : St Nat, Machine.runList step (St.fresh ⟨65536, 0, by decide, by decide⟩)
      [.execute 1, .notify, .unlock, .test, .swap, .execute 2, .run, .notify, .unlock] = some s ∧
      s.executed = [1] ∧ s.tasks = [2] ∧
      posted [.execute 1, .notify, .unlock, .test, .swap, .execute 2, .run, .notify, .unlock] =
        s.executed ++ s.batch ++ s.tasks := by
  obtain ⟨s, hs, he⟩ := Option.map_eq_some'.1 (show (Machine.runList step
      (St.fresh ⟨65536, 0, by decide, by decide⟩)
      [.execute 1, .notify, .unlock, .test, .swap, .execute 2, .run, .notify, .unlock]).map
      (fun s => (s.executed, s.tasks)) = some ([1], [2]) by decide)
  simp only [Prod.mk.injEq] at he
  exact ⟨s, hs, he.1, he.2, (wakeup_refines_inbox hs).2.1⟩

/-- **After a swap, a notified task never waits for the 10 ms wakeup.**  When the loop enters
`Poll` in an iteration whose `try_lock` succeeded, and no `Execute` is between its append and its
`Notify`, a task in `tasks_` has its byte in the pipe: the pipe's read event is active and `Poll`
returns at once.  After a failed `try_lock` this does not hold: the byte of a task can be read by
an earlier `Poll` while its `Execute` still holds the mutex, and the loop then sleeps in `Poll` with
the task in `tasks_`, the mutex free and the pipe empty. -/
theorem poll_after_swap_wakes :
    (∀ {α : Type} {s : St α}, (machine α).Reachable s → s.pc = .poll true →
      s.held ≠ some .appended → s.tasks ≠ [] → 0 < s.pipe.bytes) ∧
    ∃ s : St Nat, (machine Nat).Reachable s ∧ s.pc = .poll false ∧ s.held = none ∧
      s.tasks ≠ [] ∧ s.pipe.bytes = 0 := by
  refine ⟨fun {α s} hs hpc hh ht => ?_, ?_⟩
  · have hn := (inv_of_reachable hs).notified (.inr hpc)
    have hcap := s.pipe.cap_pos
    have hlen : s.tasks.length ≠ 0 := fun h => ht (List.length_eq_zero.1 h)
    simp only [St.unnotified, hh, if_false, Nat.sub_zero] at hn
    omega
  · obtain ⟨s, hs, he⟩ := Option.map_eq_some'.1 (show (Machine.runList step
        (St.fresh ⟨65536, 0, by decide, by decide⟩)
        [.execute 7, .notify, .test, .busy, .wakeRead, .test, .busy, .unlock]).map
        (fun s => (s.pc, s.held, s.tasks, s.pipe.bytes)) = some (.poll false, none, [7], 0) by decide)
    simp only [Prod.mk.injEq] at he
    exact ⟨s, Machine.Reachable.of_runList (fun _ _ _ h => h) ⟨_, rfl, rfl⟩ _ hs, he.1, he.2.1,
      by simp [he.2.2.1], he.2.2.2⟩

/-- A task posted while the loop runs its batch: when the loop polls, its byte is there. -/
theorem poll_after_swap_wakes_posted_during_batch :
    ∃ s : St Nat, (machine Nat).Reachable s ∧ s.pc = .poll true ∧ s.tasks = [2] ∧
      0 < s.pipe.bytes := by
  obtain ⟨s, hs, he⟩ := Option.map_eq_some'.1 (show (Machine.runList step
      (St.fresh ⟨65536, 0, by decide, by decide⟩)
      [.execute 1, .notify, .unlock, .test, .swap, .execute 2, .run, .notify, .unlock, .poll]).map
      (fun s => (s.pc, s.held, s.tasks)) = some (.poll true, none, [2]) by decide)
  simp only [Prod.mk.injEq] at he
  have hr : (machine Nat).Reachable s := Machine.Reachable.of_runList (fun _ _ _ h => h) ⟨_, rfl, rfl⟩ _ hs
  exact ⟨s, hr, he.1, he.2.2,
    poll_after_swap_wakes.1 hr he.1 (by simp [he.2.1]) (by simp [he.2.2])⟩

/-- **`Stop` wakes the loop.**  Once a `Stop` call has returned, `running_` stays false and, until
the loop leaves the iteration it is in, the notifier pipe is never empty: a `Poll` the loop is in
or enters has the pipe's read event active and returns without the 10 ms wakeup, and the loop
then leaves `Run` at its test. -/
theorem stop_wakes {s : St α} (hs : (machine α).Reachable s) (hst : s.stopped = true) :
    s.running = false ∧ (s.pc.inIteration = true → 0 < s.pipe.bytes) :=
  ⟨(inv_of_reachable hs).stopped hst, (inv_of_reachable hs).stopped_bytes hst⟩

/-- `Stop` between the loop's test and its `try_lock`: the loop goes on with its iteration, and the
pipe holds `Stop`'s byte. -/
theorem stop_wakes_after_test :
    ∃ s : St Nat, (machine Nat).Reachable s ∧ s.stopped = true ∧ s.pc = .tested ∧
      s.running = false ∧ 0 < s.pipe.bytes := by
  obtain ⟨s, hs, he⟩ := Option.map_eq_some'.1 (show (Machine.runList step
      (St.fresh ⟨65536, 0, by decide, by decide⟩) ([.test, .stop, .stopNotify] : List (Act Nat))).map
      (fun s => (s.stopped, s.pc)) = some (true, .tested) by decide)
  simp only [Prod.mk.injEq] at he
  have hr : (machine Nat).Reachable s := Machine.Reachable.of_runList (fun _ _ _ h => h) ⟨_, rfl, rfl⟩ _ hs
  have h := stop_wakes hr he.1
  exact ⟨s, hr, he.1, he.2, h.1, h.2 (by simp [he.2, Pc.inIteration])⟩

end Wakeup

end PikiwiNet
