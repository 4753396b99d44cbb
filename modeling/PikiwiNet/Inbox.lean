import PikiwiNet.Basic

/-!
# The task inbox of `EventLoop`

`EventLoop::Execute` called off the loop's thread appends its task to `tasks_` while it holds
`task_mutex_`.  Each iteration of `EventLoop::Run` tries the lock; when it gets it, it swaps
`tasks_` into the local batch `funcs`, releases the lock and runs the batch front to back, and in
every iteration it then polls the reactor.  `Stop` clears `running_`; the loop leaves at the next
test of `while (running_)`.

An append takes the mutex, so appends are atomic steps here, and the swap is one step too.
`Execute` called on the loop's own thread runs its task at once and never touches the inbox; it
is not a step of this machine.  A run is a list of steps; the tasks it posts are those of its
`Execute` steps (`posted`), in the order the mutex was taken.  The state carries one ghost list,
the tasks run so far.

* `Inbox.received_run` : along every run, the tasks run, then the rest of the batch, then
  `tasks_`, grow by exactly the tasks the run posts;
* `Inbox.inbox_fifo` : hence, from the empty inbox, they are the posted tasks; the tasks run form
  a prefix of the posting order, also restricted to any one submitter; no task runs more often
  than it was posted; and when `Run` has returned, the tasks never run are exactly those left in
  `tasks_`.
-/

namespace PikiwiNet

namespace Inbox

/-- Where the loop thread is in `EventLoop::Run`. -/
inductive Pc
  /-- At the test `while (running_)`, before `try_lock`. -/
  | top
  /-- Running the swapped batch `funcs`. -/
  | batch
  /-- `Run` has left its loop. -/
  | done
  deriving DecidableEq, Repr

/-- The inbox of one loop. -/
structure St (α : Type) where
  /-- `tasks_`. -/
  tasks : List α
  /-- The tasks of the swapped batch `funcs` not run yet. -/
  batch : List α
  /-- `running_`. -/
  running : Bool
  /-- The loop thread's position in `Run`. -/
  pc : Pc
  /-- Ghost: every task the loop has run, in order. -/
  executed : List α

/-- The steps of the inbox. -/
inductive Act (α : Type)
  /-- `Execute(f)` off the loop's thread: append under `task_mutex_`, then notify. -/
  | execute (f : α)
  /-- `try_lock` succeeds: `funcs.swap(tasks_)`. -/
  | swap
  /-- `try_lock` fails: the iteration only polls. -/
  | busy
  /-- Run the next task of the batch. -/
  | run
  /-- The batch is done; `reactor_->Poll()` returns and the loop goes back to its test. -/
  | poll
  /-- `Stop()`: `running_ = false`. -/
  | stop
  /-- The test `while (running_)` fails and `Run` tears the loop down. -/
  | exit

variable {α : Type}

/-- The inbox before any task has been posted. -/
def St.empty : St α := ⟨[], [], true, .top, []⟩

/-- One step; `none` when the step is not enabled. -/
def step (s : St α) : Act α → Option (St α)
  | .execute f => some { s with tasks := s.tasks ++ [f] }
  | .swap => if s.pc = .top ∧ s.running then
      some { s with tasks := [], batch := s.tasks, pc := .batch } else none
  | .busy => if s.pc = .top ∧ s.running then some s else none
  | .run => match s.pc, s.batch with
    | .batch, f :: rest => some { s with batch := rest, executed := s.executed ++ [f] }
    | _, _ => none
  | .poll => match s.pc, s.batch with
    | .batch, [] => some { s with pc := .top }
    | _, _ => none
  | .stop => some { s with running := false }
  | .exit => if s.pc = .top ∧ s.running = false then some { s with pc := .done } else none

/-- The task an action hands to the inbox: that of an `Execute` call. -/
def Act.task : Act α → Option α
  | .execute f => some f
  | _ => none

/-- The tasks the `Execute` calls of a run hand to the inbox, in the order they take
`task_mutex_`. -/
def posted (ls : List (Act α)) : List α := ls.filterMap Act.task

@[simp] theorem posted_nil : posted ([] : List (Act α)) = [] := rfl

@[simp] theorem posted_cons (a : Act α) (ls : List (Act α)) :
    posted (a :: ls) = a.task.toList ++ posted ls := by
  cases a <;> rfl

/-- The tasks the inbox has received: those run, then the rest of the batch, then `tasks_`. -/
def St.received (s : St α) : List α := s.executed ++ s.batch ++ s.tasks

/-- The invariant: a batch is pending only while the loop runs it. -/
def Inv (s : St α) : Prop := s.pc ≠ .batch → s.batch = []

/-- A step keeps `Inv` and adds to the received tasks exactly the task it posts. -/
theorem received_step {s s' : St α} {a : Act α} (hi : Inv s) (h : step s a = some s') :
    Inv s' ∧ s'.received = s.received ++ a.task.toList := by
  cases a with
  | execute f => cases h; exact ⟨hi, by simp [St.received, Act.task]⟩
  | swap =>
    obtain ⟨⟨hpc, -⟩, ⟨⟩⟩ := Option.ite_none_right_eq_some.1 h
    exact ⟨fun h => absurd rfl h, by simp [St.received, hi (by simp [hpc]), Act.task]⟩
  | busy => obtain ⟨-, ⟨⟩⟩ := Option.ite_none_right_eq_some.1 h; exact ⟨hi, by simp [Act.task]⟩
  | run =>
    simp only [step] at h
    split at h
    · rename_i f rest hpc hb
      cases h
      exact ⟨fun h => (h hpc).elim, by simp [St.received, hb, Act.task]⟩
    · cases h
  | poll =>
    simp only [step] at h
    split at h
    · rename_i hb
      cases h
      exact ⟨fun _ => hb, by simp [St.received, Act.task]⟩
    · cases h
  | stop => cases h; exact ⟨hi, by simp [St.received, Act.task]⟩
  | exit =>
    obtain ⟨⟨hpc, -⟩, ⟨⟩⟩ := Option.ite_none_right_eq_some.1 h
    exact ⟨fun _ => hi (by simp [hpc]), by simp [St.received, Act.task]⟩

theorem inv_step {s s' : St α} {a : Act α} (hi : Inv s) (h : step s a = some s') : Inv s' :=
  (received_step hi h).1

/-- A step that neither appends a task nor runs one keeps the tasks still to run: the rest of
the batch, then `tasks_`. -/
theorem pending_step {s s' : St α} {a : Act α} (hi : Inv s) (h : step s a = some s')
    (ha : a = .swap ∨ a = .busy ∨ a = .poll ∨ a = .stop ∨ a = .exit) :
    s'.batch ++ s'.tasks = s.batch ++ s.tasks := by
  rcases ha with rfl | rfl | rfl | rfl | rfl
  · obtain ⟨⟨hpc, -⟩, ⟨⟩⟩ := Option.ite_none_right_eq_some.1 h
    simp [hi (by simp [hpc])]
  · obtain ⟨-, ⟨⟩⟩ := Option.ite_none_right_eq_some.1 h; rfl
  · simp only [step] at h
    split at h
    · cases h; rfl
    · cases h
  · cases h; rfl
  · obtain ⟨-, ⟨⟩⟩ := Option.ite_none_right_eq_some.1 h; rfl

/-- **The inbox receives exactly what a run posts.**  Along every run from a state satisfying
`Inv`, the received tasks grow by the tasks of the run's `Execute` calls, in order. -/
theorem received_run : ∀ {ls : List (Act α)} {s s' : St α}, Inv s →
    Machine.runList step s ls = some s' → Inv s' ∧ s'.received = s.received ++ posted ls
  | [], _, _, hi, h => by cases h; exact ⟨hi, by simp⟩
  | a :: ls, s, s', hi, h => by
    obtain ⟨s₁, h₁, h₂⟩ := Option.bind_eq_some.1 h
    obtain ⟨hi₁, hq₁⟩ := received_step hi h₁
    obtain ⟨hi', hq'⟩ := received_run hi₁ h₂
    exact ⟨hi', by rw [hq', hq₁, posted_cons, List.append_assoc]⟩

/-- **FIFO delivery of the inbox.**  Along every run from the empty inbox, whatever the
interleaving of `Execute` calls with the loop's iterations, the tasks run, then the rest of the
batch, then `tasks_`, are exactly the tasks the run posted, in the order they took the mutex; the
tasks run are a prefix of that order, also restricted to the tasks of any one submitter (`p`); no
task runs more often than it was posted; and once `Run` has returned, the tasks never run are
exactly those still in `tasks_`. -/
theorem inbox_fifo {ls : List (Act α)} {s : St α} (h : Machine.runList step St.empty ls = some s) :
    posted ls = s.executed ++ s.batch ++ s.tasks ∧
    (∀ p : α → Bool, s.executed.filter p <+: (posted ls).filter p) ∧
    (∀ [DecidableEq α] (x : α), s.executed.count x ≤ (posted ls).count x) ∧
    (s.pc = .done → posted ls = s.executed ++ s.tasks) := by
  obtain ⟨hi, hq⟩ := received_run (fun _ => rfl) h
  have happ : posted ls = s.executed ++ s.batch ++ s.tasks := by
    simpa [St.received, St.empty] using hq.symm
  have hpre : s.executed <+: posted ls := ⟨s.batch ++ s.tasks, by simp [happ]⟩
  refine ⟨happ, fun p => hpre.filter p, fun x => hpre.sublist.count_le x, fun hpc => ?_⟩
  rw [happ, hi (by simp [hpc]), List.append_nil]

/-- Two tasks posted from off the loop, the batch swapped and its first task run: the tasks
received are those posted, and what has run is a prefix of them, also among the odd-numbered
tasks. -/
theorem inbox_fifo_after_one_run :
    ∃ s : St Nat, Machine.runList step St.empty [.execute 1, .execute 2, .swap, .run] = some s ∧
      s.executed = [1] ∧
      posted [.execute 1, .execute 2, .swap, .run] = s.executed ++ s.batch ++ s.tasks ∧
      s.executed.filter (· % 2 == 1) <+:
        (posted [.execute 1, .execute 2, .swap, .run]).filter (· % 2 == 1) := by
  have h : Machine.runList step St.empty [.execute 1, .execute 2, .swap, .run] =
      some ⟨[], [2], true, .batch, [1]⟩ := rfl
  exact ⟨_, h, rfl, (inbox_fifo h).1, (inbox_fifo h).2.1 _⟩

end Inbox

end PikiwiNet
