import PikiwiNet.Inbox
import PikiwiNet.Timers
import Mathlib.Data.List.Nodup

/-!
# The timer façade of `EventLoop`

`EventLoop::ScheduleLater` and `ScheduleRepeatedly` draw an id from the process-wide
`timerid_generator_` at once.  On the loop's thread they arm the timer in the reactor right away;
from another thread they post the arming through `Execute` and return the id before it is armed.
`EventLoop::Cancel(id)` on the loop's thread cancels in the reactor at once and returns a ready
future; from another thread it posts the cancel through `Execute`.  The reactor fires timers while
the loop polls, between batches of tasks; `Run`'s teardown destroys the reactor.

The model joins the inbox of `PikiwiNet.Inbox`, whose tasks are the closures the façade posts,
and the timer table of `PikiwiNet.Timers`.  `Cancel` is called with ids that have been drawn (no
caller guesses a future id); other loops drawing ids is the step `share`.  A `Schedule*` call on
the loop's thread after the teardown dereferences a null `reactor_`: that step is not enabled.

* `Facade.inv_of_reachable` : the invariant `Inv` holds along every run: each id is scheduled
  once, armed by at most one queued closure and never behind a cancel of it, and once armed it
  keeps its record in the table until it is cancelled or, being one-shot, has fired;
* `Facade.dead_steps` : a timer with no record, no pending event and no queued arming stays so;
* `Facade.cancel_lost` : a `Cancel` on the loop's thread while the arming posted by an off-thread
  `ScheduleRepeatedly` is still queued resolves to `false`, and the timer fires afterwards;
* `Facade.cancel_spec` : a `Cancel` posted from another thread always runs after the arming of
  its id; and whenever the loop runs a `Cancel(id)` with no arming of `id` queued, the callback
  of `id` never starts again, and the future is `false` exactly when `id` was cancelled before or
  is a one-shot timer whose callback has returned.
-/

namespace PikiwiNet

namespace Facade

open Timers

/-- The closures the façade posts through `Execute`. -/
inductive Job
  /-- `[this, id, ms, cb] { reactor_->Schedule...(id, ms, cb) }`. -/
  | arm (id ms : Int) (rep : Bool)
  /-- `[id, this] { ... reactor_->Cancel(id) ... }`. -/
  | cancel (id : Int)
  /-- Any other task. -/
  | user
  deriving DecidableEq, Repr

/-- What the façade does that its callers see. -/
inductive Obs
  /-- `ScheduleLater` (`rep = false`) or `ScheduleRepeatedly` returned `id`. -/
  | scheduled (id : Int) (rep : Bool)
  /-- The callback of `id` is invoked. -/
  | fired (id : Int)
  /-- The callback of `id` returns. -/
  | done (id : Int)
  /-- The future of a `Cancel(id)` resolves to `ok`. -/
  | resolved (id : Int) (ok : Bool)
  deriving DecidableEq, Repr

/-- One event loop, as far as its timers go. -/
structure Loop where
  /-- `tasks_` and `Run`'s batch. -/
  inbox : Inbox.St Job
  /-- `reactor_`: `none` after `Run`'s teardown. -/
  reactor : Option Reactor
  /-- `timerid_generator_`. -/
  gen : Int
  /-- What has happened, in order. -/
  log : List Obs

/-- The steps of a loop's timers. -/
inductive Act
  /-- `Execute(f)` from another thread. -/
  | execute
  /-- `ScheduleLater`/`ScheduleRepeatedly` from another thread. -/
  | scheduleOff (ms : Int) (rep : Bool)
  /-- `ScheduleLater`/`ScheduleRepeatedly` on the loop's thread. -/
  | scheduleOn (ms : Int) (rep : Bool)
  /-- `Cancel(id)` from another thread. -/
  | cancelOff (id : Int)
  /-- `Cancel(id)` on the loop's thread. -/
  | cancelOn (id : Int)
  /-- A step of `Run`'s loop over the inbox: `swap`, `busy`, `run`, `poll`, `stop` or `exit`. -/
  | loop (a : Inbox.Act Job)
  /-- The reactor fires the timer of `id`: its callback starts. -/
  | fireStart (id : Int)
  /-- The running timer callback returns. -/
  | fireEnd
  /-- Another loop draws a timer id. -/
  | share

/-- `Execute` from another thread: append the closure to `tasks_`. -/
def Loop.post (s : Loop) (j : Job) : Loop :=
  { s with inbox := { s.inbox with tasks := s.inbox.tasks ++ [j] } }

/-- `reactor_->Cancel(id)`, guarded by `if (!reactor_) return false`. -/
def cancelIn (r : Option Reactor) (id : Int) : Bool × Option Reactor :=
  match r with
  | none => (false, none)
  | some r => ((r.cancel id).1, some (r.cancel id).2)

/-- `timerid_generator_.fetch_add(1) + 1`: draw the next id, which the caller gets back. -/
def Loop.draw (s : Loop) (rep : Bool) : Loop :=
  { s with gen := s.gen + 1, log := s.log ++ [.scheduled (s.gen + 1) rep] }

/-- What `Cancel(id)` does on the loop's thread, on either path: `reactor_->Cancel(id)` unless
the reactor is gone, and the future resolves to the result. -/
def Loop.cancel (s : Loop) (id : Int) : Loop :=
  { s with
    reactor := (cancelIn s.reactor id).2
    log := s.log ++ [.resolved id (cancelIn s.reactor id).1] }

/-- Run a posted closure. -/
def runJob (s : Loop) : Job → Loop
  | .arm id ms rep => { s with reactor := s.reactor.map (·.schedule id ms rep) }
  | .cancel id => s.cancel id
  | .user => s

/-- No timer callback is running. -/
def Idle (s : Loop) : Prop := ∀ r, s.reactor = some r → r.current = none

instance (s : Loop) : Decidable (Idle s) :=
  match h : s.reactor with
  | none => isTrue fun r hr => by simp [h] at hr
  | some r => if hc : r.current = none then isTrue fun r' hr => by simp_all
    else isFalse fun hi => hc (hi r h)

/-- The loop thread is polling: between two batches. -/
def Polling (s : Loop) : Prop := s.inbox.pc = .top ∨ (s.inbox.pc = .batch ∧ s.inbox.batch = [])

instance (s : Loop) : Decidable (Polling s) := by unfold Polling; infer_instance

/-- One step; `none` when it is not enabled. -/
def step (s : Loop) : Act → Option Loop
  | .execute => some (s.post .user)
  | .scheduleOff ms rep => some ((s.draw rep).post (.arm (s.gen + 1) ms rep))
  | .scheduleOn ms rep =>
    s.reactor.map fun r => { s.draw rep with reactor := some (r.schedule (s.gen + 1) ms rep) }
  | .cancelOff id => if id ≤ s.gen then some (s.post (.cancel id)) else none
  | .cancelOn id => if id ≤ s.gen then some (s.cancel id) else none
  | .loop a => if Idle s then
      match a, s.inbox.pc, s.inbox.batch with
      | .execute _, _, _ => none
      | .run, .batch, j :: _ => (Inbox.step s.inbox .run).map fun ib => runJob { s with inbox := ib } j
      | .exit, _, _ => (Inbox.step s.inbox .exit).map fun ib => { s with inbox := ib, reactor := none }
      | a, _, _ => (Inbox.step s.inbox a).map fun ib => { s with inbox := ib }
    else none
  | .fireStart id => if Polling s then
      match s.reactor with
      | some r => (r.fireStart id).map fun r' =>
          { s with reactor := some r', log := s.log ++ [.fired id] }
      | none => none
    else none
  | .fireEnd => match s.reactor with
    | some r => (r.fireEnd).map fun (t, r') =>
        { s with reactor := some r', log := s.log ++ [.done t.id] }
    | none => none
  | .share => some { s with gen := s.gen + 1 }

/-- A loop before `Run`: empty inbox, a new reactor, the generator at `g`. -/
def Loop.fresh (g : Int) : Loop := ⟨Inbox.St.empty, some Reactor.empty, g, []⟩

/-- The timers of a loop. -/
def machine : Machine Loop Act where
  init s := ∃ g, s = Loop.fresh g
  step s a s' := step s a = some s'

/-! ### What each step does -/

/-- The closures still to run: the rest of the batch, then `tasks_`. -/
def Loop.queue (s : Loop) : List Job := s.inbox.batch ++ s.inbox.tasks

section Steps

variable {s s' : Loop} {id : Int}

@[simp] theorem post_queue (j : Job) : (s.post j).queue = s.queue ++ [j] := by
  simp [Loop.post, Loop.queue]

@[simp] theorem post_reactor (j : Job) : (s.post j).reactor = s.reactor := rfl

@[simp] theorem post_gen (j : Job) : (s.post j).gen = s.gen := rfl

@[simp] theorem post_log (j : Job) : (s.post j).log = s.log := rfl

@[simp] theorem draw_queue (b : Bool) : (s.draw b).queue = s.queue := rfl

@[simp] theorem draw_reactor (b : Bool) : (s.draw b).reactor = s.reactor := rfl

@[simp] theorem draw_gen (b : Bool) : (s.draw b).gen = s.gen + 1 := rfl

@[simp] theorem draw_log (b : Bool) : (s.draw b).log = s.log ++ [.scheduled (s.gen + 1) b] := rfl

@[simp] theorem cancel_queue : (s.cancel id).queue = s.queue := rfl

@[simp] theorem cancel_gen : (s.cancel id).gen = s.gen := rfl

theorem cancel_of_some (i : Int) {r : Reactor} (hr : s.reactor = some r) :
    (s.cancel i).reactor = some (r.cancel i).2 ∧
      (s.cancel i).log = s.log ++ [.resolved i (r.timers i).isSome] := by
  simp [Loop.cancel, cancelIn, hr]

theorem cancel_of_none (i : Int) (hr : s.reactor = none) :
    (s.cancel i).reactor = none ∧ (s.cancel i).log = s.log ++ [.resolved i false] := by
  simp [Loop.cancel, cancelIn, hr]

/-- What a step of `Run`'s loop over the inbox does: it runs only while no timer callback runs;
`run` pops the head of the batch and runs it; `exit` destroys the reactor; the others move the
inbox alone and keep the closures still to run. -/
theorem step_loop {a : Inbox.Act Job} (hin : Inbox.Inv s.inbox) (h : step s (.loop a) = some s') :
    Idle s ∧ ∃ ib, Inbox.Inv ib ∧
      ((({ s with inbox := ib } : Loop).queue = s.queue ∧ a ≠ .run ∧
          (s' = { s with inbox := ib, reactor := none } ∨ s' = { s with inbox := ib })) ∨
       (∃ j, a = .run ∧ s.inbox.batch.head? = some j ∧
          s.queue = j :: ({ s with inbox := ib } : Loop).queue ∧ s' = runJob { s with inbox := ib } j)) := by
  simp only [step] at h
  split at h
  · rename_i hI
    refine ⟨hI, ?_⟩
    cases a with
    | execute f => cases h
    | run =>
      cases hpc : s.inbox.pc <;> cases hb : s.inbox.batch <;>
        simp only [hpc, hb, Inbox.step, Option.map_none', Option.map_some', reduceCtorEq] at h
      rename_i j rest
      simp only [Option.some.injEq] at h
      have hib : Inbox.step s.inbox .run =
          some ⟨s.inbox.tasks, rest, s.inbox.running, .batch, s.inbox.executed ++ [j]⟩ := by
        simp [Inbox.step, hpc, hb]
      exact ⟨_, Inbox.inv_step hin hib, .inr ⟨j, rfl, rfl, by simp [Loop.queue, hb], h.symm⟩⟩
    | exit =>
      obtain ⟨ib, hib, rfl⟩ := Option.map_eq_some'.1 h
      exact ⟨ib, Inbox.inv_step hin hib, .inl ⟨Inbox.pending_step hin hib (by simp), by simp, .inl rfl⟩⟩
    | swap | busy | poll | stop =>
      obtain ⟨ib, hib, rfl⟩ := Option.map_eq_some'.1 h
      exact ⟨ib, Inbox.inv_step hin hib, .inl ⟨Inbox.pending_step hin hib (by simp), by simp, .inr rfl⟩⟩
  · cases h

theorem step_cancelOff (h : step s (.cancelOff id) = some s') : id ≤ s.gen ∧ s' = s.post (.cancel id) := by
  simp only [step, Option.ite_none_right_eq_some, Option.some.injEq] at h
  exact ⟨h.1, h.2.symm⟩

theorem step_cancelOn (h : step s (.cancelOn id) = some s') : id ≤ s.gen ∧ s' = s.cancel id := by
  simp only [step, Option.ite_none_right_eq_some, Option.some.injEq] at h
  exact ⟨h.1, h.2.symm⟩

theorem step_fireStart (h : step s (.fireStart id) = some s') : Polling s ∧ ∃ r r',
    s.reactor = some r ∧ r.fireStart id = some r' ∧
      s' = { s with reactor := some r', log := s.log ++ [.fired id] } := by
  simp only [step] at h
  split at h
  · rename_i hp
    split at h
    · rename_i r hr
      obtain ⟨r', hf, rfl⟩ := Option.map_eq_some'.1 h
      exact ⟨hp, r, r', hr, hf, rfl⟩
    · cases h
  · cases h

theorem step_fireEnd (h : step s .fireEnd = some s') : ∃ r t r', s.reactor = some r ∧
    r.fireEnd = some (t, r') ∧ s' = { s with reactor := some r', log := s.log ++ [.done t.id] } := by
  simp only [step] at h
  split at h
  · rename_i r hr
    obtain ⟨⟨t, r'⟩, hf, rfl⟩ := Option.map_eq_some'.1 h
    exact ⟨r, t, r', hr, hf, rfl⟩
  · cases h

end Steps

/-! ### The invariant -/

/-- The id an observation is about. -/
def Obs.id : Obs → Int
  | .scheduled id _ | .fired id | .done id | .resolved id _ => id

/-- The id an arming closure arms. -/
def Job.armId : Job → Option Int
  | .arm id _ _ => some id
  | _ => none

/-- An arming of `id` is queued. -/
def ArmQueued (s : Loop) (id : Int) : Prop := ∃ ms rep, Job.arm id ms rep ∈ s.queue

/-- `id` has gone from the table for good: it was cancelled, or it is a one-shot timer whose
callback has returned. -/
def Gone (log : List Obs) (id : Int) (rep : Bool) : Prop :=
  .resolved id true ∈ log ∨ (rep = false ∧ .done id ∈ log)

/-- The invariant of a loop's timers. -/
structure Inv (s : Loop) : Prop where
  /-- The inbox's own invariant. -/
  inbox : Inbox.Inv s.inbox
  /-- Every id observed has been drawn. -/
  obs_le : ∀ o ∈ s.log, o.id ≤ s.gen
  /-- Every id a queued closure arms has been drawn. -/
  arm_le : ∀ id ms rep, .arm id ms rep ∈ s.queue → id ≤ s.gen
  /-- Every id a queued closure cancels has been drawn. -/
  cancel_le : ∀ id, .cancel id ∈ s.queue → id ≤ s.gen
  /-- The reactor's table is well formed. -/
  good : ∀ r, s.reactor = some r → r.Good
  /-- Every record sits under its own id, and its id was scheduled with its flag. -/
  armed : ∀ r, s.reactor = some r → ∀ id t, r.timers id = some t →
    t.id = id ∧ .scheduled id t.rep ∈ s.log
  /-- The timer a running callback holds was scheduled with its flag, and is armed. -/
  holds : ∀ r t, s.reactor = some r → r.current = some t →
    .scheduled t.id t.rep ∈ s.log ∧ ¬ ArmQueued s t.id
  /-- An id is scheduled once. -/
  sched_unique : ∀ id rep rep', .scheduled id rep ∈ s.log → .scheduled id rep' ∈ s.log → rep = rep'
  /-- An id is armed by at most one queued closure. -/
  arm_nodup : (s.queue.filterMap Job.armId).Nodup
  /-- No arming of an id is queued behind a cancel of it. -/
  cancel_after_arm : ∀ q₁ q₂ id, s.queue = q₁ ++ .cancel id :: q₂ → ∀ ms rep, .arm id ms rep ∉ q₂
  /-- While its arming is queued, nothing has happened to an id. -/
  queued : ∀ id ms rep, .arm id ms rep ∈ s.queue → .scheduled id rep ∈ s.log ∧
    (∀ r, s.reactor = some r → r.timers id = none) ∧ .resolved id true ∉ s.log ∧ .done id ∉ s.log
  /-- Once armed, an id has a record until it is gone. -/
  live : ∀ id rep, .scheduled id rep ∈ s.log → ¬ ArmQueued s id → ∀ r, s.reactor = some r →
    (r.timers id = none ↔ Gone s.log id rep)

section Lemmas

variable {s s' p : Loop} {id i : Int} {rep : Bool} {log : List Obs}

theorem mem_armIds {q : List Job} : i ∈ q.filterMap Job.armId ↔ ∃ ms rep, Job.arm i ms rep ∈ q := by
  simp only [List.mem_filterMap]
  constructor
  · rintro ⟨j, hj, he⟩
    cases j with
    | arm i' ms rep => simp only [Job.armId, Option.some.injEq] at he; exact ⟨ms, rep, he ▸ hj⟩
    | cancel _ => cases he
    | user => cases he
  · rintro ⟨ms, rep, h⟩
    exact ⟨_, h, rfl⟩

theorem gone_append {o : Obs} (ho : o.id ≠ id) : Gone (log ++ [o]) id rep ↔ Gone log id rep := by
  unfold Gone
  constructor
  · rintro (h | ⟨hr, h⟩)
    · simp only [List.mem_append, List.mem_singleton] at h
      exact .inl (h.resolve_right fun e => ho (by rw [← e]; rfl))
    · simp only [List.mem_append, List.mem_singleton] at h
      exact .inr ⟨hr, h.resolve_right fun e => ho (by rw [← e]; rfl)⟩
  · rintro (h | ⟨hr, h⟩)
    · exact .inl (List.mem_append_left _ h)
    · exact .inr ⟨hr, List.mem_append_left _ h⟩

@[simp] theorem gone_append_scheduled {b : Bool} :
    Gone (log ++ [.scheduled i b]) id rep ↔ Gone log id rep := by
  simp [Gone]

@[simp] theorem gone_append_fired : Gone (log ++ [.fired i]) id rep ↔ Gone log id rep := by
  simp [Gone]

theorem gone_mono {o : Obs} (h : Gone log id rep) : Gone (log ++ [o]) id rep := by
  rcases h with h | ⟨hr, h⟩
  · exact .inl (List.mem_append_left _ h)
  · exact .inr ⟨hr, List.mem_append_left _ h⟩

theorem armQueued_of_queue (h : s'.queue = s.queue) : ArmQueued s' id ↔ ArmQueued s id := by
  simp only [ArmQueued, h]

theorem armQueued_post {j : Job} :
    ArmQueued (s.post j) id ↔ ArmQueued s id ∨ ∃ ms rep, j = .arm id ms rep := by
  simp only [ArmQueued, post_queue, List.mem_append, List.mem_singleton]
  constructor
  · rintro ⟨ms, rep, h | h⟩
    · exact .inl ⟨ms, rep, h⟩
    · exact .inr ⟨ms, rep, h.symm⟩
  · rintro (⟨ms, rep, h⟩ | ⟨ms, rep, rfl⟩)
    · exact ⟨ms, rep, .inl h⟩
    · exact ⟨ms, rep, .inr rfl⟩

namespace Inv

variable (hi : Inv s)
include hi

/-- Nothing observed so far is about the next id the generator gives. -/
theorem not_mem_fresh {o : Obs} (ho : o.id = s.gen + 1) : o ∉ s.log := fun h => by
  have := hi.obs_le o h; omega

theorem timers_fresh {r : Reactor} (hr : s.reactor = some r) : r.timers (s.gen + 1) = none := by
  cases ht : r.timers (s.gen + 1) with
  | none => rfl
  | some t => exact absurd (hi.armed r hr _ t ht).2 (hi.not_mem_fresh rfl)

theorem not_armQueued_fresh : ¬ ArmQueued s (s.gen + 1) := fun ⟨ms, rep, h⟩ => by
  have := hi.arm_le _ ms rep h; omega

theorem not_armQueued_of_timers {r : Reactor} {t : Timer} (hr : s.reactor = some r)
    (ht : r.timers id = some t) : ¬ ArmQueued s id := fun ⟨ms, rep, h⟩ => by
  simp [(hi.queued id ms rep h).2.1 r hr] at ht

/-- A record's facts survive any growth of the log. -/
theorem armed_append {r : Reactor} {t : Timer} (hr : s.reactor = some r) (ht : r.timers i = some t)
    (l : List Obs) : t.id = i ∧ .scheduled i t.rep ∈ s.log ++ l :=
  (hi.armed r hr i t ht).imp_right (List.mem_append_left l)

/-- Drawing the next id and logging that it was scheduled keeps the facts about the log. -/
theorem obs_le_draw : ∀ o ∈ s.log ++ [.scheduled (s.gen + 1) rep], o.id ≤ s.gen + 1 := by
  intro o ho
  simp only [List.mem_append, List.mem_singleton] at ho
  rcases ho with ho | rfl
  · have := hi.obs_le o ho; omega
  · exact Int.le_refl _

theorem sched_unique_draw : ∀ id b b', .scheduled id b ∈ s.log ++ [.scheduled (s.gen + 1) rep] →
    .scheduled id b' ∈ s.log ++ [.scheduled (s.gen + 1) rep] → b = b' := by
  intro id b b' h h'
  simp only [List.mem_append, List.mem_singleton, Obs.scheduled.injEq] at h h'
  rcases h with h | ⟨rfl, rfl⟩ <;> rcases h' with h' | ⟨e, rfl⟩
  · exact hi.sched_unique id b b' h h'
  · exact absurd h (hi.not_mem_fresh (o := .scheduled id b) e)
  · exact absurd h' (hi.not_mem_fresh (o := .scheduled _ b') rfl)
  · rfl

theorem obs_le_append {o : Obs} (ho : o.id ≤ s.gen) : ∀ o' ∈ s.log ++ [o], o'.id ≤ s.gen := by
  intro o' h
  simp only [List.mem_append, List.mem_singleton] at h
  rcases h with h | rfl
  exacts [hi.obs_le o' h, ho]

theorem sched_unique_append {o : Obs} (ho : ∀ i b, o ≠ .scheduled i b) :
    ∀ id b b', .scheduled id b ∈ s.log ++ [o] → .scheduled id b' ∈ s.log ++ [o] → b = b' := by
  intro id b b' h h'
  simp only [List.mem_append, List.mem_singleton] at h h'
  rcases h with h | h
  · rcases h' with h' | h'
    · exact hi.sched_unique id b b' h h'
    · exact absurd h'.symm (ho _ _)
  · exact absurd h.symm (ho _ _)

end Inv

/-- A step that leaves the queue, the reactor, the generator and the log alone keeps `Inv`. -/
theorem inv_frame (hi : Inv s) (hin : Inbox.Inv s'.inbox) (hq : s'.queue = s.queue)
    (hr : s'.reactor = s.reactor) (hg : s'.gen = s.gen) (hl : s'.log = s.log) : Inv s' := by
  have ha : ∀ id, ArmQueued s' id ↔ ArmQueued s id := fun id => by simp only [ArmQueued, hq]
  refine ⟨hin, ?_, ?_, ?_, ?_, ?_, ?_, ?_, ?_, ?_, ?_, ?_⟩ <;> simp only [hq, hr, hg, hl, ha]
  exacts [hi.obs_le, hi.arm_le, hi.cancel_le, hi.good, hi.armed, hi.holds, hi.sched_unique,
    hi.arm_nodup, hi.cancel_after_arm, hi.queued, hi.live]

/-- Posting a closure that arms nothing, and cancels only a drawn id, keeps `Inv`. -/
theorem inv_post {j : Job} (hi : Inv s) (hj : j.armId = none)
    (hc : ∀ id, j = .cancel id → id ≤ s.gen) : Inv (s.post j) := by
  have hna : ∀ id ms rep, j ≠ .arm id ms rep := by rintro id ms rep rfl; simp [Job.armId] at hj
  have ha : ∀ id, ArmQueued (s.post j) id ↔ ArmQueued s id := fun id => by
    rw [armQueued_post]; simp [hna]
  have hm : ∀ id ms rep, Job.arm id ms rep ∈ (s.post j).queue ↔ Job.arm id ms rep ∈ s.queue :=
    fun id ms rep => by simp [hna id ms rep |>.symm]
  refine ⟨Inbox.inv_step (a := .execute j) hi.inbox rfl, hi.obs_le,
    fun id ms rep h => hi.arm_le id ms rep ((hm _ _ _).1 h), fun id h => ?_, hi.good, hi.armed,
    fun r t hr hc => ?_, hi.sched_unique, ?_, ?_, fun id ms rep h => hi.queued id ms rep ((hm _ _ _).1 h),
    fun id rep h hq => ?_⟩
  · simp only [post_queue, List.mem_append, List.mem_singleton] at h
    rcases h with h | h
    · exact hi.cancel_le id h
    · exact hc id h.symm
  · rw [ha]; exact hi.holds r t hr hc
  · simp [List.filterMap_append, hj, hi.arm_nodup]
  · intro q₁ q₂ id hq ms rep hm'
    rw [post_queue] at hq
    rcases append_singleton_eq_append_cons hq with ⟨rfl, -, -⟩ | ⟨q₂', rfl, hq'⟩
    · simp at hm'
    · simp only [List.mem_append, List.mem_singleton] at hm'
      rcases hm' with hm' | rfl
      · exact hi.cancel_after_arm q₁ q₂' id hq' ms rep hm'
      · exact hna _ _ _ rfl
  · rw [ha] at hq; exact hi.live id rep h hq

/-- `ScheduleLater`/`ScheduleRepeatedly` off the loop's thread keeps `Inv`. -/
theorem inv_scheduleOff (hi : Inv s) (ms : Int) (b : Bool) :
    Inv ((s.draw b).post (.arm (s.gen + 1) ms b)) := by
  have hfresh := hi.not_armQueued_fresh
  have ha : ∀ id, ArmQueued ((s.draw b).post (.arm (s.gen + 1) ms b)) id ↔
      ArmQueued s id ∨ id = s.gen + 1 := fun id => by
    rw [armQueued_post, armQueued_of_queue (draw_queue b)]
    simp [eq_comm]
  refine ⟨Inbox.inv_step (a := .execute _) hi.inbox rfl, hi.obs_le_draw, fun id ms' b' h => ?_,
    fun id h => ?_, hi.good, fun r hr id t ht => ?_, fun r t hr hc => ?_, hi.sched_unique_draw, ?_,
    ?_, fun id ms' b' h => ?_, fun id b' h hq r hr => ?_⟩
  · simp only [post_queue, draw_queue, List.mem_append, List.mem_singleton, Job.arm.injEq] at h
    rcases h with h | ⟨rfl, -, -⟩
    · have := hi.arm_le id ms' b' h; simp only [post_gen, draw_gen]; omega
    · exact Int.le_refl _
  · simp only [post_queue, draw_queue, List.mem_append, List.mem_singleton, reduceCtorEq,
      or_false] at h
    have := hi.cancel_le id h; simp only [post_gen, draw_gen]; omega
  · exact hi.armed_append hr ht _
  · obtain ⟨hs, hn⟩ := hi.holds r t hr hc
    refine ⟨List.mem_append_left _ hs, fun hq => ?_⟩
    rcases (ha _).1 hq with hq | hq
    · exact hn hq
    · exact hi.not_mem_fresh (o := .scheduled _ t.rep) hq hs
  · simp only [post_queue, draw_queue, List.filterMap_append, List.filterMap_cons,
      List.filterMap_nil, Job.armId]
    exact hi.arm_nodup.append (List.nodup_singleton _) fun x hx hx' => by
      rw [List.mem_singleton] at hx'; subst hx'; exact hfresh (mem_armIds.1 hx)
  · intro q₁ q₂ id hq ms' b' hm
    rw [post_queue, draw_queue] at hq
    rcases append_singleton_eq_append_cons hq with ⟨-, -, h⟩ | ⟨q₂', rfl, hq'⟩
    · cases h
    · simp only [List.mem_append, List.mem_singleton, Job.arm.injEq] at hm
      rcases hm with hm | ⟨rfl, -, -⟩
      · exact hi.cancel_after_arm q₁ q₂' id hq' ms' b' hm
      · have := hi.cancel_le _ (hq' ▸ List.mem_append_right _ (List.mem_cons_self _ _)); omega
  · simp only [post_queue, draw_queue, List.mem_append, List.mem_singleton, Job.arm.injEq] at h
    simp only [post_log, draw_log, post_reactor, draw_reactor, List.mem_append,
      List.mem_singleton, reduceCtorEq, or_false]
    rcases h with h | ⟨rfl, -, rfl⟩
    · obtain ⟨h₁, h₂, h₃, h₄⟩ := hi.queued id ms' b' h
      exact ⟨.inl h₁, h₂, h₃, h₄⟩
    · exact ⟨.inr rfl, fun r hr => hi.timers_fresh hr, hi.not_mem_fresh rfl, hi.not_mem_fresh rfl⟩
  · simp only [post_log, draw_log, List.mem_append, List.mem_singleton, Obs.scheduled.injEq] at h
    rcases h with h | ⟨rfl, -⟩
    · rw [ha, not_or] at hq
      simpa using hi.live id b' h hq.1 r hr
    · exact absurd ((ha _).2 (.inr rfl)) hq

/-- `ScheduleLater`/`ScheduleRepeatedly` on the loop's thread keeps `Inv`. -/
theorem inv_scheduleOn (hi : Inv s) {r : Reactor} (hr : s.reactor = some r) (ms : Int) (b : Bool) :
    Inv { s.draw b with reactor := some (r.schedule (s.gen + 1) ms b) } := by
  refine ⟨hi.inbox, hi.obs_le_draw, fun id ms' b' h => ?_, fun id h => ?_, ?_, ?_, ?_,
    hi.sched_unique_draw, hi.arm_nodup, hi.cancel_after_arm, fun id ms' b' h => ?_,
    fun id b' h hq r' hr' => ?_⟩
  · have := hi.arm_le id ms' b' h; show id ≤ s.gen + 1; omega
  · have := hi.cancel_le id h; show id ≤ s.gen + 1; omega
  · rintro r' ⟨⟩; exact Reactor.schedule_good (hi.good r hr) ms b
  · rintro r' ⟨⟩ id t ht
    simp only [Reactor.schedule_timers] at ht
    split at ht
    · rename_i e; subst e; cases ht; exact ⟨rfl, List.mem_append_right _ (List.mem_singleton_self _)⟩
    · exact hi.armed_append hr ht _
  · rintro r' t ⟨⟩ hc
    obtain ⟨hs, hn⟩ := hi.holds r t hr hc
    exact ⟨List.mem_append_left _ hs, hn⟩
  · obtain ⟨h₁, h₂, h₃, h₄⟩ := hi.queued id ms' b' h
    have hne : id ≠ s.gen + 1 := by have := hi.arm_le id ms' b' h; omega
    refine ⟨List.mem_append_left _ h₁, ?_, by simpa using h₃, by simpa using h₄⟩
    rintro r' ⟨⟩; simp [hne, h₂ r hr]
  · cases hr'
    rw [draw_log, gone_append_scheduled]
    simp only [draw_log, List.mem_append, List.mem_singleton, Obs.scheduled.injEq] at h
    rcases h with h | ⟨rfl, -⟩
    · have hne : id ≠ s.gen + 1 := by have := hi.obs_le _ h; simp only [Obs.id] at this; omega
      simp only [Reactor.schedule_timers, hne, if_false]
      exact hi.live id b' h hq r hr
    · simp only [Reactor.schedule_timers, if_pos, reduceCtorEq, false_iff]
      rintro (h | ⟨-, h⟩)
      exacts [hi.not_mem_fresh (o := .resolved _ true) rfl h, hi.not_mem_fresh (o := .done _) rfl h]

/-- `reactor_->Cancel(id)` for a drawn id keeps `Inv`. -/
theorem inv_cancel (hi : Inv s) (hid : id ≤ s.gen) : Inv (s.cancel id) := by
  cases hr : s.reactor with
  | none =>
    obtain ⟨hr', hl⟩ := cancel_of_none id hr
    refine ⟨hi.inbox, by rw [hl]; exact hi.obs_le_append hid, hi.arm_le, hi.cancel_le,
      fun r h => by simp [hr'] at h, fun r h => by simp [hr'] at h, fun r t h => by simp [hr'] at h,
      by rw [hl]; exact hi.sched_unique_append (by simp), hi.arm_nodup, hi.cancel_after_arm,
      fun i ms b h => ?_, fun i b _ _ r h => by simp [hr'] at h⟩
    obtain ⟨h₁, -, h₃, h₄⟩ := hi.queued i ms b h
    rw [hl]
    exact ⟨List.mem_append_left _ h₁, fun r h => by simp [hr'] at h, by simpa using h₃,
      by simpa using h₄⟩
  | some r =>
    obtain ⟨hr', hl⟩ := cancel_of_some id hr
    refine ⟨hi.inbox, by rw [hl]; exact hi.obs_le_append hid, hi.arm_le, hi.cancel_le, ?_, ?_, ?_,
      by rw [hl]; exact hi.sched_unique_append (by simp), hi.arm_nodup, hi.cancel_after_arm,
      fun i ms b h => ?_, fun i b h hq r' h' => ?_⟩
    · rw [hr']; rintro r' ⟨⟩; exact Reactor.cancel_good (hi.good r hr)
    · rw [hr', hl]; rintro r' ⟨⟩ i t ht
      simp only [Reactor.cancel_timers] at ht
      split at ht
      · cases ht
      · exact hi.armed_append hr ht _
    · rw [hr', hl]; rintro r' t ⟨⟩ hc
      rw [Reactor.cancel_current] at hc
      obtain ⟨hs, hn⟩ := hi.holds r t hr hc
      exact ⟨List.mem_append_left _ hs, hn⟩
    · obtain ⟨h₁, h₂, h₃, h₄⟩ := hi.queued i ms b h
      rw [hr', hl]
      refine ⟨List.mem_append_left _ h₁, ?_, ?_, by simpa using h₄⟩
      · rintro r' ⟨⟩; simp [h₂ r hr]
      · simp only [List.mem_append, List.mem_singleton, Obs.resolved.injEq, not_or]
        refine ⟨h₃, ?_⟩
        rintro ⟨rfl, e⟩; simp [h₂ r hr] at e
    · rw [hr'] at h'; cases h'
      rw [hl] at h ⊢
      have h₀ : .scheduled i b ∈ s.log := by simpa using h
      by_cases e : i = id
      · subst e
        simp only [Reactor.cancel_timers, if_pos, true_iff]
        cases ht : r.timers i with
        | none => exact gone_mono ((hi.live i b h₀ hq r hr).1 ht)
        | some t => exact .inl (by simp [ht])
      · rw [gone_append (o := .resolved id _) fun h => e h.symm]
        simp only [Reactor.cancel_timers, e, if_false]
        exact hi.live i b h₀ hq r hr

/-- Popping a closure that arms nothing off the head of the queue keeps `Inv`. -/
theorem inv_pop {j : Job} (hi : Inv s) (hin : Inbox.Inv p.inbox) (hq : s.queue = j :: p.queue)
    (hj : j.armId = none) (hr : p.reactor = s.reactor) (hg : p.gen = s.gen) (hl : p.log = s.log) :
    Inv p := by
  have hna : ∀ id ms rep, j ≠ .arm id ms rep := by rintro id ms rep rfl; simp [Job.armId] at hj
  have hm : ∀ {id ms rep}, Job.arm id ms rep ∈ p.queue → Job.arm id ms rep ∈ s.queue :=
    fun h => hq ▸ List.mem_cons_of_mem _ h
  have ha : ∀ id, ArmQueued p id ↔ ArmQueued s id := fun id => by
    refine ⟨fun ⟨ms, rep, h⟩ => ⟨ms, rep, hm h⟩, fun ⟨ms, rep, h⟩ => ⟨ms, rep, ?_⟩⟩
    rw [hq, List.mem_cons] at h
    exact h.resolve_left fun e => hna _ _ _ e.symm
  have hnd := hi.arm_nodup
  rw [hq, List.filterMap_cons_none hj] at hnd
  refine ⟨hin, ?_, fun id ms rep h => hg ▸ hi.arm_le id ms rep (hm h),
    fun id h => hg ▸ hi.cancel_le id (hq ▸ List.mem_cons_of_mem _ h), ?_, ?_, ?_, ?_, hnd,
    fun q₁ q₂ id h => hi.cancel_after_arm (j :: q₁) q₂ id (by rw [hq, h]; rfl), ?_, ?_⟩ <;>
    simp only [hr, hg, hl, ha]
  exacts [hi.obs_le, hi.good, hi.armed, hi.holds, hi.sched_unique,
    fun id ms rep h => hi.queued id ms rep (hm h), hi.live]

/-- Running the arming closure at the head of the queue keeps `Inv`. -/
theorem inv_run_arm {ms : Int} {b : Bool} (hi : Inv s) (hin : Inbox.Inv p.inbox)
    (hq : s.queue = .arm id ms b :: p.queue) (hr : p.reactor = s.reactor) (hg : p.gen = s.gen)
    (hl : p.log = s.log) : Inv (runJob p (.arm id ms b)) := by
  have hnd := hi.arm_nodup
  rw [hq, List.filterMap_cons_some (f := Job.armId) (a := .arm id ms b) rfl, List.nodup_cons] at hnd
  have hnq : ¬ ArmQueued p id := fun ⟨ms', b', h⟩ => hnd.1 (mem_armIds.2 ⟨ms', b', h⟩)
  have hm : ∀ {i ms rep}, Job.arm i ms rep ∈ p.queue → Job.arm i ms rep ∈ s.queue :=
    fun h => hq ▸ List.mem_cons_of_mem _ h
  have hrun : ∀ r', (runJob p (.arm id ms b)).reactor = some r' →
      ∃ r, s.reactor = some r ∧ r' = r.schedule id ms b := fun r' h => by
    simp only [runJob, hr, Option.map_eq_some'] at h
    obtain ⟨r, h, rfl⟩ := h
    exact ⟨r, h, rfl⟩
  obtain ⟨hsch, -, hres, hdone⟩ := hi.queued id ms b (hq ▸ List.mem_cons_self _ _)
  refine ⟨hin, fun o h => hg ▸ hi.obs_le o (hl ▸ h), fun i ms' b' h => hg ▸ hi.arm_le i ms' b' (hm h),
    fun i h => hg ▸ hi.cancel_le i (hq ▸ List.mem_cons_of_mem _ h), fun r' h => ?_,
    fun r' h i t ht => ?_, fun r' t h hc => ?_, fun i b b' h h' => hi.sched_unique i b b' (hl ▸ h) (hl ▸ h'),
    hnd.2, fun q₁ q₂ i h => hi.cancel_after_arm (.arm id ms b :: q₁) q₂ i
      (by rw [hq, show p.queue = _ from h]; rfl),
    fun i ms' b' h => ?_, fun i b' h hq' r' h' => ?_⟩
  · obtain ⟨r, hr₀, rfl⟩ := hrun r' h
    exact Reactor.schedule_good (hi.good r hr₀) ms b
  · obtain ⟨r, hr₀, rfl⟩ := hrun r' h
    show t.id = i ∧ .scheduled i t.rep ∈ p.log
    rw [hl]
    simp only [Reactor.schedule_timers] at ht
    split at ht
    · rename_i e; subst e; cases ht; exact ⟨rfl, hsch⟩
    · exact hi.armed r hr₀ i t ht
  · obtain ⟨r, hr₀, rfl⟩ := hrun r' h
    obtain ⟨hs, hn⟩ := hi.holds r t hr₀ hc
    exact ⟨hl ▸ hs, fun ⟨ms', b', h⟩ => hn ⟨ms', b', hm h⟩⟩
  · obtain ⟨h₁, h₂, h₃, h₄⟩ := hi.queued i ms' b' (hm h)
    have hne : i ≠ id := fun e => hnq ⟨ms', b', e ▸ h⟩
    refine ⟨hl ▸ h₁, fun r' h' => ?_, hl ▸ h₃, hl ▸ h₄⟩
    obtain ⟨r, hr₀, rfl⟩ := hrun r' h'
    simp [hne, h₂ r hr₀]
  · obtain ⟨r, hr₀, rfl⟩ := hrun r' h'
    have h : .scheduled i b' ∈ s.log := by rw [← hl]; exact h
    show _ ↔ Gone p.log i b'
    rw [hl]
    by_cases e : i = id
    · subst e
      simp only [Reactor.schedule_timers, if_pos, reduceCtorEq, false_iff]
      rintro (h | ⟨-, h⟩)
      exacts [hres h, hdone h]
    · simp only [Reactor.schedule_timers, e, if_false]
      refine hi.live i b' h (fun ⟨ms', b'', h⟩ => hq' ⟨ms', b'', ?_⟩) r hr₀
      rw [hq, List.mem_cons] at h
      exact h.resolve_left fun h => e (Job.arm.inj h).1

/-- `Run`'s teardown, which destroys the reactor, keeps `Inv`. -/
theorem inv_teardown (hi : Inv s) (hin : Inbox.Inv s'.inbox) (hq : s'.queue = s.queue)
    (hr : s'.reactor = none) (hg : s'.gen = s.gen) (hl : s'.log = s.log) : Inv s' := by
  refine ⟨hin, ?_, ?_, ?_, fun r h => by simp [hr] at h, fun r h => by simp [hr] at h,
    fun r t h => by simp [hr] at h, ?_, ?_, ?_, fun id ms rep h => ?_, fun id rep _ _ r h => by
      simp [hr] at h⟩ <;> simp only [hq, hg, hl]
  exacts [hi.obs_le, hi.arm_le, hi.cancel_le, hi.sched_unique, hi.arm_nodup, hi.cancel_after_arm,
    let ⟨h₁, _, h₃, h₄⟩ := hi.queued id ms rep (hq ▸ h); ⟨h₁, fun r h => by simp [hr] at h, h₃, h₄⟩]

/-- The reactor firing a timer keeps `Inv`. -/
theorem inv_fireStart {r r' : Reactor} (hi : Inv s) (hr : s.reactor = some r)
    (hf : r.fireStart id = some r') : Inv { s with reactor := some r', log := s.log ++ [.fired id] } := by
  obtain ⟨-, -, t, ht, rfl⟩ := Reactor.fireStart_eq_some.1 hf
  obtain ⟨htid, hs⟩ := hi.armed r hr id t ht
  refine ⟨hi.inbox, hi.obs_le_append (o := .fired id) (hi.obs_le (.scheduled id t.rep) hs), hi.arm_le, hi.cancel_le, ?_,
    fun r'' h i t' ht' => ?_, fun r'' t' h hc => ?_, hi.sched_unique_append (by simp),
    hi.arm_nodup, hi.cancel_after_arm, fun i ms b h => ?_, fun i b h hq r'' h' => ?_⟩
  · rintro r'' ⟨⟩; exact Reactor.fireStart_good (hi.good r hr) hf
  · cases h
    exact hi.armed_append hr ht' _
  · cases h; cases hc
    rw [htid]
    exact ⟨List.mem_append_left _ hs, hi.not_armQueued_of_timers hr ht⟩
  · obtain ⟨h₁, h₂, h₃, h₄⟩ := hi.queued i ms b h
    exact ⟨List.mem_append_left _ h₁, fun r'' h => by cases h; exact h₂ r hr, by simpa using h₃,
      by simpa using h₄⟩
  · cases h'
    rw [gone_append_fired]
    exact hi.live i b (by simpa using h) hq r hr

/-- A timer callback returning keeps `Inv`. -/
theorem inv_fireEnd {r r' : Reactor} {t : Timer} (hi : Inv s) (hr : s.reactor = some r)
    (hf : r.fireEnd = some (t, r')) :
    Inv { s with reactor := some r', log := s.log ++ [.done t.id] } := by
  obtain ⟨hc, hr'⟩ := Reactor.fireEnd_eq_some.1 hf
  obtain ⟨hs, hn⟩ := hi.holds r t hr hc
  have ht := fun k => Reactor.fireEnd_timers (k := k) hf
  refine ⟨hi.inbox, hi.obs_le_append (o := .done t.id) (hi.obs_le (.scheduled t.id t.rep) hs), hi.arm_le, hi.cancel_le, ?_,
    fun r'' h i t' ht' => ?_, fun r'' t' h hc' => ?_, hi.sched_unique_append (by simp),
    hi.arm_nodup, hi.cancel_after_arm, fun i ms b h => ?_, fun i b h hq r'' h' => ?_⟩
  · rintro r'' ⟨⟩; exact Reactor.fireEnd_good (hi.good r hr) hf
  · cases h
    rw [ht] at ht'
    split at ht'
    · cases ht'
    · exact hi.armed_append hr ht' _
  · cases h; simp [hr'] at hc'
  · obtain ⟨h₁, h₂, h₃, h₄⟩ := hi.queued i ms b h
    have hne : i ≠ t.id := fun e => hn ⟨ms, b, e ▸ h⟩
    refine ⟨List.mem_append_left _ h₁, fun r'' h => ?_, by simpa using h₃, by simpa [hne] using h₄⟩
    cases h; rw [ht]; simp [hne, h₂ r hr]
  · cases h'
    have h₀ : .scheduled i b ∈ s.log := by simpa using h
    rw [ht]
    by_cases e : i = t.id
    · subst e
      have hb := hi.sched_unique _ _ _ h₀ hs
      subst hb
      cases hrep : t.rep
      · simp [Gone, hrep]
      · simpa [Gone, hrep] using hi.live _ _ h₀ hq r hr
    · simp only [e, and_false, if_false]
      rw [gone_append (o := .done t.id) fun h => e h.symm]
      exact hi.live i b h₀ hq r hr

/-- Another loop drawing an id keeps `Inv`. -/
theorem inv_share (hi : Inv s) : Inv { s with gen := s.gen + 1 } :=
  ⟨hi.inbox, fun o h => by have := hi.obs_le o h; show _ ≤ s.gen + 1; omega,
    fun id ms rep h => by have := hi.arm_le id ms rep h; show _ ≤ s.gen + 1; omega,
    fun id h => by have := hi.cancel_le id h; show _ ≤ s.gen + 1; omega, hi.good, hi.armed,
    hi.holds, hi.sched_unique, hi.arm_nodup, hi.cancel_after_arm, hi.queued, hi.live⟩

end Lemmas

/-! ### Every run keeps the invariant -/

section Runs

variable {s s' : Loop} {a : Act}

theorem inv_step (hi : Inv s) (h : step s a = some s') : Inv s' := by
  cases a with
  | execute => cases h; exact inv_post hi rfl fun _ e => by cases e
  | scheduleOff ms b => cases h; exact inv_scheduleOff hi ms b
  | scheduleOn ms b =>
    obtain ⟨r, hr, rfl⟩ := Option.map_eq_some'.1 h
    exact inv_scheduleOn hi hr ms b
  | cancelOff id =>
    obtain ⟨hid, rfl⟩ := step_cancelOff h
    exact inv_post hi rfl fun _ e => by cases e; exact hid
  | cancelOn id =>
    obtain ⟨hid, rfl⟩ := step_cancelOn h
    exact inv_cancel hi hid
  | loop a =>
    obtain ⟨-, ib, hin, ⟨hq, -, rfl | rfl⟩ | ⟨j, -, -, hq, rfl⟩⟩ := step_loop hi.inbox h
    · exact inv_teardown hi hin hq rfl rfl rfl
    · exact inv_frame hi hin hq rfl rfl rfl
    · cases j with
      | arm i ms b => exact inv_run_arm hi hin hq rfl rfl rfl
      | cancel i =>
        exact inv_cancel (inv_pop hi hin hq rfl rfl rfl rfl)
          (hi.cancel_le i (hq ▸ List.mem_cons_self _ _))
      | user => exact inv_pop hi hin hq rfl rfl rfl rfl
  | fireStart id =>
    obtain ⟨-, r, r', hr, hf, rfl⟩ := step_fireStart h
    exact inv_fireStart hi hr hf
  | fireEnd =>
    obtain ⟨r, t, r', hr, hf, rfl⟩ := step_fireEnd h
    exact inv_fireEnd hi hr hf
  | share => cases h; exact inv_share hi

theorem inv_fresh (g : Int) : Inv (Loop.fresh g) := by
  refine ⟨fun _ => rfl, ?_, ?_, ?_, ?_, ?_, fun r t h => ?_, ?_, ?_, ?_, ?_, ?_⟩ <;>
    simp [Loop.fresh, Loop.queue, Inbox.St.empty, Reactor.empty_good, ArmQueued]
  cases h; simp

theorem inv_of_reachable (hs : machine.Reachable s) : Inv s :=
  hs.rec_inv (fun _ ⟨g, h⟩ => h ▸ inv_fresh g) fun _ _ _ hi h => inv_step hi h

end Runs

/-! ### A cancelled timer never fires again -/

/-- `id` can never fire again on this loop: it has been drawn, no arming of it is queued, and the
reactor, while there is one, has it dead. -/
def Dead (s : Loop) (id : Int) : Prop :=
  id ≤ s.gen ∧ ¬ ArmQueued s id ∧ ∀ r, s.reactor = some r → r.Dead id

/-- The loop runs `reactor_->Cancel(id)` for a `Cancel(id)` call: on its own thread, or as the
closure an off-thread `Cancel` posted, now at the head of the batch. -/
def RunsCancel (s : Loop) (id : Int) : Act → Prop
  | .cancelOn i => i = id
  | .loop .run => s.inbox.batch.head? = some (.cancel id)
  | _ => False

section Cancel

variable {s s' : Loop} {a : Act} {id : Int}

theorem reactor_cancel_dead {i : Int} (hr : ∀ r, s.reactor = some r → r.Dead id) :
    ∀ r, (s.cancel i).reactor = some r → r.Dead id := by
  cases h : s.reactor with
  | none => simp [(cancel_of_none i h).1]
  | some r => rw [(cancel_of_some i h).1]; rintro r' ⟨⟩; exact Reactor.cancel_dead_of_dead (hr r h)

/-- Every step keeps a dead timer dead. -/
theorem dead_step (hi : Inv s) (hd : Dead s id) (h : step s a = some s') : Dead s' id := by
  obtain ⟨hle, hnq, hr⟩ := hd
  cases a with
  | execute => cases h; exact ⟨hle, by rw [armQueued_post]; simp [hnq], hr⟩
  | scheduleOff ms b =>
    cases h
    refine ⟨by simp only [post_gen, draw_gen]; omega, ?_, hr⟩
    rw [armQueued_post, armQueued_of_queue (draw_queue b)]
    simp only [hnq, Job.arm.injEq, false_or, not_exists, not_and]
    intro _ _ e; omega
  | scheduleOn ms b =>
    obtain ⟨r, hr₀, rfl⟩ := Option.map_eq_some'.1 h
    refine ⟨by show id ≤ s.gen + 1; omega, hnq, ?_⟩
    rintro r' ⟨⟩
    exact Reactor.schedule_dead (hr r hr₀) (by omega) ms b
  | cancelOff i =>
    obtain ⟨-, rfl⟩ := step_cancelOff h
    exact ⟨hle, by rw [armQueued_post]; simp [hnq], hr⟩
  | cancelOn i =>
    obtain ⟨-, rfl⟩ := step_cancelOn h
    exact ⟨hle, hnq, reactor_cancel_dead hr⟩
  | loop a =>
    obtain ⟨-, ib, -, ⟨hq, -, rfl | rfl⟩ | ⟨j, -, -, hq, rfl⟩⟩ := step_loop hi.inbox h
    · exact ⟨hle, fun h => hnq ((armQueued_of_queue hq).1 h), fun _ h => by cases h⟩
    · exact ⟨hle, fun h => hnq ((armQueued_of_queue hq).1 h), hr⟩
    · have hnq' : ¬ ArmQueued ({ s with inbox := ib } : Loop) id :=
        fun ⟨ms, b, h⟩ => hnq ⟨ms, b, hq ▸ List.mem_cons_of_mem _ h⟩
      cases j with
      | arm i ms b =>
        have hne : i ≠ id := by rintro rfl; exact hnq ⟨ms, b, hq ▸ List.mem_cons_self _ _⟩
        refine ⟨hle, hnq', fun r' h' => ?_⟩
        obtain ⟨r, hr₀, rfl⟩ := Option.map_eq_some'.1 h'
        exact Reactor.schedule_dead (hr r hr₀) hne ms b
      | cancel i => exact ⟨hle, hnq', reactor_cancel_dead (s := { s with inbox := ib }) hr⟩
      | user => exact ⟨hle, hnq', hr⟩
  | fireStart i =>
    obtain ⟨-, r, r', hr₀, hf, rfl⟩ := step_fireStart h
    exact ⟨hle, hnq, fun _ e => by cases e; exact (Reactor.fireStart_dead (hr r hr₀) hf).2⟩
  | fireEnd =>
    obtain ⟨r, t, r', hr₀, hf, rfl⟩ := step_fireEnd h
    exact ⟨hle, hnq, fun _ e => by cases e; exact Reactor.fireEnd_dead (hr r hr₀) hf⟩
  | share => cases h; exact ⟨by show id ≤ s.gen + 1; omega, hnq, hr⟩

/-- A dead timer stays dead along every run. -/
theorem dead_steps (hi : Inv s) (hd : Dead s id) {s'' : Loop} (h : machine.Steps s s'') :
    Inv s'' ∧ Dead s'' id :=
  h.invariant (I := fun s => Inv s ∧ Dead s id) ⟨hi, hd⟩ fun _ _ _ ⟨hi, hd⟩ h =>
    ⟨inv_step hi h, dead_step hi hd h⟩

theorem not_fireStart_of_dead (hd : Dead s id) : step s (.fireStart id) ≠ some s' := fun h => by
  obtain ⟨-, r, r', hr, hf, -⟩ := step_fireStart h
  exact (Reactor.fireStart_dead (hd.2.2 r hr) hf).1 rfl

/-- A step running `Cancel(id)` is `Loop.cancel` applied after the pop of its closure, if any:
the reactor, the log and the generator are those of before the step, and the pop queues no new
arming. -/
theorem runsCancel_eq (hi : Inv s) (h : step s a = some s') (hc : RunsCancel s id a) :
    id ≤ s.gen ∧ ∃ p : Loop, s' = p.cancel id ∧ p.reactor = s.reactor ∧ p.log = s.log ∧
      p.gen = s.gen ∧ (ArmQueued p id → ArmQueued s id) := by
  cases a with
  | cancelOn i =>
    cases hc
    obtain ⟨hid, rfl⟩ := step_cancelOn h
    exact ⟨hid, s, rfl, rfl, rfl, rfl, fun h => h⟩
  | loop a =>
    obtain ⟨-, ib, -, ⟨-, hne, -⟩ | ⟨j, rfl, hj, hq, rfl⟩⟩ := step_loop hi.inbox h
    · cases a <;> first | exact absurd rfl hne | cases hc
    · obtain rfl : j = .cancel id := Option.some.inj (hj.symm.trans hc)
      exact ⟨hi.cancel_le id (hq ▸ List.mem_cons_self _ _), _, rfl, rfl, rfl, rfl,
        fun ⟨ms, b, h⟩ => ⟨ms, b, hq ▸ List.mem_cons_of_mem _ h⟩⟩
  | _ => cases hc

/-- **`Cancel` on the event loop.**  A `Cancel(id)` posted from another thread runs after the
arming of `id`: when it reaches the head of the queue, no arming of `id` is queued.  And whenever
the loop runs `reactor_->Cancel(id)` (on its own thread or as that posted closure) with no arming
of `id` queued, the future resolves to some `ok`; while the reactor exists, for an `id` this loop
scheduled, `ok` is `false` exactly when `id` was cancelled before or is a one-shot timer whose
callback has returned; and along every later run the callback of `id` never starts again. -/
theorem cancel_spec :
    (∀ s, machine.Reachable s → ∀ id q, s.queue = .cancel id :: q → ¬ ArmQueued s id) ∧
    (∀ s a s' id, machine.Reachable s → machine.step s a s' → RunsCancel s id a →
      ¬ ArmQueued s id →
      ∃ ok, s'.log = s.log ++ [.resolved id ok] ∧
        (s.reactor ≠ none → ∀ rep, .scheduled id rep ∈ s.log → (ok = false ↔ Gone s.log id rep)) ∧
        ∀ s'' s''', machine.Steps s' s'' → ¬ machine.step s'' (.fireStart id) s''') := by
  refine ⟨fun s hs id q hq ⟨ms, rep, h⟩ => ?_, fun s a s' id hs h hc hnq => ?_⟩
  · rw [hq, List.mem_cons] at h
    exact (inv_of_reachable hs).cancel_after_arm [] q id hq ms rep (h.resolve_left (by simp))
  have hi := inv_of_reachable hs
  obtain ⟨hid, p, rfl, hr, hl, hg, hpq⟩ := runsCancel_eq hi h hc
  refine ⟨(cancelIn p.reactor id).1, by rw [← hl]; rfl, fun hne rep hsch => ?_,
    fun s'' s''' h' h'' => not_fireStart_of_dead (dead_steps (inv_step hi h) ?_ h').2 h''⟩
  · obtain ⟨r, hr'⟩ := Option.ne_none_iff_exists'.1 hne
    rw [← hi.live id rep hsch hnq r hr', hr, hr']
    simp only [cancelIn, Reactor.cancel_fst]
    cases r.timers id <;> simp
  · refine ⟨by rw [cancel_gen, hg]; exact hid, fun h => hnq (hpq h), fun r' h' => ?_⟩
    cases hp : p.reactor with
    | none => simp [(cancel_of_none id hp).1] at h'
    | some r =>
      rw [(cancel_of_some id hp).1] at h'
      cases h'
      exact Reactor.cancel_dead (hi.good r (hr ▸ hp))

/-- A repeating timer armed from another thread, then cancelled on the loop's thread once the
loop has run the arming: the future resolves to `true`, and the timer never fires again. -/
theorem cancel_spec_after_arming :
    ∃ s s', Machine.runList step (Loop.fresh 0)
        [.scheduleOff 100 true, .loop .swap, .loop .run] = some s ∧
      step s (.cancelOn 1) = some s' ∧ s'.log = s.log ++ [.resolved 1 true] ∧
      ∀ s'' s''', machine.Steps s' s'' → ¬ machine.step s'' (.fireStart 1) s''' := by
  obtain ⟨s, hs, he⟩ := Option.map_eq_some'.1 (show (Machine.runList step (Loop.fresh 0)
      [.scheduleOff 100 true, .loop .swap, .loop .run]).map (fun s =>
        ((step s (.cancelOn 1)).isSome, s.log, s.queue.filterMap Job.armId, s.reactor.isSome)) =
      some (true, [.scheduled 1 true], [], true) by decide)
  simp only [Prod.mk.injEq] at he
  obtain ⟨hc, hl, hq, hr⟩ := he
  obtain ⟨s', hs'⟩ := Option.isSome_iff_exists.1 hc
  obtain ⟨ok, hlog, hok, hnever⟩ := cancel_spec.2 s (.cancelOn 1) s' 1
    (Machine.Reachable.of_runList (fun _ _ _ h => h) ⟨0, rfl⟩ _ hs) hs' rfl
    (fun h => by simpa [hq] using mem_armIds.2 h)
  have hok := hok (fun h => by simp [h] at hr) true (by simp [hl])
  rw [hl] at hok
  cases ok
  · exact absurd (hok.1 rfl) (by simp [Gone])
  · exact ⟨s, s', hs, hs', hlog, hnever⟩

/-- **A cancel on the loop's thread is lost while the arming is queued.**  `ScheduleRepeatedly`
called from another thread returns id `1` and posts the arming; `Cancel(1)` on the loop's thread
finds no timer and resolves to `false`; the loop then runs the arming, and the timer fires. -/
theorem cancel_lost :
    ¬ ∀ s, machine.Reachable s → ∀ pre post id ok rep, s.log = pre ++ .resolved id ok :: post →
      .scheduled id rep ∈ pre → .fired id ∉ post := by
  intro h
  obtain ⟨s, hs, hl⟩ := Option.map_eq_some'.1 (show (Machine.runList step (Loop.fresh 0)
      [.scheduleOff 100 true, .cancelOn 1, .loop .swap, .loop .run, .loop .poll, .fireStart 1]).map
      Loop.log = some [.scheduled 1 true, .resolved 1 false, .fired 1] by decide)
  exact h s (Machine.Reachable.of_runList (fun _ _ _ h => h) ⟨0, rfl⟩ _ hs) [.scheduled 1 true]
    [.fired 1] 1 false true hl (by simp) (by simp)

end Cancel

end Facade

end PikiwiNet
