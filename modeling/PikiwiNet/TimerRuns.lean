import PikiwiNet.Timers

/-!
# Runs of the timer table

What the timer table of `LibeventReactor` keeps along every run: any interleaving of `Schedule`
calls, each with an id never used before, of `Cancel` calls with any id, and of the timer events
libevent runs.  A callback runs between its start and its return, so that it can itself call
`Cancel` and `Schedule`: they are steps like any other.  libevent runs a pending event only when
no callback is running, since callbacks run one at a time on the loop's thread.

The run keeps a log of what the callers see: the `Schedule` calls, what each `Cancel` returned,
and each callback's invocation and return.

* `TimerRuns.inv_of_reachable` : the invariant `Inv` holds along every run;
* `TimerRuns.current_none_iff_settled` : no callback runs exactly when every callback the log
  invokes has returned;
* `TimerRuns.timer_runs` : once every invoked callback has returned, an id has a record exactly
  when its event is pending, and the callback libevent runs is that of the record; a one-shot
  callback runs at most once and its record is gone once it has returned; `Cancel` returns
  whether there was a record; and after a `Cancel` that returned `true` the callback is never
  invoked again.
-/

namespace PikiwiNet

namespace TimerRuns

open Timers

/-- What the callers of the timer table see. -/
inductive Ev
  /-- `Schedule(id, ms, f, repeat)` is called. -/
  | scheduled (id : Int) (rep : Bool)
  /-- `Cancel(id)` returns `ok`. -/
  | cancelled (id : Int) (ok : Bool)
  /-- `TimerCallback` invokes the callback of `id`. -/
  | invoked (id : Int)
  /-- The callback of `id` returns, and `TimerCallback` with it. -/
  | returned (id : Int)
  deriving DecidableEq, Repr

/-- The id a `Schedule` call was made with. -/
def Ev.schedId : Ev → Option Int
  | .scheduled id _ => some id
  | _ => none

/-- An invocation of a callback. -/
def Ev.isInvoked : Ev → Bool
  | .invoked _ => true
  | _ => false

/-- A callback's return. -/
def Ev.isReturned : Ev → Bool
  | .returned _ => true
  | _ => false

/-- Every callback the log invokes has returned. -/
def Settled (log : List Ev) : Prop := log.countP Ev.isInvoked = log.countP Ev.isReturned

instance (log : List Ev) : Decidable (Settled log) := inferInstanceAs (Decidable (_ = _))

/-- The timer table with its log. -/
structure Sys where
  /-- The timer side of the reactor. -/
  reactor : Reactor
  /-- What has happened, in order. -/
  log : List Ev

/-- The calls on the table and the events libevent runs. -/
inductive Act
  /-- `Schedule(id, ms, f, repeat)`, with an id never used before. -/
  | schedule (id ms : Int) (rep : Bool)
  /-- `Cancel(id)`. -/
  | cancel (id : Int)
  /-- libevent runs the pending event of `id` while no callback runs: `TimerCallback` starts. -/
  | fire (id : Int)
  /-- The running callback returns: `TimerCallback` finishes. -/
  | finish

/-- One step; `none` when it is not enabled. -/
def step (s : Sys) : Act → Option Sys
  | .schedule id ms rep => if some id ∈ s.log.map Ev.schedId then none
      else some ⟨s.reactor.schedule id ms rep, s.log ++ [.scheduled id rep]⟩
  | .cancel id => some ⟨(s.reactor.cancel id).2, s.log ++ [.cancelled id (s.reactor.cancel id).1]⟩
  | .fire id => (s.reactor.fireStart id).map fun r => ⟨r, s.log ++ [.invoked id]⟩
  | .finish => s.reactor.fireEnd.map fun (t, r) => ⟨r, s.log ++ [.returned t.id]⟩

/-- The timer table from a new reactor. -/
def machine : Machine Sys Act where
  init s := s = ⟨Reactor.empty, []⟩
  step s a s' := step s a = some s'

/-! ### The invariant -/

/-- No callback is invoked after a `Cancel` of its id has returned `true`. -/
def Final (log : List Ev) : Prop :=
  ∀ id pre post, log = pre ++ .cancelled id true :: post → .invoked id ∉ post

theorem final_append {log : List Ev} {e : Ev} (hf : Final log)
    (he : ∀ id, e = .invoked id → .cancelled id true ∉ log) : Final (log ++ [e]) := by
  intro id pre post h hv
  rcases append_singleton_eq_append_cons h with ⟨rfl, -, -⟩ | ⟨post', rfl, h'⟩
  · exact List.not_mem_nil _ hv
  · rcases List.mem_append.1 hv with hv | hv
    · exact hf id pre post' h' hv
    · exact he id (List.mem_singleton.1 hv).symm (h' ▸ List.mem_append_right _ (List.mem_cons_self _ _))

/-- A scheduled id stays scheduled as the log grows. -/
theorem scheduled_append {log : List Ev} {id : Int} (l : List Ev) :
    (∃ rep, .scheduled id rep ∈ log) → ∃ rep, .scheduled id rep ∈ log ++ l :=
  fun ⟨b, hb⟩ => ⟨b, List.mem_append_left _ hb⟩

/-- An event other than a `Schedule` call schedules nothing. -/
theorem scheduled_mem_append {log : List Ev} {e : Ev} (he : e.schedId = none) {id : Int}
    {rep : Bool} : .scheduled id rep ∈ log ++ [e] ↔ .scheduled id rep ∈ log := by
  rw [List.mem_append, List.mem_singleton, or_iff_left]
  rintro rfl
  cases he

/-- An event other than a `Schedule` call keeps each id scheduled with one flag. -/
theorem unique_append {log : List Ev} {e : Ev}
    (hu : ∀ id rep rep', .scheduled id rep ∈ log → .scheduled id rep' ∈ log → rep = rep')
    (he : e.schedId = none) (id : Int) (rep rep' : Bool) (h : .scheduled id rep ∈ log ++ [e])
    (h' : .scheduled id rep' ∈ log ++ [e]) : rep = rep' :=
  hu id rep rep' ((scheduled_mem_append he).1 h) ((scheduled_mem_append he).1 h')

/-- Every id the log invokes, returns or cancels with success stays scheduled when an event is
appended whose own such id is scheduled. -/
theorem known_append {log : List Ev} {e : Ev}
    (hk : ∀ id, .invoked id ∈ log ∨ .returned id ∈ log ∨ .cancelled id true ∈ log →
      ∃ rep, .scheduled id rep ∈ log)
    (he : ∀ id, .invoked id = e ∨ .returned id = e ∨ .cancelled id true = e →
      ∃ rep, .scheduled id rep ∈ log) (id : Int)
    (h : .invoked id ∈ log ++ [e] ∨ .returned id ∈ log ++ [e] ∨ .cancelled id true ∈ log ++ [e]) :
    ∃ rep, .scheduled id rep ∈ log ++ [e] := by
  refine scheduled_append _ ?_
  simp only [List.mem_append, List.mem_singleton] at h
  by_cases hl : .invoked id ∈ log ∨ .returned id ∈ log ∨ .cancelled id true ∈ log
  · exact hk id hl
  · exact he id (by tauto)

/-- The invariant of the timer table. -/
structure Inv (s : Sys) : Prop where
  /-- A pending event has an owner. -/
  good : s.reactor.Good
  /-- Every record sits under its own id and was scheduled with its flag; its event is pending,
  unless it is the one-shot timer whose callback is running. -/
  armed : ∀ id t, s.reactor.timers id = some t → t.id = id ∧ .scheduled id t.rep ∈ s.log ∧
    (s.reactor.pending id = true ∨ (s.reactor.current = some t ∧ t.rep = false))
  /-- The timer of the running callback was scheduled with its flag. -/
  current : ∀ t, s.reactor.current = some t → .scheduled t.id t.rep ∈ s.log
  /-- Only scheduled ids have pending events. -/
  pending : ∀ id, s.reactor.pending id = true → ∃ rep, .scheduled id rep ∈ s.log
  /-- An id is scheduled once. -/
  unique : ∀ id rep rep', .scheduled id rep ∈ s.log → .scheduled id rep' ∈ s.log → rep = rep'
  /-- Only scheduled ids are invoked, return, or are cancelled with success. -/
  known : ∀ id, .invoked id ∈ s.log ∨ .returned id ∈ s.log ∨ .cancelled id true ∈ s.log →
    ∃ rep, .scheduled id rep ∈ s.log
  /-- The event of a one-shot timer is no longer pending once its callback has been invoked. -/
  once : ∀ id, .scheduled id false ∈ s.log → .invoked id ∈ s.log → s.reactor.pending id = false
  /-- A one-shot callback is invoked at most once. -/
  count : ∀ id, .scheduled id false ∈ s.log → s.log.count (.invoked id) ≤ 1
  /-- A one-shot timer has no record once its callback has returned. -/
  gone : ∀ id, .scheduled id false ∈ s.log → .returned id ∈ s.log → s.reactor.timers id = none
  /-- A timer whose `Cancel` returned `true` is dead. -/
  dead : ∀ id, .cancelled id true ∈ s.log → s.reactor.Dead id
  /-- No callback is invoked after a `Cancel` of its id returned `true`. -/
  final : Final s.log

section Steps

variable {s : Sys}

theorem inv_schedule (hi : Inv s) {id ms : Int} {rep : Bool} (hf : ∀ b, .scheduled id b ∉ s.log) :
    Inv ⟨s.reactor.schedule id ms rep, s.log ++ [.scheduled id rep]⟩ := by
  have hne : ∀ k, (∃ b, Ev.scheduled k b ∈ s.log) → k ≠ id := fun k ⟨b, hb⟩ e => hf b (e ▸ hb)
  refine ⟨Reactor.schedule_good hi.good ms rep, fun k t ht => ?_,
    fun t ht => List.mem_append_left _ (hi.current t ht), fun k hk => ?_, fun k b b' h h' => ?_,
    known_append hi.known (by simp), fun k hs hv => ?_, fun k hs => ?_, fun k hs hr => ?_,
    fun k hk => ?_, final_append hi.final (by simp)⟩
  · rw [Reactor.schedule_timers] at ht
    split at ht
    · rename_i e
      subst e
      cases ht
      exact ⟨rfl, by simp, .inl (by simp)⟩
    · rename_i e
      obtain ⟨h₁, h₂, h₃⟩ := hi.armed k t ht
      exact ⟨h₁, List.mem_append_left _ h₂, by simpa [e] using h₃⟩
  · rw [Reactor.schedule_pending] at hk
    split at hk
    · exact ⟨rep, by simp [*]⟩
    · exact scheduled_append _ (hi.pending k hk)
  · simp only [List.mem_append, List.mem_singleton, Ev.scheduled.injEq] at h h'
    rcases h with h | ⟨rfl, rfl⟩ <;> rcases h' with h' | ⟨e, rfl⟩
    · exact hi.unique k b b' h h'
    · subst e
      exact absurd h (hf b)
    · exact absurd h' (hf b')
    · rfl
  · simp only [List.mem_append, List.mem_singleton, reduceCtorEq, or_false,
      Ev.scheduled.injEq] at hs hv
    have hk := hne k (hi.known k (.inl hv))
    simpa [hk] using hi.once k (hs.resolve_right fun h => hk h.1) hv
  · simp only [List.mem_append, List.mem_singleton, Ev.scheduled.injEq] at hs
    rw [List.count_append, List.count_singleton]
    by_cases hv : Ev.invoked k ∈ s.log
    · have hk := hne k (hi.known k (.inl hv))
      simpa using hi.count k (hs.resolve_right fun h => hk h.1)
    · simp [List.count_eq_zero_of_not_mem hv]
  · simp only [List.mem_append, List.mem_singleton, reduceCtorEq, or_false,
      Ev.scheduled.injEq] at hs hr
    have hk := hne k (hi.known k (.inr (.inl hr)))
    simpa [hk] using hi.gone k (hs.resolve_right fun h => hk h.1) hr
  · simp only [List.mem_append, List.mem_singleton, reduceCtorEq, or_false] at hk
    exact Reactor.schedule_dead (hi.dead k hk) (Ne.symm (hne k (hi.known k (.inr (.inr hk))))) ms rep

theorem inv_cancel (hi : Inv s) (id : Int) :
    Inv ⟨(s.reactor.cancel id).2, s.log ++ [.cancelled id (s.reactor.cancel id).1]⟩ := by
  refine ⟨Reactor.cancel_good hi.good, fun k t ht => ?_, fun t ht => ?_,
    fun k hk => scheduled_append _ (hi.pending k (Reactor.cancel_pending_of hk)),
    unique_append hi.unique rfl, known_append hi.known fun k hk => ?_, fun k hs hv => ?_,
    fun k hs => ?_, fun k hs hr => ?_, fun k hk => ?_, final_append hi.final (by simp)⟩
  · rw [Reactor.cancel_timers] at ht
    split at ht
    · cases ht
    · rename_i e
      obtain ⟨h₁, h₂, h₃⟩ := hi.armed k t ht
      refine ⟨h₁, List.mem_append_left _ h₂, ?_⟩
      rw [Reactor.cancel_pending, Reactor.cancel_current]
      simpa [e] using h₃
  · rw [Reactor.cancel_current] at ht
    exact List.mem_append_left _ (hi.current t ht)
  · simp only [reduceCtorEq, Ev.cancelled.injEq, Reactor.cancel_fst, false_or] at hk
    obtain ⟨rfl, hk⟩ := hk
    obtain ⟨t, ht⟩ := Option.isSome_iff_exists.1 hk.symm
    exact ⟨t.rep, (hi.armed _ t ht).2.1⟩
  · simp only [List.mem_append, List.mem_singleton, reduceCtorEq, or_false] at hs hv
    exact Bool.eq_false_iff.2 fun hp => by simpa [hi.once k hs hv] using Reactor.cancel_pending_of hp
  · simp only [List.mem_append, List.mem_singleton, reduceCtorEq, or_false] at hs
    simpa using hi.count k hs
  · simp only [List.mem_append, List.mem_singleton, reduceCtorEq, or_false] at hs hr
    simp [Reactor.cancel_timers, hi.gone k hs hr]
  · simp only [List.mem_append, List.mem_singleton, Ev.cancelled.injEq, Reactor.cancel_fst] at hk
    rcases hk with hk | ⟨rfl, -⟩
    · exact Reactor.cancel_dead_of_dead (hi.dead k hk)
    · exact Reactor.cancel_dead hi.good

theorem inv_fire (hi : Inv s) {id : Int} {r : Reactor} (hf : s.reactor.fireStart id = some r) :
    Inv ⟨r, s.log ++ [.invoked id]⟩ := by
  obtain ⟨hc, hp, t, ht, hr⟩ := Reactor.fireStart_eq_some.1 hf
  obtain ⟨htid, hs, -⟩ := hi.armed id t ht
  have hnd : .cancelled id true ∉ s.log := fun h =>
    (Reactor.fireStart_dead (hi.dead id h) hf).1 rfl
  refine ⟨Reactor.fireStart_good hi.good hf, fun k t' ht' => ?_, fun t' ht' => ?_,
    fun k hk => scheduled_append _ (hi.pending k (Reactor.fireStart_pending_of hf hk)),
    unique_append hi.unique rfl, known_append hi.known fun k hk => ?_, fun k hs' hv => ?_,
    fun k hs' => ?_, fun k hs' hr' => ?_, fun k hk => ?_,
    final_append hi.final fun k e => by cases e; exact hnd⟩
  · subst hr
    obtain ⟨h₁, h₂, h₃⟩ := hi.armed k t' ht'
    refine ⟨h₁, List.mem_append_left _ h₂, ?_⟩
    have hpk : s.reactor.pending k = true := h₃.resolve_right fun h => by simp [hc] at h
    by_cases e : k = id
    · subst e
      rw [ht] at ht'
      cases ht'
      cases hrep : t.rep <;> simp [hrep, hpk]
    · by_cases hrep : t.rep <;> simp [hrep, Function.update_apply, e, hpk]
  · subst hr
    cases ht'
    exact List.mem_append_left _ (htid ▸ hs)
  · rcases hk with hk | hk | hk <;> cases hk
    exact ⟨t.rep, hs⟩
  · simp only [List.mem_append, List.mem_singleton, reduceCtorEq, or_false, Ev.invoked.injEq] at hs' hv
    subst hr
    by_cases e : k = id
    · subst e
      have hrep := hi.unique k _ _ hs hs'
      simp [hrep, Function.update_apply]
    · rcases hv with hv | rfl
      · by_cases hrep : t.rep <;> simp [hrep, Function.update_apply, e, hi.once k hs' hv]
      · exact absurd rfl e
  · simp only [List.mem_append, List.mem_singleton, reduceCtorEq, or_false] at hs'
    rw [List.count_append, List.count_singleton]
    by_cases e : k = id
    · subst e
      have hv : Ev.invoked k ∉ s.log := fun hv => by simp [hi.once k hs' hv] at hp
      simp [List.count_eq_zero_of_not_mem hv]
    · simpa [Ne.symm e] using hi.count k hs'
  · simp only [List.mem_append, List.mem_singleton, reduceCtorEq, or_false] at hs' hr'
    subst hr
    exact hi.gone k hs' hr'
  · simp only [List.mem_append, List.mem_singleton, reduceCtorEq, or_false] at hk
    exact (Reactor.fireStart_dead (hi.dead k hk) hf).2

theorem inv_finish (hi : Inv s) {t : Timer} {r : Reactor} (hf : s.reactor.fireEnd = some (t, r)) :
    Inv ⟨r, s.log ++ [.returned t.id]⟩ := by
  obtain ⟨hc, hr⟩ := Reactor.fireEnd_eq_some.1 hf
  have hs := hi.current t hc
  have htm := fun k => Reactor.fireEnd_timers (k := k) hf
  refine ⟨Reactor.fireEnd_good hi.good hf, fun k t' ht' => ?_, fun t' ht' => ?_,
    fun k hk => scheduled_append _ (hi.pending k (Reactor.fireEnd_pending_of hf hk)),
    unique_append hi.unique rfl, known_append hi.known fun k hk => ?_, fun k hs' hv => ?_,
    fun k hs' => ?_, fun k hs' hr' => ?_, fun k hk => ?_, final_append hi.final (by simp)⟩
  · rw [htm] at ht'
    split at ht'
    · cases ht'
    · rename_i hne
      obtain ⟨h₁, h₂, h₃⟩ := hi.armed k t' ht'
      refine ⟨h₁, List.mem_append_left _ h₂, .inl (Reactor.fireEnd_pending_keep hf
        (by rw [htm, if_neg hne, ht']; simp) ?_)⟩
      rcases h₃ with h₃ | ⟨e, hrep⟩
      · exact h₃
      · rw [hc] at e
        cases e
        exact absurd ⟨hrep, h₁.symm⟩ hne
  · subst hr
    simp at ht'
  · rcases hk with hk | hk | hk <;> cases hk
    exact ⟨t.rep, hs⟩
  · simp only [List.mem_append, List.mem_singleton, reduceCtorEq, or_false] at hs' hv
    exact Bool.eq_false_iff.2 fun hp => by simpa [hi.once k hs' hv] using Reactor.fireEnd_pending_of hf hp
  · simp only [List.mem_append, List.mem_singleton, reduceCtorEq, or_false] at hs'
    simpa using hi.count k hs'
  · simp only [List.mem_append, List.mem_singleton, reduceCtorEq, or_false, Ev.returned.injEq] at hs' hr'
    rw [htm]
    rcases hr' with hr' | rfl
    · simp [hi.gone k hs' hr']
    · simp [hi.unique _ _ _ hs hs']
  · simp only [List.mem_append, List.mem_singleton, reduceCtorEq, or_false] at hk
    exact Reactor.fireEnd_dead (hi.dead k hk) hf

end Steps

/-! ### Every run -/

theorem inv_step {s s' : Sys} {a : Act} (hi : Inv s) (h : step s a = some s') : Inv s' := by
  cases a with
  | schedule id ms rep =>
    simp only [step] at h
    split at h
    · cases h
    · rename_i hf
      cases h
      exact inv_schedule hi fun b hb => hf (List.mem_map.2 ⟨_, hb, rfl⟩)
  | cancel id => cases h; exact inv_cancel hi id
  | fire id =>
    obtain ⟨r, hr, rfl⟩ := Option.map_eq_some'.1 h
    exact inv_fire hi hr
  | finish =>
    obtain ⟨⟨t, r⟩, hr, rfl⟩ := Option.map_eq_some'.1 h
    exact inv_finish hi hr

theorem inv_empty : Inv ⟨Reactor.empty, []⟩ :=
  ⟨Reactor.empty_good, fun _ _ h => by simp at h, fun _ h => by simp at h, fun _ h => by simp at h,
    fun _ _ _ h => absurd h (List.not_mem_nil _), fun _ h => by simp at h,
    fun _ h => absurd h (List.not_mem_nil _), fun _ h => absurd h (List.not_mem_nil _),
    fun _ h => absurd h (List.not_mem_nil _), fun _ h => absurd h (List.not_mem_nil _),
    fun _ pre post h => absurd h (by simp)⟩

theorem inv_of_reachable {s : Sys} (hs : machine.Reachable s) : Inv s :=
  hs.rec_inv (fun _ h => h ▸ inv_empty) fun _ _ _ hi h => inv_step hi h

/-! ### The running callback -/

/-- The log invokes one callback more than it returns while a callback runs, and as many
otherwise. -/
def Balanced (s : Sys) : Prop :=
  s.log.countP Ev.isInvoked = s.log.countP Ev.isReturned + if s.reactor.current.isSome then 1 else 0

theorem balanced_step {s s' : Sys} {a : Act} (hb : Balanced s) (h : step s a = some s') :
    Balanced s' := by
  cases a with
  | schedule id ms rep =>
    simp only [step] at h
    split at h
    · cases h
    · cases h; simpa [Balanced, Ev.isInvoked, Ev.isReturned] using hb
  | cancel id => cases h; simpa [Balanced, Ev.isInvoked, Ev.isReturned] using hb
  | fire id =>
    obtain ⟨r, hr, rfl⟩ := Option.map_eq_some'.1 h
    obtain ⟨hc, -, t, -, rfl⟩ := Reactor.fireStart_eq_some.1 hr
    simpa [Balanced, Ev.isInvoked, Ev.isReturned, hc] using hb
  | finish =>
    obtain ⟨⟨t, r⟩, hr, rfl⟩ := Option.map_eq_some'.1 h
    obtain ⟨hc, rfl⟩ := Reactor.fireEnd_eq_some.1 hr
    simpa [Balanced, Ev.isInvoked, Ev.isReturned, hc] using hb

/-- **No callback runs exactly when every invoked callback has returned**: `TimerCallback` lets
go of its timer as the callback returns. -/
theorem current_none_iff_settled {s : Sys} (hs : machine.Reachable s) :
    s.reactor.current = none ↔ Settled s.log := by
  have hb : Balanced s := hs.rec_inv (fun _ h => by subst h; rfl)
    fun _ _ _ hb h => balanced_step hb h
  unfold Balanced at hb
  cases hc : s.reactor.current <;> simp only [hc, Settled] at hb ⊢ <;> simp [hb]

/-- **What every run of the timer table keeps.**  Along every run with pairwise distinct ids:
no callback is running exactly when every invoked callback has returned; then an id has a record
exactly when its libevent event is pending;
whenever libevent can run the event of an id, the callback `TimerCallback` invokes is that of the
record in `timers_`; a one-shot callback is invoked at most once, and once it has returned its id
has no record; `Cancel(id)` returns `true` exactly when `id` had a record; and after a `Cancel(id)`
that returned `true` the callback of `id` is never invoked again (a running one still returns). -/
theorem timer_runs {s : Sys} (hs : machine.Reachable s) :
    (s.reactor.current = none ↔ Settled s.log) ∧
    (Settled s.log → ∀ id, s.reactor.timers id ≠ none ↔ s.reactor.pending id = true) ∧
    (∀ id, Settled s.log → s.reactor.pending id = true →
      ∃ t s', s.reactor.timers id = some t ∧ step s (.fire id) = some s' ∧
        s'.reactor.current = some t) ∧
    (∀ id, .scheduled id false ∈ s.log →
      s.log.count (.invoked id) ≤ 1 ∧ (.returned id ∈ s.log → s.reactor.timers id = none)) ∧
    (∀ id s', step s (.cancel id) = some s' →
      ∃ ok, s'.log = s.log ++ [.cancelled id ok] ∧ (ok = true ↔ s.reactor.timers id ≠ none)) ∧
    (∀ id pre post, s.log = pre ++ .cancelled id true :: post → .invoked id ∉ post) := by
  have hi := inv_of_reachable hs
  have hset := current_none_iff_settled hs
  have hrec : ∀ id, s.reactor.current = none → s.reactor.pending id = true →
      s.reactor.timers id ≠ none := fun id hc hp =>
    (hi.good id hp).resolve_right (Reactor.not_holds hc)
  refine ⟨hset, fun hc id => ⟨fun ht => ?_, hrec id (hset.2 hc)⟩, fun id hc hp => ?_,
    fun id h => ⟨hi.count id h, hi.gone id h⟩, fun id s' h => ?_, hi.final⟩
  · replace hc := hset.2 hc
    obtain ⟨t, ht⟩ := Option.ne_none_iff_exists'.1 ht
    exact (hi.armed id t ht).2.2.resolve_right fun h => by simp [hc] at h
  · replace hc := hset.2 hc
    obtain ⟨t, ht⟩ := Option.ne_none_iff_exists'.1 (hrec id hc hp)
    have hf := Reactor.fireStart_eq_some.2 ⟨hc, hp, t, ht, rfl⟩
    exact ⟨t, _, ht, by rw [step, hf]; rfl, by rfl⟩
  · cases h
    exact ⟨_, rfl, by simp [Option.isSome_iff_ne_none]⟩

/-- A repeating timer whose callback cancels it: the cancel finds the record, the running callback
still returns, and with it `TimerCallback` lets go of the timer; then no callback runs, the id
has no record, and its event is no longer pending. -/
theorem timer_runs_self_cancel :
    ∃ s, machine.Reachable s ∧
      s.log = [.scheduled 1 true, .invoked 1, .cancelled 1 true, .returned 1] ∧
      s.reactor.current = none ∧ s.reactor.timers 1 = none ∧ s.reactor.pending 1 = false ∧
      .invoked 1 ∉ ([.returned 1] : List Ev) := by
  obtain ⟨s, hs, hl⟩ := Option.map_eq_some'.1 (show (Machine.runList step ⟨Reactor.empty, []⟩
      [.schedule 1 100 true, .fire 1, .cancel 1, .finish]).map
        (fun s => (s.log, s.reactor.timers 1)) =
      some ([.scheduled 1 true, .invoked 1, .cancelled 1 true, .returned 1], none) by decide)
  obtain ⟨hl, ht⟩ := Prod.mk.inj hl
  have hr : machine.Reachable s := Machine.Reachable.of_runList (fun _ _ _ h => h) rfl _ hs
  have hset : Settled s.log := by rw [hl]; decide
  exact ⟨s, hr, hl, (timer_runs hr).1.2 hset, ht,
    Bool.eq_false_iff.2 fun hp => ((timer_runs hr).2.1 hset 1).2 hp ht,
    (timer_runs hr).2.2.2.2.2 1 [.scheduled 1 true, .invoked 1] [.returned 1] hl⟩

end TimerRuns

end PikiwiNet
