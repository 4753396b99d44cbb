import PikiwiNet.Conn

/-!
# Thread affinity of the event loops

The constructor of an `EventLoop` sets the `g_this_loop` of its thread, and `InThisLoop()`
compares it with `this`; every loop is run by the thread that built it, so `InThisLoop()` of loop
`ℓ` holds exactly on `ℓ`'s thread.  The thread-safe entry points (`Execute`, `ScheduleLater`,
`ScheduleRepeatedly`, `Cancel` and `TcpObject::ActiveClose`) test it: on the loop's thread they
act at once, elsewhere they post a closure to the loop's `tasks_`, which only the loop's thread
runs.  A loop's reactor dispatches the events of the objects whose libevent events live in its
`event_base`: the connections built with it as `loop_`, and its listeners.  A listener's
`OnNewConnection` asks the selector for a loop and hands that loop the `create_conn` closure
through the loop's own `Execute`.

The model is a process of loops `ℓ : Nat` and of other threads, with the inbox of every loop and
the `loop_` and `state_` of every connection.  A step is one call of the runtime, taken by the
thread that makes it: by any thread for the thread-safe entry points, and by loop `ℓ`'s own
thread for its loop-local calls (`Connect`, `Listen`) and for the events its reactor dispatches.
User code is the steps the threads take, so a user task run by `Execute` is the steps its thread
takes next.  Which handler an event of a connection leads to is left free here (`PikiwiNet.Conn`
models that choice).  Every registry, reactor and `TcpObject` operation is logged with the loop
that owns it and the thread that runs it.  `Stop` changes no registry or reactor, nothing in the
sources calls `Modify`, and `Run` registers its notifier and tears its objects down on its own
thread; these are not steps here.

* `Affinity.inv_of_reachable` : every closure queued on a loop acts on that loop, and every
  operation logged so far ran on its owner's thread;
* `Affinity.affinity` : hence along every interleaving every registry, reactor and `TcpObject`
  operation runs on the thread of the loop that owns it, so its `InThisLoop` assertion holds,
  also for the connections that a listener routes to another loop.
-/

namespace PikiwiNet

namespace Affinity

/-- A thread of the process: the one that built, and runs, loop `ℓ`, or another one. -/
inductive Thread
  | loop (ℓ : Nat)
  | other (k : Nat)
  deriving DecidableEq, Repr

/-- The thread-local `g_this_loop`: the loop whose constructor ran on the thread. -/
def thisLoop : Thread → Option Nat
  | .loop ℓ => some ℓ
  | .other _ => none

/-- `EventLoop::InThisLoop()` of loop `ℓ` called on thread `t`: `this == g_this_loop`. -/
def inThisLoop (t : Thread) (ℓ : Nat) : Bool := thisLoop t == some ℓ

theorem eq_of_inThisLoop {t : Thread} {ℓ : Nat} (h : inThisLoop t ℓ = true) : t = .loop ℓ := by
  cases t <;> simp_all [inThisLoop, thisLoop]

@[simp] theorem inThisLoop_loop (ℓ : Nat) : inThisLoop (.loop ℓ) ℓ = true := by
  simp [inThisLoop, thisLoop]

/-- The operations that assert they run on their owner's thread. -/
inductive Op
  /-- `EventLoop::Register`, with the reactor's `Register` inside it. -/
  | register
  /-- `EventLoop::Unregister`, with the reactor's `Unregister` inside it. -/
  | unregister
  /-- The reactor's `ScheduleLater` or `ScheduleRepeatedly`. -/
  | schedule
  /-- The reactor's `Cancel`. -/
  | cancel
  /-- `TcpObject::OnAccept`. -/
  | onAccept
  /-- `TcpObject::HandleConnect`. -/
  | handleConnect
  /-- `TcpObject::HandleConnectFailed`. -/
  | handleConnectFailed
  /-- `TcpObject::HandleDisconnect`. -/
  | handleDisconnect
  deriving DecidableEq, Repr

/-- One operation run: the loop that owns it (whose registry or reactor it changes, or the
`loop_` of the connection it moves) and the thread it runs on. -/
structure Entry where
  /-- The operation. -/
  op : Op
  /-- The loop that owns it. -/
  owner : Nat
  /-- The thread that runs it. -/
  thread : Thread
  deriving DecidableEq, Repr

/-- A `TcpObject`, as far as its thread goes. -/
structure Tcp where
  /-- `loop_`, set by the constructor. -/
  loop : Nat
  /-- `state_`. -/
  state : Conn.State
  deriving DecidableEq, Repr

/-- The handler an event of a connection runs. -/
inductive Handler
  /-- `OnEvent` with `BEV_EVENT_CONNECTED` while connecting: `HandleConnect`. -/
  | connect
  /-- `OnEvent` without it while connecting: `HandleConnectFailed`. -/
  | connectFailed
  /-- `OnEvent` with `BEV_EVENT_EOF`, or `OnRecvData` on a failed read: `HandleDisconnect`. -/
  | disconnect
  deriving DecidableEq, Repr

/-- The closures posted through `Execute`; each captures what it acts on. -/
inductive Job
  /-- A user task. -/
  | task
  /-- `Schedule*`'s `[this, id, ms, cb] { reactor_->Schedule...(...) }` of loop `ℓ`. -/
  | arm (ℓ : Nat)
  /-- `Cancel`'s `[id, this] { ... reactor_->Cancel(id) ... }` of loop `ℓ`. -/
  | cancel (ℓ : Nat)
  /-- `ActiveClose`'s `[=] { destroy(); }` of connection `c`. -/
  | destroy (c : Nat)
  /-- The listener's `create_conn`, capturing the selected `loop`. -/
  | createConn (ℓ : Nat)
  deriving DecidableEq, Repr

/-- The process. -/
structure World where
  /-- The `TcpObject`s made so far, by number. -/
  conns : Nat → Option Tcp
  /-- The number the next `TcpObject` gets. -/
  next : Nat
  /-- The loops that have a bound `TcpListenerObj`. -/
  listeners : List Nat
  /-- `tasks_` of every loop. -/
  inbox : Nat → List Job
  /-- The operations run so far, in order. -/
  log : List Entry

namespace World

/-- Log an operation of loop `ℓ` run on thread `t`. -/
def emit (w : World) (op : Op) (ℓ : Nat) (t : Thread) : World :=
  { w with log := w.log ++ [⟨op, ℓ, t⟩] }

/-- `Execute` off the loop's thread: append the closure to loop `ℓ`'s `tasks_`. -/
def post (w : World) (ℓ : Nat) (j : Job) : World :=
  { w with inbox := Function.update w.inbox ℓ (w.inbox ℓ ++ [j]) }

/-- Set `state_` of connection `c`, which is `o`. -/
def setState (w : World) (c : Nat) (o : Tcp) (st : Conn.State) : World :=
  { w with conns := Function.update w.conns c (some { o with state := st }) }

/-- `HandleConnect` of connection `c` on thread `t`. -/
def handleConnect (w : World) (c : Nat) (o : Tcp) (t : Thread) : World :=
  (w.setState c o .connected).emit .handleConnect o.loop t

/-- `HandleConnectFailed`: `Failed`, then `loop_->Unregister(shared_from_this())`. -/
def handleConnectFailed (w : World) (c : Nat) (o : Tcp) (t : Thread) : World :=
  ((w.setState c o .failed).emit .handleConnectFailed o.loop t).emit .unregister o.loop t

/-- `HandleDisconnect`: `Disconnected`, then `loop_->Unregister(shared_from_this())`. -/
def handleDisconnect (w : World) (c : Nat) (o : Tcp) (t : Thread) : World :=
  ((w.setState c o .disconnected).emit .handleDisconnect o.loop t).emit .unregister o.loop t

/-- `ActiveClose`'s `destroy` closure on thread `t`: disconnect if still connected. -/
def destroy (w : World) (c : Nat) (t : Thread) : World :=
  match w.conns c with
  | some o => if o.state = .connected then w.handleDisconnect c o t else w
  | none => w

/-- `TcpObject::ActiveClose` of connection `c` on thread `t`. -/
def activeClose (w : World) (c : Nat) (t : Thread) : World :=
  match w.conns c with
  | some o => if inThisLoop t o.loop then w.destroy c t else w.post o.loop (.destroy c)
  | none => w

/-- `ScheduleLater`/`ScheduleRepeatedly` of loop `ℓ` on thread `t`. -/
def schedule (w : World) (ℓ : Nat) (t : Thread) : World :=
  if inThisLoop t ℓ then w.emit .schedule ℓ t else w.post ℓ (.arm ℓ)

/-- `Cancel` of loop `ℓ` on thread `t`. -/
def cancel (w : World) (ℓ : Nat) (t : Thread) : World :=
  if inThisLoop t ℓ then w.emit .cancel ℓ t else w.post ℓ (.cancel ℓ)

/-- `Execute(f)` of loop `ℓ` on thread `t`: `f` runs at once (its calls are the thread's next
steps), or is posted. -/
def execute (w : World) (ℓ : Nat) (t : Thread) : World :=
  if inThisLoop t ℓ then w else w.post ℓ .task

/-- `create_conn` on thread `t`: `TcpObject(loop)`, `OnAccept` (whose `HandleConnect` makes it
`Connected`), then `loop->Register(conn, 0)`. -/
def createConn (w : World) (ℓ : Nat) (t : Thread) : World :=
  let w' := { w with conns := Function.update w.conns w.next (some ⟨ℓ, .none⟩), next := w.next + 1 }
  ((w'.emit .onAccept ℓ t).handleConnect w.next ⟨ℓ, .none⟩ t).emit .register ℓ t

/-- `OnNewConnection` of a listener of loop `ℓ₀`, on `ℓ₀`'s thread, the selector having returned
loop `ℓ`: `loop->Execute(std::move(create_conn))`. -/
def onNewConnection (w : World) (ℓ₀ ℓ : Nat) : World :=
  if inThisLoop (.loop ℓ₀) ℓ then w.createConn ℓ (.loop ℓ₀) else w.post ℓ (.createConn ℓ)

/-- A closure posted to loop `ℓ`, run by `ℓ`'s thread. -/
def runJob (w : World) (ℓ : Nat) : Job → World
  | .task => w
  | .arm ℓ' => w.emit .schedule ℓ' (.loop ℓ)
  | .cancel ℓ' => w.emit .cancel ℓ' (.loop ℓ)
  | .destroy c => w.destroy c (.loop ℓ)
  | .createConn ℓ' => w.createConn ℓ' (.loop ℓ)

/-- `EventLoop::Connect` on loop `ℓ`'s thread: `TcpObject(this)`, whose `Connect` registers it
and moves it to `Connecting`. -/
def connect (w : World) (ℓ : Nat) : World :=
  { w with conns := Function.update w.conns w.next (some ⟨ℓ, .connecting⟩), next := w.next + 1 }.emit
    .register ℓ (.loop ℓ)

/-- `EventLoop::Listen` on loop `ℓ`'s thread: a `TcpListenerObj(this)` whose `Bind` registers it. -/
def listen (w : World) (ℓ : Nat) : World :=
  { w with listeners := w.listeners ++ [ℓ] }.emit .register ℓ (.loop ℓ)

end World

/-- The steps of the process. -/
inductive Act
  /-- Thread `t` calls `Execute` of loop `ℓ` with a user task. -/
  | execute (t : Thread) (ℓ : Nat)
  /-- Thread `t` calls `ScheduleLater` or `ScheduleRepeatedly` of loop `ℓ`. -/
  | schedule (t : Thread) (ℓ : Nat)
  /-- Thread `t` calls `Cancel` of loop `ℓ`. -/
  | cancel (t : Thread) (ℓ : Nat)
  /-- Thread `t` calls `ActiveClose` of connection `c`. -/
  | activeClose (t : Thread) (c : Nat)
  /-- Loop `ℓ`'s thread calls its `Connect`; `ok` is whether the socket and `Register` succeed. -/
  | connect (ℓ : Nat) (ok : Bool)
  /-- Loop `ℓ`'s thread calls its `Listen`. -/
  | listen (ℓ : Nat)
  /-- The reactor of loop `ℓ₀` accepts a connection on a listener of `ℓ₀`, and the listener's
  selector returns loop `ℓ`. -/
  | accept (ℓ₀ ℓ : Nat)
  /-- The reactor of connection `c`'s loop delivers an event to `c` that runs handler `h`. -/
  | event (c : Nat) (h : Handler)
  /-- Loop `ℓ`'s thread runs the next closure of its `tasks_`. -/
  | run (ℓ : Nat)

open World

/-- One step; `none` when it is not enabled. -/
def step (w : World) : Act → Option World
  | .execute t ℓ => some (w.execute ℓ t)
  | .schedule t ℓ => some (w.schedule ℓ t)
  | .cancel t ℓ => some (w.cancel ℓ t)
  | .activeClose t c => some (w.activeClose c t)
  | .connect ℓ ok => some (if ok then w.connect ℓ else w)
  | .listen ℓ => some (w.listen ℓ)
  | .accept ℓ₀ ℓ => if ℓ₀ ∈ w.listeners then some (w.onNewConnection ℓ₀ ℓ) else none
  | .event c h => (w.conns c).map fun o =>
      match h with
      | .connect => w.handleConnect c o (.loop o.loop)
      | .connectFailed => w.handleConnectFailed c o (.loop o.loop)
      | .disconnect => w.handleDisconnect c o (.loop o.loop)
  | .run ℓ => match w.inbox ℓ with
      | j :: rest => some ({ w with inbox := Function.update w.inbox ℓ rest }.runJob ℓ j)
      | [] => none

/-- A process before any call: no connection, no listener, nothing queued. -/
def World.init : World := ⟨fun _ => none, 0, [], fun _ => [], []⟩

/-- The process, over every interleaving of its threads. -/
def machine : Machine World Act where
  init w := w = World.init
  step w a w' := step w a = some w'

/-! ### Operations of one loop on one thread -/

/-- The loop a closure acts on. -/
def Job.target (w : World) : Job → Option Nat
  | .task => none
  | .arm ℓ | .cancel ℓ | .createConn ℓ => some ℓ
  | .destroy c => (w.conns c).map Tcp.loop

/-- Every operation of `log` ran on its owner's thread. -/
def OwnThread (log : List Entry) : Prop := ∀ e ∈ log, e.thread = .loop e.owner

@[simp] theorem ownThread_append {l l' : List Entry} :
    OwnThread (l ++ l') ↔ OwnThread l ∧ OwnThread l' := by
  simp only [OwnThread, List.mem_append, or_imp, forall_and]

@[simp] theorem ownThread_singleton {op : Op} {ℓ : Nat} {t : Thread} :
    OwnThread [⟨op, ℓ, t⟩] ↔ t = .loop ℓ := by
  simp [OwnThread]

/-- `w'` is `w` after operations of loop `ℓ` run on thread `t`: the log grows by them alone, the
inboxes stay, every connection keeps its loop and the free numbers stay free. -/
structure Local (w w' : World) (ℓ : Nat) (t : Thread) : Prop where
  /-- The new operations are `ℓ`'s, on `t`. -/
  log : ∃ new, w'.log = w.log ++ new ∧ ∀ e ∈ new, e.owner = ℓ ∧ e.thread = t
  /-- Nothing is posted. -/
  inbox : w'.inbox = w.inbox
  /-- `loop_` never changes. -/
  conns : ∀ c ℓ', (w.conns c).map Tcp.loop = some ℓ' → (w'.conns c).map Tcp.loop = some ℓ'
  /-- The numbers from `next` on stay free. -/
  fresh : (∀ c, w.next ≤ c → w.conns c = none) → ∀ c, w'.next ≤ c → w'.conns c = none

section Local

variable {w w' w'' : World} {ℓ : Nat} {t : Thread}

theorem Local.refl : Local w w ℓ t :=
  ⟨⟨[], by simp, by simp⟩, rfl, fun _ _ h => h, id⟩

theorem Local.trans (h : Local w w' ℓ t) (h' : Local w' w'' ℓ t) : Local w w'' ℓ t := by
  obtain ⟨n, hn, hn'⟩ := h.log
  obtain ⟨n', hm, hm'⟩ := h'.log
  refine ⟨⟨n ++ n', by rw [hm, hn, List.append_assoc], fun e he => ?_⟩, h'.inbox.trans h.inbox,
    fun c ℓ' hc => h'.conns c ℓ' (h.conns c ℓ' hc), fun hf => h'.fresh (h.fresh hf)⟩
  rcases List.mem_append.1 he with he | he
  exacts [hn' e he, hm' e he]

theorem emit_local (op : Op) : Local w (w.emit op ℓ t) ℓ t :=
  ⟨⟨[⟨op, ℓ, t⟩], rfl, by simp⟩, rfl, fun _ _ h => h, id⟩

theorem setState_local {c : Nat} {o : Tcp} (ho : w.conns c = some o) (st : Conn.State) :
    Local w (w.setState c o st) ℓ t := by
  refine ⟨⟨[], by simp [setState], by simp⟩, rfl, fun k ℓ' h => ?_, fun hf k hk => ?_⟩
  · by_cases hk : k = c
    · subst hk; simpa [setState, ho] using h
    · simpa [setState, hk] using h
  · have hne : k ≠ c := by rintro rfl; simp [hf k hk] at ho
    simpa [setState, hne] using hf k hk

theorem handleConnect_local {c : Nat} {o : Tcp} (ho : w.conns c = some o) :
    Local w (w.handleConnect c o t) o.loop t :=
  (setState_local ho _).trans (emit_local _)

theorem handleConnectFailed_local {c : Nat} {o : Tcp} (ho : w.conns c = some o) :
    Local w (w.handleConnectFailed c o t) o.loop t :=
  ((setState_local ho _).trans (emit_local _)).trans (emit_local _)

theorem handleDisconnect_local {c : Nat} {o : Tcp} (ho : w.conns c = some o) :
    Local w (w.handleDisconnect c o t) o.loop t :=
  ((setState_local ho _).trans (emit_local _)).trans (emit_local _)

theorem destroy_local {c : Nat} {o : Tcp} (ho : w.conns c = some o) :
    Local w (w.destroy c t) o.loop t := by
  simp only [destroy, ho]
  split
  · exact handleDisconnect_local ho
  · exact .refl

/-- Adding a new connection of loop `ℓ` at the next free number. -/
theorem make_local (hf : ∀ c, w.next ≤ c → w.conns c = none) (st : Conn.State) :
    Local w { w with conns := Function.update w.conns w.next (some ⟨ℓ, st⟩), next := w.next + 1 }
      ℓ t := by
  refine ⟨⟨[], by simp, by simp⟩, rfl, fun k ℓ' h => ?_, fun _ k hk => ?_⟩
  · have hne : k ≠ w.next := by rintro rfl; simp [hf _ (Nat.le_refl _)] at h
    simpa [hne] using h
  · simp only at hk
    simp [show k ≠ w.next by omega, hf k (by omega)]

theorem createConn_local (hf : ∀ c, w.next ≤ c → w.conns c = none) :
    Local w (w.createConn ℓ t) ℓ t :=
  (((make_local hf _).trans (emit_local _)).trans
    (handleConnect_local (o := ⟨ℓ, .none⟩) (by simp [emit]))).trans (emit_local _)

theorem connect_local (hf : ∀ c, w.next ≤ c → w.conns c = none) :
    Local w (w.connect ℓ) ℓ (.loop ℓ) :=
  (make_local hf _).trans (emit_local _)

theorem listen_local : Local w (w.listen ℓ) ℓ (.loop ℓ) :=
  have h : Local w { w with listeners := w.listeners ++ [ℓ] } ℓ (.loop ℓ) :=
    ⟨⟨[], by simp, by simp⟩, rfl, fun _ _ h => h, id⟩
  h.trans (emit_local _)

end Local

/-! ### Every run keeps the invariant -/

/-- The invariant of the process. -/
structure Inv (w : World) : Prop where
  /-- The numbers from `next` on are free. -/
  fresh : ∀ c, w.next ≤ c → w.conns c = none
  /-- Every closure queued on loop `ℓ`, but a user task, acts on `ℓ`. -/
  inbox : ∀ ℓ, ∀ j ∈ w.inbox ℓ, j = .task ∨ j.target w = some ℓ
  /-- Every operation so far ran on its owner's thread. -/
  log : OwnThread w.log

section Runs

variable {w w' : World} {ℓ : Nat} {t : Thread}

theorem target_local {j : Job} (h : Local w w' ℓ t) {ℓ' : Nat} (hj : j.target w = some ℓ') :
    j.target w' = some ℓ' := by
  cases j with
  | destroy c => exact h.conns c ℓ' hj
  | _ => exact hj

/-- Operations of loop `ℓ` run on `ℓ`'s own thread keep `Inv`. -/
theorem inv_local (hi : Inv w) (h : Local w w' ℓ (.loop ℓ)) : Inv w' := by
  obtain ⟨n, hn, hn'⟩ := h.log
  refine ⟨h.fresh hi.fresh, fun ℓ' j hj => ?_, ?_⟩
  · rw [h.inbox] at hj
    exact (hi.inbox ℓ' j hj).imp_right (target_local h)
  · rw [hn, ownThread_append]
    exact ⟨hi.log, fun e he => by rw [(hn' e he).2, (hn' e he).1]⟩

/-- Posting to loop `ℓ` a closure that acts on `ℓ` keeps `Inv`. -/
theorem inv_post {j : Job} (hi : Inv w) (hj : j = .task ∨ j.target w = some ℓ) :
    Inv (w.post ℓ j) := by
  refine ⟨hi.fresh, fun ℓ' j' h => ?_, hi.log⟩
  simp only [post, Function.update_apply] at h
  split at h
  · rename_i e; subst e
    rcases List.mem_append.1 h with h | h
    · exact hi.inbox _ j' h
    · rw [List.mem_singleton.1 h]; exact hj
  · exact hi.inbox ℓ' j' h

/-- Taking the head closure off loop `ℓ`'s inbox keeps `Inv`. -/
theorem inv_pop {j : Job} {rest : List Job} (hi : Inv w) (h : w.inbox ℓ = j :: rest) :
    Inv { w with inbox := Function.update w.inbox ℓ rest } := by
  refine ⟨hi.fresh, fun ℓ' j' h' => ?_, hi.log⟩
  simp only [Function.update_apply] at h'
  split at h'
  · rename_i e; subst e
    exact hi.inbox _ j' (by rw [h]; exact List.mem_cons_of_mem _ h')
  · exact hi.inbox ℓ' j' h'

/-- Running a closure that acts on loop `ℓ`, on `ℓ`'s thread, keeps `Inv`. -/
theorem inv_runJob {j : Job} (hi : Inv w) (hj : j = .task ∨ j.target w = some ℓ) :
    Inv (w.runJob ℓ j) := by
  rcases hj with rfl | hj
  · exact hi
  cases j with
  | task => exact hi
  | arm ℓ' => cases hj; exact inv_local hi (emit_local _)
  | cancel ℓ' => cases hj; exact inv_local hi (emit_local _)
  | destroy c =>
    obtain ⟨o, ho, rfl⟩ := Option.map_eq_some'.1 hj
    exact inv_local hi (destroy_local ho)
  | createConn ℓ' => cases hj; exact inv_local hi (createConn_local hi.fresh)

theorem inv_step {a : Act} (hi : Inv w) (h : step w a = some w') : Inv w' := by
  cases a with
  | execute t ℓ =>
    cases h; unfold World.execute; split
    · exact hi
    · exact inv_post hi (.inl rfl)
  | schedule t ℓ =>
    cases h; unfold World.schedule; split
    · rename_i ht; rw [eq_of_inThisLoop ht]; exact inv_local hi (emit_local _)
    · exact inv_post hi (.inr rfl)
  | cancel t ℓ =>
    cases h; unfold World.cancel; split
    · rename_i ht; rw [eq_of_inThisLoop ht]; exact inv_local hi (emit_local _)
    · exact inv_post hi (.inr rfl)
  | activeClose t c =>
    cases h; unfold World.activeClose; split
    · rename_i o ho
      split
      · rename_i ht; rw [eq_of_inThisLoop ht]; exact inv_local hi (destroy_local ho)
      · exact inv_post hi (.inr (by simp [Job.target, ho]))
    · exact hi
  | connect ℓ ok =>
    cases h; split
    · exact inv_local hi (connect_local hi.fresh)
    · exact hi
  | listen ℓ => cases h; exact inv_local hi listen_local
  | accept ℓ₀ ℓ =>
    simp only [step] at h
    split at h
    · cases h; unfold World.onNewConnection; split
      · rename_i ht; cases eq_of_inThisLoop ht; exact inv_local hi (createConn_local hi.fresh)
      · exact inv_post hi (.inr rfl)
    · cases h
  | event c hd =>
    obtain ⟨o, ho, rfl⟩ := Option.map_eq_some'.1 h
    cases hd
    · exact inv_local hi (handleConnect_local ho)
    · exact inv_local hi (handleConnectFailed_local ho)
    · exact inv_local hi (handleDisconnect_local ho)
  | run ℓ =>
    simp only [step] at h
    split at h
    · rename_i j rest hj
      cases h
      exact inv_runJob (inv_pop hi hj) ((hi.inbox ℓ j (by simp [hj])).imp_right fun h => h)
    · cases h

theorem inv_of_reachable (hw : machine.Reachable w) : Inv w :=
  hw.rec_inv (fun _ h => h ▸ ⟨fun _ _ => rfl, fun _ _ h => (by cases h), fun _ h => (by cases h)⟩)
    fun _ _ _ hi h => inv_step hi h

/-- **Thread affinity.**  Along every interleaving of the loops' threads and the other threads,
every registry, reactor and `TcpObject` operation runs on the thread of the loop that owns it,
so its `InThisLoop` assertion holds. -/
theorem affinity (hw : machine.Reachable w) :
    ∀ e ∈ w.log, e.thread = .loop e.owner ∧ inThisLoop e.thread e.owner = true := fun e he => by
  have h := (inv_of_reachable hw).log e he
  exact ⟨h, by rw [h]; exact inThisLoop_loop _⟩

/-- A listener of loop `0` routes a connection to loop `1`, and another thread closes it: the
accept closure, the close and every operation they make run on loop `1`'s thread. -/
theorem affinity_routed :
    ∃ w, machine.Reachable w ∧ w.log = [⟨.register, 0, .loop 0⟩, ⟨.onAccept, 1, .loop 1⟩,
      ⟨.handleConnect, 1, .loop 1⟩, ⟨.register, 1, .loop 1⟩, ⟨.handleDisconnect, 1, .loop 1⟩,
      ⟨.unregister, 1, .loop 1⟩] ∧
      ∀ e ∈ w.log, e.thread = .loop e.owner ∧ inThisLoop e.thread e.owner = true := by
  obtain ⟨w, hw, hl⟩ := Option.map_eq_some'.1 (show (Machine.runList step World.init
      [.listen 0, .accept 0 1, .run 1, .activeClose (.other 0) 0, .run 1]).map World.log =
      some [⟨.register, 0, .loop 0⟩, ⟨.onAccept, 1, .loop 1⟩, ⟨.handleConnect, 1, .loop 1⟩,
        ⟨.register, 1, .loop 1⟩, ⟨.handleDisconnect, 1, .loop 1⟩, ⟨.unregister, 1, .loop 1⟩] by
    decide)
  have hr : machine.Reachable w := Machine.Reachable.of_runList (fun _ _ _ h => h) rfl _ hw
  exact ⟨w, hr, hl, affinity hr⟩

end Runs

end Affinity

end PikiwiNet
