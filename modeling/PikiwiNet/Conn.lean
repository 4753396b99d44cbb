import PikiwiNet.Registry
import PikiwiNet.Consume

/-!
# The state machine of `TcpObject`

A `TcpObject` is made by `EventLoop::Connect` (which calls `TcpObject::Connect`: it registers the
object with an empty event mask and moves to `Connecting`) or by the accept closure of
`TcpListenerObj::OnNewConnection` (which calls `OnAccept`, that is `HandleConnect`, and only then
registers the object).  From then on libevent drives it through `OnEvent` and `OnRecvData`, and
`ActiveClose` (from user code on the loop thread, from the idle timer, or posted from another
thread) runs the same `destroy` closure.  `HandleDisconnect` and `HandleConnectFailed` report to
the user and unregister the object.

The user's callbacks run inside these handlers.  The model records, in the order they happen,
the calls of the four callbacks and every assertion that fails (a release build goes on past
it, and so does the model).  `HandleConnect`, `HandleDisconnect` and `HandleConnectFailed` call
`on_new_conn_`, `on_disconnect_` and `on_fail_` only if they are set (`EventLoop::Connect` sets
`on_new_conn_` and `on_fail_` from its arguments and never sets `on_disconnect_`); the setters can
run between any two steps.  A callback's behaviour is data: whether `on_new_conn_` closes the
connection, and for every call of `on_message_` what it returns and whether it first closes the
connection.  The connection's loop registry is the one of `PikiwiNet.Registry`; other objects of
the loop register and unregister in between (`Act.other`).

* `Conn.inv_of_reachable` : in every reachable state the connection reads only once connected,
  and has its `bufferevent` once it has left `None`;
* `Conn.state_step` : a step from `Disconnected` or `Failed` stays there, whichever callbacks
  are set;
* `Conn.recv_close_then_fail` : a message callback that closes the connection and then returns a
  negative count makes `OnRecvData` call `HandleDisconnect` a second time;
* `Conn.error_without_eof_unreported` : a reset reported as `BEV_EVENT_ERROR` without
  `BEV_EVENT_EOF` calls neither callback;
* `Conn.recv_after_close` : one that closes it and returns a positive count is called again on the
  disconnected connection;
* `Conn.accept_close_stays_registered` : a new-connection callback that closes an accepted
  connection leaves a `Disconnected` object in the registry.
-/

namespace PikiwiNet

namespace Conn

open Registry (Obj)

/-- `TcpObject::State`. -/
inductive State
  | none
  | connecting
  | connected
  /-- Unrecoverable, but connected before. -/
  | disconnected
  /-- Unrecoverable, and never connected. -/
  | failed
  deriving DecidableEq, Repr

/-- Where an assertion sits. -/
inductive Site
  /-- `assert(state_ == kNone || state_ == kConnecting)` in `HandleConnect`. -/
  | handleConnect
  /-- `assert(state_ == kConnected)` in `HandleDisconnect`. -/
  | handleDisconnect
  /-- `assert(state_ == kConnecting)` in `HandleConnectFailed`. -/
  | handleConnectFailed
  /-- `assert(id >= 0)` and `assert(objects_.count(id) == 1)` in `EventLoop::Unregister`. -/
  | unregister
  /-- `assert(obj->GetUniqueId() == -1)` in `EventLoop::Register`. -/
  | register
  deriving DecidableEq, Repr

/-- What happens that the user can see, or that fails an assertion. -/
inductive Obs
  /-- `on_new_conn_(this)`. -/
  | newConn
  /-- `on_message_(...)`, called while the connection is in the given state. -/
  | message (st : State)
  /-- `on_disconnect_(this)`. -/
  | disconnect
  /-- `on_fail_(loop_, ip, port)`. -/
  | connectFail
  /-- An assertion fails. -/
  | assertFail (site : Site)
  deriving DecidableEq, Repr

/-- libevent's `BEV_EVENT_EOF`. -/
def bevEventEof : Nat := 0x10

/-- libevent's `BEV_EVENT_ERROR`. -/
def bevEventError : Nat := 0x20

/-- libevent's `BEV_EVENT_CONNECTED`. -/
def bevEventConnected : Nat := 0x80

/-- A connection and its loop's registry. -/
structure World where
  /-- The object itself (`this`). -/
  self : Obj
  /-- `state_`. -/
  state : State
  /-- `bev_` is set, with `OnEvent` as its event callback. -/
  bev : Bool
  /-- `OnRecvData` is its read callback and reading is enabled (`HandleConnect`). -/
  reading : Bool
  /-- `on_new_conn_` is set. -/
  onNewConn : Bool
  /-- `on_disconnect_` is set. -/
  onDisconnect : Bool
  /-- `on_fail_` is set. -/
  onFail : Bool
  /-- The loop's registry. -/
  reg : Registry.St
  /-- What has happened, in order. -/
  log : List Obs

namespace World

/-- Append an observation. -/
def emit (w : World) (o : Obs) : World := { w with log := w.log ++ [o] }

/-- `if (cb) cb(...)`: a callback is called only if it is set. -/
def report (w : World) (set : Bool) (o : Obs) : World :=
  if set then w.emit o else w

/-- `assert(b)`: a release build records the failure and goes on. -/
def check (w : World) (b : Bool) (site : Site) : World :=
  if b then w else w.emit (.assertFail site)

/-- `loop_->Unregister(shared_from_this())`. -/
def unregisterSelf (w : World) : World :=
  let w := w.check (decide (0 ≤ w.reg.uid w.self) && (w.reg.objects (w.reg.uid w.self)).isSome)
    .unregister
  { w with reg := Registry.unregister w.reg w.self }

/-- `loop->Register(conn, 0)`; `none` when the id allocation never ends. -/
def registerSelf (w : World) : Option (Bool × World) :=
  let w := w.check (decide (w.reg.uid w.self = -1)) .register
  (Registry.register w.reg w.self 0).map fun (b, reg) => (b, { w with reg := reg })

/-- `HandleDisconnect`. -/
def handleDisconnect (w : World) : World :=
  let w := w.check (decide (w.state = .connected)) .handleDisconnect
  unregisterSelf ({ w with state := .disconnected }.report w.onDisconnect .disconnect)

/-- The `destroy` closure of `ActiveClose`: disconnect if still connected. -/
def destroy (w : World) : World :=
  if w.state = .connected then handleDisconnect w else w

/-- `HandleConnect`; `closes` is whether `on_new_conn_`, if set, calls `ActiveClose`. -/
def handleConnect (closes : Bool) (w : World) : World :=
  let w := w.check (decide (w.state = .none ∨ w.state = .connecting)) .handleConnect
  let w := { w with state := .connected, reading := true }.report w.onNewConn .newConn
  if w.onNewConn && closes then destroy w else w

/-- `HandleConnectFailed`. -/
def handleConnectFailed (w : World) : World :=
  let w := w.check (decide (w.state = .connecting)) .handleConnectFailed
  unregisterSelf ({ w with state := .failed }.report w.onFail .connectFail)

/-- `OnEvent(bev, events)`; `closes` is the behaviour of `on_new_conn_` should it run. -/
def onEvent (mask : Nat) (closes : Bool) (w : World) : World :=
  match w.state with
  | .connecting => if mask &&& bevEventConnected ≠ 0 then handleConnect closes w
      else handleConnectFailed w
  | .connected => if mask &&& bevEventEof ≠ 0 then handleDisconnect w else w
  | _ => w

/-- The calls of `on_message_` of one batch, from call number `k` on; `closes k` is whether the
`k`-th call closes the connection before it returns.  `OnRecvData` calls it without checking
that it is set. -/
def deliver (closes : Nat → Bool) : Nat → List Consume.Call → World → World
  | _, [], w => w
  | k, _ :: cs, w =>
    let w := w.emit (.message w.state)
    deliver closes (k + 1) cs (if closes k then destroy w else w)

/-- `OnRecvData` once its consume loop has made the calls of `r`. -/
def onRecv (r : Consume.Recv) (closes : Nat → Bool) (w : World) : World :=
  let w := deliver closes 0 r.calls w
  if r.disconnect then handleDisconnect w else w

/-- `TcpObject::Connect` on a new object; `bevOk` is whether `bufferevent_socket_new` succeeds
and `connOk` whether `bufferevent_socket_connect` does. -/
def connect (bevOk connOk : Bool) (w : World) : Option World :=
  if w.state ≠ .none || !bevOk || !connOk then some w
  else (registerSelf w).map fun (b, w) => if b then { w with bev := true, state := .connecting } else w

/-- The accept closure `create_conn`: `OnAccept` (that is `HandleConnect`), then `Register`. -/
def createConn (closes : Bool) (w : World) : Option World :=
  (registerSelf (handleConnect closes { w with bev := true })).map Prod.snd

end World

/-- What drives a connection. -/
inductive Act
  /-- `EventLoop::Connect` makes the object and calls `TcpObject::Connect`. -/
  | connect (bevOk connOk : Bool)
  /-- The accept closure makes the object; `closes` is the behaviour of `on_new_conn_`. -/
  | accept (closes : Bool)
  /-- libevent calls `OnEvent` with `mask`. -/
  | event (mask : Nat) (closes : Bool)
  /-- libevent calls `OnRecvData` on `n` buffered bytes; the message callback returns `cb` and
  closes the connection at the calls `closes` says. -/
  | recv (n : Nat) (cb : Consume.Callback) (closes : Nat → Bool) (fuel : Nat)
  /-- `ActiveClose` on the loop thread, or its posted `destroy`. -/
  | close
  /-- `SetNewConnCallback`, `SetOnDisconnect` and `SetFailCallback`: each callback is set, or
  cleared with an empty function. -/
  | setCallbacks (newConn disconnect fail : Bool)
  /-- Another object of the loop is registered, modified or unregistered. -/
  | other (a : Registry.Act)

/-- A registry call that is not about the object `o`, and not the teardown. -/
def OtherAct (o : Obj) : Registry.Act → Prop
  | .register o' _ | .modify o' _ | .unregister o' => o' ≠ o
  | .teardown => False
  | .share _ => True

/-- One step of a connection. -/
def Step (w : World) : Act → World → Prop
  | .connect bevOk connOk, w' => w.log = [] ∧ w.bev = false ∧ w.connect bevOk connOk = some w'
  | .accept closes, w' => w.log = [] ∧ w.bev = false ∧ w.createConn closes = some w'
  | .event mask closes, w' => w.bev = true ∧ w' = w.onEvent mask closes
  | .recv n cb closes fuel, w' => w.reading = true ∧
      ∃ r, Consume.onRecvData cb n fuel = some r ∧ w' = w.onRecv r closes
  | .close, w' => w' = w.destroy
  | .setCallbacks newConn disconnect fail, w' =>
      w' = { w with onNewConn := newConn, onDisconnect := disconnect, onFail := fail }
  | .other a, w' => OtherAct w.self a ∧ ∃ reg, Registry.Step w.reg a reg ∧
      w' = { w with reg := reg }

/-- The connections of a loop: a new object, not registered, in a reachable registry, with any of
its callbacks set. -/
def machine : Machine World Act where
  init w := w.state = .none ∧ w.bev = false ∧ w.reading = false ∧ w.log = [] ∧
    Registry.machine.Reachable w.reg ∧ w.reg.uid w.self = -1
  step := Step

/-- Object `0`, new, with all its callbacks set, in a fresh loop whose generator holds `0`. -/
def World.fresh : World := ⟨0, .none, false, false, true, true, true, Registry.St.fresh 0, []⟩

theorem reachable_fresh : machine.Reachable World.fresh :=
  ⟨_, ⟨rfl, rfl, rfl, rfl, Registry.reachable_fresh (by decide), rfl⟩, .refl⟩

/-! ### What every run keeps -/

/-- The invariant of a connection: it reads only once connected, and it has its `bufferevent`
once it has left `None`. -/
structure Inv (w : World) : Prop where
  reading : w.reading = true → w.state = .connected ∨ w.state = .disconnected
  bev : w.state ≠ .none → w.bev = true

namespace World

variable {w w' : World}

@[simp] theorem check_state (b : Bool) (site : Site) : (w.check b site).state = w.state := by
  unfold check; split <;> rfl

@[simp] theorem check_reading (b : Bool) (site : Site) : (w.check b site).reading = w.reading := by
  unfold check; split <;> rfl

@[simp] theorem check_bev (b : Bool) (site : Site) : (w.check b site).bev = w.bev := by
  unfold check; split <;> rfl

@[simp] theorem report_state (b : Bool) (o : Obs) : (w.report b o).state = w.state := by
  unfold report; split <;> rfl

@[simp] theorem report_reading (b : Bool) (o : Obs) : (w.report b o).reading = w.reading := by
  unfold report; split <;> rfl

@[simp] theorem report_bev (b : Bool) (o : Obs) : (w.report b o).bev = w.bev := by
  unfold report; split <;> rfl

@[simp] theorem report_onNewConn (b : Bool) (o : Obs) : (w.report b o).onNewConn = w.onNewConn := by
  unfold report; split <;> rfl

@[simp] theorem unregisterSelf_state : w.unregisterSelf.state = w.state := check_state _ _

@[simp] theorem unregisterSelf_reading : w.unregisterSelf.reading = w.reading := check_reading _ _

@[simp] theorem unregisterSelf_bev : w.unregisterSelf.bev = w.bev := check_bev _ _

@[simp] theorem handleDisconnect_state : w.handleDisconnect.state = .disconnected := by
  simp [handleDisconnect]

@[simp] theorem handleDisconnect_reading : w.handleDisconnect.reading = w.reading := by
  simp [handleDisconnect]

@[simp] theorem handleDisconnect_bev : w.handleDisconnect.bev = w.bev := by
  simp [handleDisconnect]

@[simp] theorem handleConnectFailed_state : w.handleConnectFailed.state = .failed := by
  simp [handleConnectFailed]

@[simp] theorem handleConnectFailed_reading : w.handleConnectFailed.reading = w.reading := by
  simp [handleConnectFailed]

@[simp] theorem handleConnectFailed_bev : w.handleConnectFailed.bev = w.bev := by
  simp [handleConnectFailed]

/-- A step that moves neither the state, nor reading, nor `bev_` keeps `Inv`. -/
theorem inv_frame (hi : Inv w) (hs : w'.state = w.state) (hr : w'.reading = w.reading)
    (hb : w'.bev = w.bev) : Inv w' :=
  ⟨hs ▸ hr ▸ hi.reading, hs ▸ hb ▸ hi.bev⟩

theorem inv_registerSelf {b : Bool} (hi : Inv w) (h : w.registerSelf = some (b, w')) :
    Inv w' ∧ w'.state = w.state := by
  obtain ⟨⟨b', reg⟩, -, e⟩ := Option.map_eq_some'.1 h
  cases e
  exact ⟨inv_frame hi (by simp) (by simp) (by simp), by simp⟩

/-- `HandleDisconnect` of a connection that is connected, or already disconnected. -/
theorem inv_handleDisconnect (hi : Inv w) (hs : w.state = .connected ∨ w.state = .disconnected) :
    Inv w.handleDisconnect :=
  ⟨fun _ => by simp, fun _ => by rw [handleDisconnect_bev]; exact hi.bev (by
    rcases hs with h | h <;> simp [h])⟩

theorem inv_destroy (hi : Inv w) : Inv w.destroy := by
  unfold destroy; split
  · exact inv_handleDisconnect hi (.inl ‹_›)
  · exact hi

theorem destroy_of_ne (h : w.state ≠ .connected) : w.destroy = w := by
  simp [destroy, h]

/-- A live connection (connected, or disconnected but still read) stays live. -/
theorem destroy_live (hs : w.state = .connected ∨ w.state = .disconnected) :
    w.destroy.state = .connected ∨ w.destroy.state = .disconnected := by
  unfold destroy; split
  · exact .inr handleDisconnect_state
  · exact hs

@[simp] theorem destroy_reading : w.destroy.reading = w.reading := by
  unfold destroy; split <;> simp

/-- `HandleConnect` of a connection that has its `bufferevent`: whatever state it was in, it
ends connected, or disconnected by `on_new_conn_`. -/
theorem inv_handleConnect (closes : Bool) (hb : w.bev = true) :
    Inv (w.handleConnect closes) ∧ ((w.handleConnect closes).state = .connected ∨
      (w.handleConnect closes).state = .disconnected) := by
  have h₁ : ∀ v : World, v.bev = true → Inv ({ v with state := .connected, reading := true }.report
      v.onNewConn .newConn) := fun _ hb => ⟨fun _ => .inl (by simp), fun _ => by simp [hb]⟩
  simp only [handleConnect]
  split
  · exact ⟨inv_destroy (h₁ _ (by simpa using hb)), destroy_live (.inl (by simp))⟩
  · exact ⟨h₁ _ (by simpa using hb), .inl (by simp)⟩

theorem inv_onEvent (mask : Nat) (closes : Bool) (hi : Inv w) : Inv (w.onEvent mask closes) := by
  unfold onEvent
  split
  · rename_i hs
    have hb := hi.bev (by simp [hs])
    split
    · exact (inv_handleConnect closes hb).1
    · have hr : w.reading = false := by
        cases h : w.reading
        · rfl
        · rcases hi.reading h with h' | h' <;> simp [hs] at h'
      exact ⟨by simp [hr], fun _ => by simpa using hb⟩
  · split
    · exact inv_handleDisconnect hi (.inl ‹_›)
    · exact hi
  · exact hi

/-- The calls of `on_message_` keep `Inv` and keep the connection live. -/
theorem inv_deliver (closes : Nat → Bool) :
    ∀ (k : Nat) (cs : List Consume.Call) (w : World), Inv w →
      (w.state = .connected ∨ w.state = .disconnected) →
      Inv (deliver closes k cs w) ∧
        ((deliver closes k cs w).state = .connected ∨ (deliver closes k cs w).state = .disconnected)
  | _, [], w, hi, hs => ⟨hi, hs⟩
  | k, _ :: cs, w, hi, hs => by
    have hm : Inv (w.emit (.message w.state)) := inv_frame hi rfl rfl rfl
    refine inv_deliver closes (k + 1) cs _ ?_ ?_ <;> split
    exacts [inv_destroy hm, hm, destroy_live hs, hs]

theorem inv_onRecv (r : Consume.Recv) (closes : Nat → Bool) (hi : Inv w)
    (hs : w.state = .connected ∨ w.state = .disconnected) : Inv (w.onRecv r closes) := by
  obtain ⟨hi', hs'⟩ := inv_deliver closes 0 r.calls w hi hs
  unfold onRecv; split
  · exact inv_handleDisconnect hi' hs'
  · exact hi'

end World

open World

theorem inv_step {w w' : World} {a : Act} (hi : Inv w) (h : Step w a w') : Inv w' := by
  have hnone : w.bev = false → w.state = .none := fun hb => by
    by_contra hs; simp [hi.bev hs] at hb
  cases a with
  | connect bevOk connOk =>
    obtain ⟨-, hb, h⟩ := h
    have hs := hnone hb
    unfold World.connect at h
    split at h
    · cases h; exact hi
    · obtain ⟨⟨b, w₁⟩, h₁, rfl⟩ := Option.map_eq_some'.1 h
      obtain ⟨hi₁, hs₁⟩ := inv_registerSelf hi h₁
      cases b
      · exact hi₁
      · have hr : w₁.reading = false := by
          cases h : w₁.reading
          · rfl
          · rcases hi₁.reading h with h' | h' <;> simp [hs₁, hs] at h'
        exact ⟨by simp [hr], fun _ => rfl⟩
  | accept closes =>
    obtain ⟨-, hb, h⟩ := h
    obtain ⟨⟨b, w₁⟩, h₁, rfl⟩ := Option.map_eq_some'.1 h
    exact (inv_registerSelf (inv_handleConnect closes (w := { w with bev := true }) rfl).1 h₁).1
  | event mask closes => obtain ⟨-, rfl⟩ := h; exact inv_onEvent mask closes hi
  | recv n cb closes fuel =>
    obtain ⟨hr, r, -, rfl⟩ := h
    exact inv_onRecv r closes hi (hi.reading hr)
  | close => cases h; exact inv_destroy hi
  | setCallbacks _ _ _ => cases h; exact inv_frame hi rfl rfl rfl
  | other a => obtain ⟨-, reg, -, rfl⟩ := h; exact inv_frame hi rfl rfl rfl

theorem inv_of_reachable {w : World} (hw : machine.Reachable w) : Inv w :=
  hw.rec_inv (fun _ ⟨hs, _, hr, _⟩ => ⟨fun h => by simp [hr] at h, fun h => absurd hs h⟩)
    fun _ _ _ hi h => inv_step hi h

theorem deliver_disconnected (closes : Nat → Bool) :
    ∀ (k : Nat) (cs : List Consume.Call) (w : World), w.state = .disconnected →
      (deliver closes k cs w).state = .disconnected
  | _, [], _, hs => hs
  | k, _ :: cs, w, hs => by
    simp only [deliver]
    apply deliver_disconnected closes (k + 1) cs
    split
    · rw [destroy_of_ne (by simp [emit, hs])]; exact hs
    · exact hs

/-- A step from `Disconnected` or `Failed` stays there. -/
theorem state_step {w w' : World} {a : Act} (hi : Inv w)
    (ht : w.state = .disconnected ∨ w.state = .failed) (h : Step w a w') : w'.state = w.state := by
  have hb : w.bev = true := hi.bev (by rcases ht with h | h <;> simp [h])
  cases a with
  | connect _ _ => simp [Step, hb] at h
  | accept _ => simp [Step, hb] at h
  | event mask closes =>
    obtain ⟨-, rfl⟩ := h
    unfold World.onEvent
    rcases ht with ht | ht <;> simp [ht]
  | recv n cb closes fuel =>
    obtain ⟨hr, r, -, rfl⟩ := h
    have hs : w.state = .disconnected := by
      rcases hi.reading hr with h | h <;> rcases ht with h' | h' <;> simp_all
    unfold World.onRecv; split
    · rw [handleDisconnect_state, hs]
    · rw [deliver_disconnected closes 0 r.calls w hs, hs]
  | close => cases h; rw [destroy_of_ne (by rcases ht with h | h <;> simp [h])]
  | setCallbacks _ _ _ => cases h; rfl
  | other a => obtain ⟨-, reg, -, rfl⟩ := h; rfl

/-! ### Failing runs -/

/-- An accepted connection whose message callback closes it and then returns `-1` on a 10-byte
batch: `HandleDisconnect` runs a second time, fails its assertion `state_ == kConnected`, and
`on_disconnect_` is called twice. -/
theorem recv_close_then_fail :
    ∃ w, machine.Reachable w ∧ w.log = [.newConn, .message .connected, .disconnect,
      .assertFail .handleDisconnect, .disconnect, .assertFail .unregister] :=
  ⟨_, (reachable_fresh.step (l := Act.accept false) (by exact ⟨rfl, rfl, rfl⟩)).step
    (l := Act.recv 10 (fun _ _ _ => -1) (fun _ => true) 11) (by exact ⟨rfl, _, rfl, rfl⟩), rfl⟩

/-- A connection that reports a reset as `BEV_EVENT_ERROR` without `BEV_EVENT_EOF` while
connected: neither `on_disconnect_` nor `on_fail_` is called, and it stays connected. -/
theorem error_without_eof_unreported :
    ∃ w, machine.Reachable w ∧ w.state = .connected ∧ w.log = [.newConn] :=
  ⟨_, (reachable_fresh.step (l := Act.accept false) (by exact ⟨rfl, rfl, rfl⟩)).step
    (l := Act.event bevEventError false) (by exact ⟨rfl, rfl⟩), rfl, rfl⟩

/-- An accepted connection whose message callback closes it on the first call of a 10-byte batch
and returns 3: the loop goes on calling it on the disconnected connection. -/
theorem recv_after_close :
    ∃ w, machine.Reachable w ∧ w.log = [.newConn, .message .connected, .disconnect,
      .message .disconnected, .message .disconnected, .message .disconnected] :=
  ⟨_, (reachable_fresh.step (l := Act.accept false) (by exact ⟨rfl, rfl, rfl⟩)).step
    (l := Act.recv 10 (fun _ _ l => min 3 l) (fun k => k == 0) 11) (by exact ⟨rfl, _, rfl, rfl⟩),
    rfl⟩

/-- An accepted connection whose `on_new_conn_` closes it: `Unregister` runs before the accept
closure has registered the object and fails its assertion `id >= 0`, and the closure then
registers the disconnected object, which stays in the registry. -/
theorem accept_close_stays_registered :
    ∃ w, machine.Reachable w ∧ w.state = .disconnected ∧ Registry.Registered w.reg w.self ∧
      w.log = [.newConn, .disconnect, .assertFail .unregister] :=
  ⟨_, reachable_fresh.step (l := Act.accept true) (by exact ⟨rfl, rfl, rfl⟩), rfl, by exact rfl, rfl⟩

end Conn

end PikiwiNet
