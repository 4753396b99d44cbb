import PikiwiNet.Conn

/-!
# `TcpObject::SendPacket` along the life of a connection

The three `SendPacket`s of `TcpObject` first test `state_ != kConnected` and return `false`;
a null or empty payload then returns `true` and adds nothing; otherwise the bytes go to the end
of the `bufferevent`'s output buffer (`evbuffer_add`, or `evbuffer_add_iovec` over the first
`nvecs` vectors), which libevent writes to the socket in order.  `SendPacket(const std::string&)`
passes the string's bytes.

The calls are interleaved here with the steps of the connection (`PikiwiNet.Conn`), whichever
of its callbacks are set: a call is made by code on the loop's thread between two handlers; a
call made from inside a user callback (a reply sent by `on_message_`) is not a step of its own.
`out` is the byte stream handed to the output buffer so far.

* `Send.sendIovecs_eq` : the vector form adds the concatenation of its first `nvecs` vectors,
  exactly as the plain form called on that concatenation;
* `Send.live_step` : a connection that has become `Connected` stays `Connected` or
  `Disconnected` over every step;
* **`Send.send_only_while_connected`** : along every run, bytes are in the output buffer only
  once the connection has become `Connected`, it never goes back from there, and once it is
  `Disconnected` or `Failed` no run moves its state or adds a byte to the buffer.

So a connection that the peer has closed stops sending even when no `on_disconnect_` is set and
the user has never been told (`EventLoop::Connect` sets none).
-/

namespace PikiwiNet

namespace Send

open Conn

/-! ### The three calls -/

/-- `TcpObject::SendPacket(const void* data, size_t size)`: the result, and the bytes added to
the output buffer.  `data` is `none` for a null pointer, and otherwise the `size` bytes it
points to. -/
def sendPacket (st : State) (data : Option (List UInt8)) : Bool × List UInt8 :=
  if st ≠ .connected then (false, [])
  else match data with
    | none => (true, [])
    | some d => if d.length = 0 then (true, []) else (true, d)

/-- `SendPacket(const std::string& data)`: `SendPacket(data.data(), data.size())`. -/
def sendString (st : State) (data : List UInt8) : Bool × List UInt8 := sendPacket st (some data)

/-- `SendPacket(const evbuffer_iovec* iovecs, int nvecs)`: `evbuffer_add_iovec` appends the
first `nvecs` vectors, in order.  `iovecs` is `none` for a null pointer; the caller passes no
more vectors than the array holds. -/
def sendIovecs (st : State) (iovecs : Option (List (List UInt8))) (nvecs : Int) :
    Bool × List UInt8 :=
  if st ≠ .connected then (false, [])
  else match iovecs with
    | none => (true, [])
    | some vs => if nvecs ≤ 0 then (true, []) else (true, (vs.take nvecs.toNat).flatten)

@[simp] theorem sendPacket_fst (st : State) (data : Option (List UInt8)) :
    (sendPacket st data).1 = decide (st = .connected) := by
  unfold sendPacket
  split
  · simp_all
  · split
    · simp_all
    · split <;> simp_all

theorem sendPacket_snd_of_ne {st : State} (h : st ≠ .connected) (data : Option (List UInt8)) :
    (sendPacket st data).2 = [] := by
  simp [sendPacket, h]

/-- The vector form is the plain form on the concatenation of the vectors it reads. -/
theorem sendIovecs_eq (st : State) (iovecs : Option (List (List UInt8))) (nvecs : Int) :
    sendIovecs st iovecs nvecs = sendPacket st (iovecs.map fun vs => (vs.take nvecs.toNat).flatten) := by
  unfold sendIovecs sendPacket
  split
  · rfl
  · rcases iovecs with _ | vs
    · rfl
    · dsimp only [Option.map_some']
      split
      · rename_i hn
        rw [Int.toNat_eq_zero.2 hn]
        rfl
      · split
        · rename_i h; rw [List.length_eq_zero.1 h]
        · rfl

/-! ### The states a connection moves through -/

/-- A connection that has become `Connected`: `Connected`, or `Disconnected` after it. -/
def Live (st : State) : Prop := st = .connected ∨ st = .disconnected

/-- A live connection stays live: `Connected` only moves to `Disconnected`, which is never
left. -/
theorem live_step {w w' : Conn.World} {a : Conn.Act} (hi : Conn.Inv w) (hl : Live w.state)
    (h : Conn.Step w a w') : Live w'.state := by
  have hb : w.bev = true := hi.bev (by rcases hl with h | h <;> simp [h])
  cases a with
  | connect _ _ => simp [Conn.Step, hb] at h
  | accept _ => simp [Conn.Step, hb] at h
  | event mask closes =>
    obtain ⟨-, rfl⟩ := h
    unfold World.onEvent
    rcases hl with hs | hs <;> simp only [hs]
    · split
      · exact .inr World.handleDisconnect_state
      · exact .inl hs
    · exact .inr rfl
  | recv n cb closes fuel =>
    obtain ⟨-, r, -, rfl⟩ := h
    have hd := (World.inv_deliver closes 0 r.calls w hi hl).2
    unfold World.onRecv
    split
    · exact .inr World.handleDisconnect_state
    · exact hd
  | close => cases h; exact World.destroy_live hl
  | setCallbacks _ _ _ => cases h; exact hl
  | other a => obtain ⟨-, reg, -, rfl⟩ := h; exact hl

/-! ### Sends interleaved with the connection's steps -/

/-- A connection and the bytes its sends have handed to the output buffer. -/
structure World where
  /-- The connection and its loop's registry. -/
  conn : Conn.World
  /-- The bytes handed to the output buffer so far, in order. -/
  out : List UInt8

/-- What happens to a connection: a step of its own, or a call of a `SendPacket`. -/
inductive Act
  /-- A step of the connection (`PikiwiNet.Conn`). -/
  | conn (a : Conn.Act)
  /-- `SendPacket(data, size)`, or `SendPacket(const std::string&)` with `some` bytes. -/
  | send (data : Option (List UInt8))
  /-- `SendPacket(iovecs, nvecs)`. -/
  | sendv (iovecs : Option (List (List UInt8))) (nvecs : Int)

/-- One step. -/
def Step (w : World) : Act → World → Prop
  | .conn a, w' => ∃ c, Conn.Step w.conn a c ∧ w' = { w with conn := c }
  | .send data, w' => w' = { w with out := w.out ++ (sendPacket w.conn.state data).2 }
  | .sendv iovecs nvecs, w' => w' = { w with out := w.out ++ (sendIovecs w.conn.state iovecs nvecs).2 }

/-- A new connection, with nothing sent. -/
def machine : Machine World Act where
  init w := Conn.machine.init w.conn ∧ w.out = []
  step := Step

/-- Every step is a step of the connection, or a send with some payload. -/
theorem step_cases {w w' : World} {a : Act} (h : Step w a w') :
    (∃ a' c, Conn.Step w.conn a' c ∧ w' = { w with conn := c }) ∨
      ∃ data, w' = { w with out := w.out ++ (sendPacket w.conn.state data).2 } := by
  cases a with
  | conn a' => obtain ⟨c, hc, rfl⟩ := h; exact .inl ⟨a', c, hc, rfl⟩
  | send data => exact .inr ⟨data, h⟩
  | sendv iovecs nvecs => exact .inr ⟨_, by rw [h, sendIovecs_eq]⟩

/-- The invariant: the connection's own, and bytes are sent only on a live connection. -/
structure Inv (w : World) : Prop where
  conn : Conn.Inv w.conn
  out : w.out ≠ [] → Live w.conn.state

theorem inv_step {w w' : World} {a : Act} (hi : Inv w) (h : Step w a w') : Inv w' := by
  rcases step_cases h with ⟨a', c, hc, rfl⟩ | ⟨data, rfl⟩
  · exact ⟨Conn.inv_step hi.conn hc, fun ho => live_step hi.conn (hi.out ho) hc⟩
  · refine ⟨hi.conn, fun ho => ?_⟩
    by_cases hs : w.conn.state = .connected
    · exact .inl hs
    · rw [sendPacket_snd_of_ne hs, List.append_nil] at ho
      exact hi.out ho

theorem inv_of_reachable {w : World} (hw : machine.Reachable w) : Inv w :=
  hw.rec_inv (fun w ⟨hc, ho⟩ => ⟨Conn.inv_of_reachable ⟨w.conn, hc, .refl⟩, fun h => absurd ho h⟩)
    fun _ _ _ hi h => inv_step hi h

/-- From `Disconnected` or `Failed`, no step moves the state or adds a byte. -/
theorem frozen_step {w w' : World} {a : Act} (hi : Inv w)
    (ht : w.conn.state = .disconnected ∨ w.conn.state = .failed) (h : Step w a w') :
    w'.conn.state = w.conn.state ∧ w'.out = w.out := by
  rcases step_cases h with ⟨a', c, hc, rfl⟩ | ⟨data, rfl⟩
  · exact ⟨state_step hi.conn ht hc, rfl⟩
  · refine ⟨rfl, ?_⟩
    rw [sendPacket_snd_of_ne (by rcases ht with h | h <;> simp [h]), List.append_nil]

/-- A property that every step keeps from a reachable state holds all along every run from
it. -/
theorem steps_keep {P : World → Prop} {w : World} (hw : machine.Reachable w) (hP : P w)
    (hstep : ∀ v a v', Inv v → P v → Step v a v' → P v') :
    ∀ w', machine.Steps w w' → P w' := fun _ hs =>
  (hs.invariant (I := fun v => Inv v ∧ P v) ⟨inv_of_reachable hw, hP⟩
    fun _ _ _ ⟨hv, hp⟩ h => ⟨inv_step hv h, hstep _ _ _ hv hp h⟩).2

/-- **Bytes go out only while the connection is up.**  Along every run of a connection with
`SendPacket` calls between its steps, whichever of its callbacks are set: bytes are in the output
buffer only once the connection has become `Connected`; from there it only stays `Connected` or
moves to `Disconnected`; and once it is `Disconnected` or `Failed`, no run moves its state or
adds a byte to the buffer. -/
theorem send_only_while_connected {w : World} (hw : machine.Reachable w) :
    (w.out ≠ [] → Live w.conn.state) ∧
    (Live w.conn.state → ∀ w', machine.Steps w w' → Live w'.conn.state) ∧
    (w.conn.state = .disconnected ∨ w.conn.state = .failed →
      ∀ w', machine.Steps w w' → w'.conn.state = w.conn.state ∧ w'.out = w.out) := by
  refine ⟨(inv_of_reachable hw).out, fun hl => steps_keep hw hl fun _ a _ hv hl h => ?_,
    fun ht => steps_keep hw (P := fun v => v.conn.state = w.conn.state ∧ v.out = w.out) ⟨rfl, rfl⟩
      fun _ _ _ hv ⟨hs, ho⟩ h => ?_⟩
  · rcases step_cases h with ⟨a', c, hc, rfl⟩ | ⟨data, rfl⟩
    exacts [live_step hv.conn hl hc, hl]
  · obtain ⟨hs', ho'⟩ := frozen_step hv (hs ▸ ht) h
    exact ⟨hs'.trans hs, ho'.trans ho⟩

/-- A connection made without an `on_disconnect_` (as `EventLoop::Connect` makes it) sends two
bytes, then the peer hangs up (`BEV_EVENT_EOF`): the user is never told, yet the connection is
`Disconnected` and a later send adds nothing. -/
theorem send_only_while_connected_unreported_hangup :
    ∃ w, machine.Reachable w ∧ w.conn.state = .disconnected ∧ w.conn.log = [.newConn] ∧
      w.out = [104, 105] ∧
      ((w.out ≠ [] → Live w.conn.state) ∧
      (Live w.conn.state → ∀ w', machine.Steps w w' → Live w'.conn.state) ∧
      (w.conn.state = .disconnected ∨ w.conn.state = .failed →
        ∀ w', machine.Steps w w' → w'.conn.state = w.conn.state ∧ w'.out = w.out)) := by
  have h₀ : machine.Reachable
      ⟨⟨0, .none, false, false, true, false, true, Registry.St.fresh 0, []⟩, []⟩ :=
    ⟨_, ⟨⟨rfl, rfl, rfl, rfl, Registry.reachable_fresh (by decide), rfl⟩, rfl⟩, .refl⟩
  have hw := (((h₀.step (l := .conn (.accept false)) (by exact ⟨_, ⟨rfl, rfl, rfl⟩, rfl⟩)).step
    (l := .send (some [104, 105])) (by exact rfl)).step (l := .conn (.event bevEventEof false))
    (by exact ⟨_, ⟨rfl, rfl⟩, rfl⟩)).step (l := .send (some [33])) (by exact rfl)
  exact ⟨_, hw, rfl, rfl, rfl, send_only_while_connected hw⟩

end Send

end PikiwiNet
