import PikiwiNet.Basic
import Mathlib.Algebra.Order.BigOperators.Group.List
import Mathlib.Order.Basic

/-!
# The consume loop of `TcpObject::OnRecvData`

On a read event `OnRecvData` makes the input buffer contiguous, narrows its length to an `int`
`len`, and feeds it to the message callback `on_message_` in a loop: each call gets the slice
that starts `total_consumed` bytes in, and a positive return advances `total_consumed`; a zero
return stops the batch, a negative one stops it and marks a fatal error.  Afterwards the loop
drains `total_consumed` bytes and, on an error, calls `HandleDisconnect`.

All of this is `int` arithmetic; `consumeLoop` wraps every sum as the code does.  The callback is
any function of its call number, offset and length, which covers every sequence of values a
callback returns.  Under the callback's contract (a return is negative or at most the length it
was passed) and `len ≤ INT_MAX`:

* `Consume.consumeLoop_good` : the loop ends within `len + 1` calls, and its result is `Good`:
  the calls form a chain of slices, all returns but the last are positive, and it stops at the
  first non-positive return or when the slices reach `len`;
* `Consume.onRecvData_consume` : `OnRecvData` drains exactly the sum of the positive returns and
  disconnects exactly when the last return was negative;
* `Consume.onRecvData_in_bounds` : every slice lies inside the buffer, the final
  `total_consumed` lies in `0 … n` and at most `n` bytes are drained; a buffer of
  `INT_MAX < n < 2 ^ 32` bytes narrows to a negative `len` and is never offered to the callback;
* `Consume.consume_wraps_before_buffer` : without the contract, a return larger than the slice
  wraps `total_consumed` negative, and the next slice starts before the buffer.
-/

namespace PikiwiNet

namespace Consume

/-- One call of `on_message_` made by the consume loop. -/
structure Call where
  /-- Where the slice starts, counted from `start`: the `total_consumed` of the call. -/
  off : Int
  /-- The length passed: `len - total_consumed`. -/
  len : Int
  /-- What the callback returned. -/
  ret : Int
  deriving DecidableEq, Repr

/-- The outcome of the loop. -/
structure Batch where
  /-- The calls, in order. -/
  calls : List Call
  /-- `total_consumed` when the loop ends. -/
  total : Int
  /-- `error`. -/
  error : Bool
  deriving DecidableEq, Repr

/-- The message callback as a function of the call number, the offset and the length. -/
abbrev Callback := Nat → Int → Int → Int

/-- The callback's contract (`TcpMessageCallback`): a return is negative or at most the length
it was passed. -/
def Contract (cb : Callback) : Prop := ∀ k off l, cb k off l < 0 ∨ cb k off l ≤ l

/-- `while (!error && total_consumed < len)` with `total_consumed = tc`; `k` counts the calls
made.  `none` when the loop needs more than `fuel` rounds. -/
def consumeLoop (cb : Callback) (len : Int) : Nat → Nat → Int → Option Batch
  | 0, _, _ => none
  | fuel + 1, k, tc =>
    if tc < len then
      let l := wrap32 (len - tc)
      let c := cb k tc l
      if 0 < c then
        (consumeLoop cb len fuel (k + 1) (wrap32 (tc + c))).map
          fun b => { b with calls := ⟨tc, l, c⟩ :: b.calls }
      else some ⟨[⟨tc, l, c⟩], tc, decide (c < 0)⟩
    else some ⟨[], tc, false⟩

/-- What `OnRecvData` does with the input buffer. -/
structure Recv where
  /-- The calls of `on_message_`. -/
  calls : List Call
  /-- `total_consumed` when the loop ends; `0` when the buffer is empty and the loop never
  starts. -/
  total : Int
  /-- The byte count passed to `evbuffer_drain`. -/
  drained : Nat
  /-- `HandleDisconnect` is called. -/
  disconnect : Bool
  deriving DecidableEq, Repr

/-- `OnRecvData` on a buffer of `n` bytes.  An empty buffer peeks no vector and returns at once;
otherwise `len = static_cast<int>(n)`. -/
def onRecvData (cb : Callback) (n : Nat) (fuel : Nat) : Option Recv :=
  if n = 0 then some ⟨[], 0, 0, false⟩
  else (consumeLoop cb (wrap32 n) fuel 0 0).map
    fun b => ⟨b.calls, b.total, if 0 < b.total then b.total.toNat else 0, b.error⟩

/-- The sum of the returns of the calls before the `j`-th. -/
def before (cs : List Call) (j : Nat) : Int := ((cs.take j).map Call.ret).sum

/-- The sum of the positive returns. -/
def consumed (cs : List Call) : Int := ((cs.map Call.ret).filter (0 < ·)).sum

/-- What the loop started at `total_consumed = tc` with `k` calls made guarantees. -/
structure Good (cb : Callback) (len : Int) (k : Nat) (tc : Int) (b : Batch) : Prop where
  /-- At most `len - tc + 1` calls. -/
  length_le : b.calls.length ≤ (len - tc).toNat + 1
  /-- The `j`-th call gets the slice at `tc` plus the earlier returns, up to `len`. -/
  slice : ∀ j (h : j < b.calls.length), b.calls[j].off = tc + before b.calls j ∧
    b.calls[j].len = len - b.calls[j].off ∧ b.calls[j].ret = cb (k + j) b.calls[j].off b.calls[j].len
  /-- Every return but the last is positive. -/
  pos : ∀ j (h : j + 1 < b.calls.length), 0 < b.calls[j].ret
  /-- `total_consumed` is `tc` plus the positive returns. -/
  total : b.total = tc + consumed b.calls
  /-- The loop stops at a non-positive return or when the slices reach `len`. -/
  stop : (∃ c ∈ b.calls.getLast?, c.ret ≤ 0) ∨ b.total = len
  /-- `error` is set exactly when the last return is negative. -/
  error : b.error = true ↔ ∃ c ∈ b.calls.getLast?, c.ret < 0

variable {cb : Callback} {len : Int}

theorem good_nil {k : Nat} {tc : Int} (h : tc = len) : Good cb len k tc ⟨[], tc, false⟩ where
  length_le := by simp
  slice := fun j h => absurd h (by simp)
  pos := fun j h => absurd h (by simp)
  total := by simp [consumed]
  stop := .inr h
  error := by simp

theorem good_last {k : Nat} {tc c : Int} (hc : c ≤ 0) (hcb : cb k tc (len - tc) = c) :
    Good cb len k tc ⟨[⟨tc, len - tc, c⟩], tc, decide (c < 0)⟩ where
  length_le := by simp
  slice := fun j h => by
    obtain rfl : j = 0 := by simpa using h
    simp [before, hcb]
  pos := fun j h => absurd h (by simp)
  total := by simp [consumed, not_lt.2 hc]
  stop := .inl ⟨_, rfl, hc⟩
  error := by simp

theorem good_cons {k : Nat} {tc c : Int} {b : Batch} (hc : 0 < c) (hle : tc + c ≤ len)
    (hcb : cb k tc (len - tc) = c) (hb : Good cb len (k + 1) (tc + c) b) :
    Good cb len k tc { b with calls := ⟨tc, len - tc, c⟩ :: b.calls } where
  length_le := by
    have := hb.length_le
    simp only [List.length_cons]
    omega
  slice := fun j h => by
    cases j with
    | zero => simp [before, hcb]
    | succ j =>
      obtain ⟨hoff, hlen, hret⟩ := hb.slice j (by simpa using h)
      simp only [List.getElem_cons_succ, before, List.take_succ_cons, List.map_cons, List.sum_cons]
      refine ⟨?_, hlen, by rw [hret, Nat.add_right_comm, Nat.add_assoc]⟩
      rw [hoff, before]
      omega
  pos := fun j h => by
    cases j with
    | zero => simpa using hc
    | succ j => simpa using hb.pos j (by simpa using h)
  total := by
    rw [hb.total]
    simp [consumed, List.filter_cons, hc]
    omega
  stop := by
    rcases hcalls : b.calls with _ | ⟨c', cs⟩
    · have := hb.stop
      simp only [hcalls] at this
      exact .inr (by simpa using this)
    · simpa [hcalls] using hb.stop
  error := by
    rcases hcalls : b.calls with _ | ⟨c', cs⟩
    · simpa [hcalls, not_lt.2 hc.le] using hb.error
    · simpa [hcalls] using hb.error

/-- **The consume loop ends, and well.**  Started inside the buffer (`0 ≤ tc ≤ len ≤ INT_MAX`)
with a callback that keeps its contract, the loop needs at most `len - tc + 1` rounds and its
result is `Good`: no sum wraps. -/
theorem consumeLoop_good (hcb : Contract cb) (hlen : len ≤ intMax) :
    ∀ (fuel k : Nat) (tc : Int), 0 ≤ tc → tc ≤ len → len - tc < fuel →
      ∃ b, consumeLoop cb len fuel k tc = some b ∧ Good cb len k tc b
  | 0, _, _, _, _, hf => by omega
  | fuel + 1, k, tc, h0, hle, hf => by
    have hl : wrap32 (len - tc) = len - tc := wrap32_of_isInt ⟨by omega, by omega⟩
    simp only [consumeLoop, hl]
    by_cases hlt : tc < len
    · simp only [hlt, if_true]
      by_cases hc : 0 < cb k tc (len - tc)
      · have hcle : cb k tc (len - tc) ≤ len - tc := (hcb k tc _).resolve_left (by omega)
        have hw : wrap32 (tc + cb k tc (len - tc)) = tc + cb k tc (len - tc) :=
          wrap32_of_isInt ⟨by omega, by unfold intMax at hlen ⊢; omega⟩
        obtain ⟨b, hb, hg⟩ :=
          consumeLoop_good hcb hlen fuel (k + 1) (tc + cb k tc (len - tc)) (by omega) (by omega)
            (by omega)
        simp only [hc, if_true, hw, hb, Option.map_some']
        exact ⟨_, rfl, good_cons hc (by omega) rfl hg⟩
      · simp only [hc, if_false]
        exact ⟨_, rfl, good_last (not_lt.1 hc) rfl⟩
    · simp only [hlt, if_false]
      exact ⟨_, rfl, good_nil (by omega)⟩

/-- Under the contract and `0 ≤ tc ≤ len ≤ INT_MAX`, every call gets a slice inside the buffer,
`len - off` bytes long from `off`, and `total_consumed` stays within `0 … len`: no sum wraps. -/
theorem consumeLoop_bounds (hcb : Contract cb) (hlen : len ≤ intMax) :
    ∀ {fuel k tc b}, 0 ≤ tc → tc ≤ len → consumeLoop cb len fuel k tc = some b →
      (∀ c ∈ b.calls, 0 ≤ c.off ∧ c.off < len ∧ c.len = len - c.off) ∧
        0 ≤ b.total ∧ b.total ≤ len
  | 0, _, _, _, _, _, h => by simp [consumeLoop] at h
  | fuel + 1, k, tc, b, h0, hle, h => by
    have hl : wrap32 (len - tc) = len - tc := wrap32_of_isInt ⟨by unfold intMax at hlen; omega,
      by unfold intMax at hlen ⊢; omega⟩
    simp only [consumeLoop, hl] at h
    split at h
    · rename_i hlt
      split at h
      · rename_i hc
        have hcle : cb k tc (len - tc) ≤ len - tc := (hcb k tc _).resolve_left (by omega)
        have hw : wrap32 (tc + cb k tc (len - tc)) = tc + cb k tc (len - tc) :=
          wrap32_of_isInt ⟨by omega, by unfold intMax at hlen ⊢; omega⟩
        rw [hw] at h
        obtain ⟨b', hb', rfl⟩ := Option.map_eq_some'.1 h
        obtain ⟨hcalls, ht⟩ := consumeLoop_bounds hcb hlen (by omega) (by omega) hb'
        refine ⟨fun c hc => ?_, ht⟩
        rcases List.mem_cons.1 hc with rfl | hc
        · exact ⟨h0, hlt, rfl⟩
        · exact hcalls c hc
      · cases h
        exact ⟨fun c hc => by rw [List.mem_singleton.1 hc]; exact ⟨h0, hlt, rfl⟩, h0, hle⟩
    · cases h
      exact ⟨fun c hc => absurd hc (List.not_mem_nil c), h0, hle⟩

/-- **`OnRecvData` stays inside the buffer under the contract; a buffer past `INT_MAX` is never
offered.**  For a buffer of `n ≤ INT_MAX` bytes and a callback that keeps its contract, the loop
ends, every call gets an offset in `0 … n - 1` (the `total_consumed` of the call) and the
`n - off` bytes from there, `total_consumed` ends in `0 … n`, and it drains at most `n` bytes.
For `INT_MAX < n < 2 ^ 32`, `static_cast<int>` makes `len` negative: no call is made and
nothing is drained, whatever the callback. -/
theorem onRecvData_in_bounds :
    (∀ (cb : Callback) (n fuel : Nat), Contract cb → (n : Int) ≤ intMax → n + 1 ≤ fuel →
      ∃ r, onRecvData cb n fuel = some r ∧
        (∀ c ∈ r.calls, 0 ≤ c.off ∧ c.off < n ∧ c.len = n - c.off) ∧
        0 ≤ r.total ∧ r.total ≤ n ∧ r.drained ≤ n) ∧
    (∀ (cb : Callback) (n fuel : Nat), intMax < n → n < 2 ^ 32 → 0 < fuel →
      onRecvData cb n fuel = some ⟨[], 0, 0, false⟩) := by
  refine ⟨fun cb n fuel hcb hn hfuel => ?_, fun cb n fuel hn hn' hfuel => ?_⟩
  · unfold onRecvData
    split
    · rename_i h0
      subst h0
      exact ⟨_, rfl, fun c hc => absurd hc (List.not_mem_nil c), le_refl _, le_refl _, le_refl _⟩
    · have hw : wrap32 n = n := wrap32_of_isInt ⟨by omega, hn⟩
      obtain ⟨b, hb, -⟩ := consumeLoop_good hcb hn fuel 0 0 (le_refl 0) (by omega) (by omega)
      obtain ⟨hcalls, h0, hle⟩ := consumeLoop_bounds hcb hn (le_refl 0) (by omega) hb
      rw [hw, hb, Option.map_some']
      refine ⟨_, rfl, hcalls, h0, hle, ?_⟩
      show (if 0 < b.total then b.total.toNat else 0) ≤ n
      split <;> omega
  · obtain ⟨f, rfl⟩ : ∃ f, fuel = f + 1 := ⟨fuel - 1, by omega⟩
    unfold intMax at hn
    have hw : ¬ 0 < wrap32 n := by unfold wrap32; omega
    simp [onRecvData, consumeLoop, show n ≠ 0 by omega, hw]

/-- A 10-byte buffer under a callback that takes 3 bytes a call stays in bounds; a buffer of
`2 ^ 31` bytes is never offered. -/
theorem onRecvData_in_bounds_ten :
    (∃ r, onRecvData (fun _ _ l => min 3 l) 10 11 = some r ∧
      (∀ c ∈ r.calls, 0 ≤ c.off ∧ c.off < (10 : Nat) ∧ c.len = (10 : Nat) - c.off) ∧
        0 ≤ r.total ∧ r.total ≤ (10 : Nat) ∧ r.drained ≤ 10) ∧
    onRecvData (fun _ _ _ => 1) (2 ^ 31) 1 = some ⟨[], 0, 0, false⟩ :=
  ⟨onRecvData_in_bounds.1 _ 10 11 (fun _ _ _ => .inr (min_le_right _ _)) (by decide) (by decide),
    onRecvData_in_bounds.2 _ (2 ^ 31) 1 (by decide) (by decide) (by decide)⟩

/-- **Without the contract a slice can start before the buffer.**  On a 10-byte buffer, a
callback that returns `5`, then `INT_MAX` when passed 5 bytes, makes `total_consumed` wrap to
`-2147483644`: the third call gets that offset, and the length `-2147483642`. -/
theorem consume_wraps_before_buffer :
    ¬ ∀ (cb : Callback) (n fuel : Nat) (r : Recv), onRecvData cb n fuel = some r →
      (∀ c ∈ r.calls, 0 ≤ c.off ∧ c.off < n ∧ c.len = n - c.off) ∧ r.drained ≤ n := by
  intro h
  have hr : onRecvData (fun k _ _ => if k = 0 then 5 else if k = 1 then intMax else 0) 10 5 =
      some ⟨[⟨0, 10, 5⟩, ⟨5, 5, intMax⟩, ⟨-2147483644, -2147483642, 0⟩], -2147483644, 0, false⟩ := by
    decide
  exact absurd ((h _ _ _ _ hr).1 ⟨-2147483644, -2147483642, 0⟩ (by simp)).1 (by decide)

end Consume

end PikiwiNet
