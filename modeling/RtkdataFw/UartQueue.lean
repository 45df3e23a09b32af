import RtkdataFw.Lib.Circular
import Mathlib.Data.Int.Notation

/-!
# The UART byte queue of `uart.c`

`DataQueue` is `DATA_QUEUE_TYPE` after a successful `data_que_create`: the memory at `pBuff`, and the two pointers
as offsets into it.  Every access is checked: `none` is a read or a write outside the memory, or a 16-bit
index that wraps.

* `QueOp`, `queStep`, `queRun` — the calls on a queue, one and several;
* `fifoStep`, `fifoRun` — the list of bytes that the queue is for;
* `queStep_fifo` — each call does to the queue what it does to the list;
* `queue_is_fifo` — after any calls the queue is the list, and has answered as the list would.
-/

namespace RtkdataFw.UartQueue

open RtkdataFw.Lib RtkdataFw.Lib.Circular

structure DataQueue (buffSize : ℕ) where
  pBuff : Buffer UInt8 buffSize
  pHead : ℕ
  pTail : ℕ

variable {buffSize : ℕ}

def dataQueCreate (buffSize : ℕ) : DataQueue buffSize := ⟨Buffer.fill buffSize 0, 0, 0⟩

def dataQueCleanup (_q : DataQueue buffSize) : DataQueue buffSize := ⟨Buffer.fill buffSize 0, 0, 0⟩

/-- `data_que_size`, with the difference of the pointers cut to 16 bits. -/
def dataQueSize (q : DataQueue buffSize) : ℕ :=
  let d : ℤ := q.pTail - q.pHead
  ((if d ≥ 0 then d else d + buffSize) % 65536).toNat

def dataQuePush (q : DataQueue buffSize) (byte : UInt8) : Option (DataQueue buffSize × ℕ) :=
  let pTail := if q.pTail + 1 ≥ buffSize then 0 else q.pTail + 1
  if pTail = q.pHead then some (q, 0)
  else do
    let pBuff ← q.pBuff.write? q.pTail [byte]
    return ({ q with pBuff := pBuff, pTail := pTail }, 1)

def dataQuePop (q : DataQueue buffSize) : Option (DataQueue buffSize × UInt8) :=
  if q.pHead ≠ q.pTail then do
    let byte ← q.pBuff.get? q.pHead
    return ({ q with pHead := if q.pHead + 1 ≥ buffSize then 0 else q.pHead + 1 }, byte)
  else
    some (q, 0)

/-- `for (idx = 0; idx < len; ++idx)`: over the bytes that are left, from the local tail pointer. -/
def packetInLoop : List UInt8 → ℕ → ℕ → DataQueue buffSize → Option (DataQueue buffSize × ℕ)
  | [], _, idx, q => some (q, idx)
  | b :: buff, pTail, idx, q =>
      let pTail := if pTail + 1 ≥ buffSize then 0 else pTail + 1
      if pTail = q.pHead then some (q, idx)
      else do
        let pBuff ← q.pBuff.write? q.pTail [b]
        let idx ← fit? 16 (idx + 1)
        packetInLoop buff pTail idx { q with pBuff := pBuff, pTail := pTail }

def dataQuePacketIn (q : DataQueue buffSize) (buff : List UInt8) : Option (DataQueue buffSize × ℕ) :=
  packetInLoop buff q.pTail 0 q

/-- `while ((q->pHead != q->pTail) && (idx < len) && (idx < q->buffSize))`. -/
def packetOutLoop (len idx : ℕ) (buff : List UInt8) (q : DataQueue buffSize) :
    Option (DataQueue buffSize × List UInt8 × ℕ) :=
  if _h : q.pHead ≠ q.pTail ∧ idx < len ∧ idx < buffSize then
    match q.pBuff.get? q.pHead, fit? 16 (idx + 1) with
    | some b, some _ =>
        packetOutLoop len (idx + 1) (buff ++ [b])
          { q with pHead := if q.pHead + 1 ≥ buffSize then 0 else q.pHead + 1 }
    | _, _ => none
  else
    some (q, buff, idx)
termination_by len - idx

/-- `data_que_packet_out`: the bytes written to `buff`, and their number. -/
def dataQuePacketOut (q : DataQueue buffSize) (len : ℕ) : Option (DataQueue buffSize × List UInt8 × ℕ) :=
  packetOutLoop len 0 [] q

/-- The bytes at a pointer with a 16-bit length. -/
abbrev Packet := { data : List UInt8 // data.length < 2 ^ 16 }

inductive QueOp where
  | packetIn (p : Packet)
  | push (byte : UInt8)
  | packetOut (len : UInt16)
  | pop
  | cleanup
  | size

/-- What a call returns, and the bytes that it writes for its caller. -/
structure QueOut where
  bytes : List UInt8
  ret : ℕ
  deriving DecidableEq

def queStep (q : DataQueue buffSize) : QueOp → Option (DataQueue buffSize × QueOut)
  | .packetIn p => (dataQuePacketIn q p.1).map fun r => (r.1, ⟨[], r.2⟩)
  | .push byte => (dataQuePush q byte).map fun r => (r.1, ⟨[], r.2⟩)
  | .packetOut len => (dataQuePacketOut q len.toNat).map fun r => (r.1, ⟨r.2.1, r.2.2⟩)
  | .pop => (dataQuePop q).map fun r => (r.1, ⟨[], r.2.toNat⟩)
  | .cleanup => some (dataQueCleanup q, ⟨[], 0⟩)
  | .size => some (q, ⟨[], dataQueSize q⟩)

def queRun : DataQueue buffSize → List QueOp → Option (DataQueue buffSize × List QueOut)
  | q, [] => some (q, [])
  | q, op :: ops => do
      let r ← queStep q op
      let rest ← queRun r.1 ops
      return (rest.1, r.2 :: rest.2)

/-! ### What the queue is for -/

/-- A list of at most `room` bytes. -/
def fifoStep (room : ℕ) (xs : List UInt8) : QueOp → List UInt8 × QueOut
  | .packetIn p => (xs ++ p.1.take (room - xs.length), ⟨[], (p.1.take (room - xs.length)).length⟩)
  | .push byte => if xs.length < room then (xs ++ [byte], ⟨[], 1⟩) else (xs, ⟨[], 0⟩)
  | .packetOut len => (xs.drop len.toNat, ⟨xs.take len.toNat, (xs.take len.toNat).length⟩)
  | .pop => (xs.tail, ⟨[], (xs.headD 0).toNat⟩)
  | .cleanup => ([], ⟨[], 0⟩)
  | .size => (xs, ⟨[], xs.length⟩)

def fifoRun (room : ℕ) : List UInt8 → List QueOp → List UInt8 × List QueOut
  | xs, [] => (xs, [])
  | xs, op :: ops =>
      let r := fifoStep room xs op
      let rest := fifoRun room r.1 ops
      (rest.1, r.2 :: rest.2)

/-- The queue holds `xs`. -/
abbrev DataQueue.Holds (q : DataQueue buffSize) (xs : List UInt8) : Prop :=
  Circular.Holds q.pBuff q.pHead q.pTail xs

/-! ### Each call -/

section Calls

variable {q : DataQueue buffSize} {xs : List UInt8}

theorem dataQueSize_eq (h : q.Holds xs) (hsize : buffSize < 2 ^ 16) : dataQueSize q = xs.length := by
  have hlen := h.length_eq
  have hh := h.head_lt
  have ht := h.tail_lt
  rw [gap] at hlen
  rw [dataQueSize]
  split <;> split at hlen <;> omega

/-- **Push**, with room for a byte. -/
theorem dataQuePush_room (h : q.Holds xs) (hroom : xs.length < buffSize - 1) (byte : UInt8) :
    ∃ q', dataQuePush q byte = some (q', 1) ∧ q'.Holds (xs ++ [byte]) := by
  have hne : next buffSize q.pTail ≠ q.pHead := by
    rw [ne_eq, h.full_iff]
    omega
  obtain ⟨b', hwrite, hholds⟩ := h.push hne byte
  refine ⟨{ q with pBuff := b', pTail := next buffSize q.pTail }, ?_, hholds⟩
  rw [next] at hne
  rw [dataQuePush, if_neg hne, hwrite]
  rfl

/-- Push on a full queue. -/
theorem dataQuePush_full (h : q.Holds xs) (hfull : ¬ xs.length < buffSize - 1) (byte : UInt8) :
    dataQuePush q byte = some (q, 0) := by
  have hlt := h.length_lt
  exact if_pos (h.full_iff.mpr (by omega))

theorem dataQuePop_nil (h : q.Holds []) : dataQuePop q = some (q, 0) :=
  if_neg (not_not.mpr (h.nil_iff.mpr rfl))

theorem dataQuePop_cons {x : UInt8} (h : q.Holds (x :: xs)) :
    ∃ q', dataQuePop q = some (q', x) ∧ q'.Holds xs := by
  obtain ⟨hne, hget, hrest⟩ := h.pop
  refine ⟨{ q with pHead := next buffSize q.pHead }, ?_, hrest⟩
  rw [dataQuePop, if_pos hne, hget]
  rfl

/-- **The loop of `data_que_packet_in`** pushes until the queue is full or the packet is in. -/
theorem packetInLoop_eq (h : q.Holds xs) (buff : List UInt8) (idx : ℕ) (hidx : idx + buff.length < 2 ^ 16) :
    ∃ q', packetInLoop buff q.pTail idx q =
        some (q', idx + (buff.take (buffSize - 1 - xs.length)).length) ∧
      q'.Holds (xs ++ buff.take (buffSize - 1 - xs.length)) := by
  induction buff generalizing q xs idx with
  | nil =>
      rw [List.take_nil, List.append_nil]
      exact ⟨q, rfl, h⟩
  | cons b buff ih =>
      rw [List.length_cons] at hidx
      rw [packetInLoop]
      by_cases hfull : next buffSize q.pTail = q.pHead
      · have hzero : buffSize - 1 - xs.length = 0 := by
          have := h.full_iff.mp hfull
          omega
        have hfull' : (if q.pTail + 1 ≥ buffSize then 0 else q.pTail + 1) = q.pHead := hfull
        rw [if_pos hfull', hzero, List.take_zero, List.append_nil]
        exact ⟨q, rfl, h⟩
      · obtain ⟨b', hwrite, hholds⟩ := h.push hfull b
        have hlt := h.length_lt
        have hroom : buffSize - 1 - xs.length = buffSize - 1 - (xs.length + 1) + 1 := by
          have := mt h.full_iff.mpr hfull
          omega
        obtain ⟨q', hloop, hend⟩ := ih (q := { q with pBuff := b', pTail := next buffSize q.pTail })
          hholds (idx + 1) (by omega)
        rw [List.length_append, List.length_singleton] at hloop hend
        have hfull' : ¬ (if q.pTail + 1 ≥ buffSize then 0 else q.pTail + 1) = q.pHead := hfull
        refine ⟨q', ?_, ?_⟩
        · rw [if_neg hfull', hwrite, fit?_eq (by omega)]
          simp only [Option.bind_eq_bind, Option.bind_some]
          rw [hroom, List.take_succ_cons, List.length_cons]
          rw [Nat.add_right_comm idx 1] at hloop
          exact hloop
        · rw [hroom, List.take_succ_cons]
          rwa [List.append_assoc] at hend

/-- **The loop of `data_que_packet_out`** pops until the queue is empty or the caller has what it asked for. -/
theorem packetOutLoop_eq (h : q.Holds xs) {len : ℕ} (idx : ℕ) (buff : List UInt8) (hlen : len < 2 ^ 16)
    (hidx : idx ≤ len) (hroom : idx + xs.length < buffSize) :
    ∃ q', packetOutLoop len idx buff q =
        some (q', buff ++ xs.take (len - idx), idx + (xs.take (len - idx)).length) ∧
      q'.Holds (xs.drop (len - idx)) := by
  induction xs generalizing q idx buff with
  | nil =>
      have hend : q.pHead = q.pTail := h.nil_iff.mpr rfl
      rw [packetOutLoop, dif_neg fun hgo => hgo.1 hend, List.take_nil, List.drop_nil, List.append_nil]
      exact ⟨q, rfl, h⟩
  | cons x xs ih =>
      obtain ⟨hne, hget, hrest⟩ := h.pop
      rw [List.length_cons] at hroom
      by_cases hmore : idx < len
      · have hgo : q.pHead ≠ q.pTail ∧ idx < len ∧ idx < buffSize := ⟨hne, hmore, by omega⟩
        obtain ⟨q', hloop, hend⟩ := ih (q := { q with pHead := next buffSize q.pHead }) hrest
          (idx + 1) (buff ++ [x]) (by omega) (by omega)
        have hleft : len - idx = len - (idx + 1) + 1 := by omega
        refine ⟨q', ?_, ?_⟩
        · rw [packetOutLoop, dif_pos hgo, hget, fit?_eq (by omega)]
          dsimp only
          rw [List.append_assoc, List.singleton_append, Nat.add_right_comm idx 1] at hloop
          rw [hleft, List.take_succ_cons, List.length_cons]
          exact hloop
        · rw [hleft, List.drop_succ_cons]
          exact hend
      · have hzero : len - idx = 0 := by omega
        rw [packetOutLoop, dif_neg fun hgo => hmore hgo.2.1, hzero, List.take_zero, List.drop_zero,
          List.append_nil]
        exact ⟨q, rfl, h⟩

/-- **One call** does to the queue what it does to the list. -/
theorem queStep_fifo (h : q.Holds xs) (hsize : buffSize < 2 ^ 16) (op : QueOp) :
    ∃ q', queStep q op = some (q', (fifoStep (buffSize - 1) xs op).2) ∧
      q'.Holds (fifoStep (buffSize - 1) xs op).1 := by
  have hlt := h.length_lt
  cases op with
  | packetIn p =>
      obtain ⟨q', hin, hholds⟩ := packetInLoop_eq h p.1 0 (by have := p.2; omega)
      refine ⟨q', ?_, hholds⟩
      rw [queStep, dataQuePacketIn, hin, Nat.zero_add]
      rfl
  | push byte =>
      rw [queStep, fifoStep]
      by_cases hroom : xs.length < buffSize - 1
      · obtain ⟨q', hpush, hholds⟩ := dataQuePush_room h hroom byte
        rw [if_pos hroom, hpush]
        exact ⟨q', rfl, hholds⟩
      · rw [if_neg hroom, dataQuePush_full h hroom byte]
        exact ⟨q, rfl, h⟩
  | packetOut len =>
      obtain ⟨q', hout, hholds⟩ := packetOutLoop_eq h 0 [] len.toNat_lt (Nat.zero_le _) (by omega)
      refine ⟨q', ?_, hholds⟩
      rw [queStep, dataQuePacketOut, hout, Nat.zero_add]
      rfl
  | pop =>
      rw [queStep]
      cases xs with
      | nil =>
          rw [dataQuePop_nil h]
          exact ⟨q, rfl, h⟩
      | cons x xs =>
          obtain ⟨q', hpop, hholds⟩ := dataQuePop_cons h
          rw [hpop]
          exact ⟨q', rfl, hholds⟩
  | cleanup => exact ⟨dataQueCleanup q, rfl, holds_nil _ (Nat.zero_lt_of_lt hlt)⟩
  | size =>
      rw [queStep, dataQueSize_eq h hsize]
      exact ⟨q, rfl, h⟩

end Calls

/-- Several calls. -/
theorem queRun_fifo {q : DataQueue buffSize} {xs : List UInt8} (h : q.Holds xs) (hsize : buffSize < 2 ^ 16)
    (ops : List QueOp) :
    ∃ q', queRun q ops = some (q', (fifoRun (buffSize - 1) xs ops).2) ∧
      q'.Holds (fifoRun (buffSize - 1) xs ops).1 := by
  induction ops generalizing q xs with
  | nil => exact ⟨q, rfl, h⟩
  | cons op ops ih =>
      obtain ⟨q', hstep, hholds⟩ := queStep_fifo h hsize op
      obtain ⟨q'', hrun, hend⟩ := ih hholds
      refine ⟨q'', ?_, hend⟩
      rw [queRun, hstep]
      simp only [Option.bind_eq_bind, Option.bind_some]
      rw [hrun]
      rfl

/-- **The queue is a FIFO.**  After any calls on a new queue of 1 to 65535 bytes: no access has left the memory, the
calls have answered as on a list of at most one byte less, and that list is what the queue holds. -/
theorem queue_is_fifo (h1 : 1 ≤ buffSize) (hsize : buffSize ≤ 65535) (ops : List QueOp) :
    ∃ q, queRun (dataQueCreate buffSize) ops = some (q, (fifoRun (buffSize - 1) [] ops).2) ∧
      q.Holds (fifoRun (buffSize - 1) [] ops).1 ∧ q.pHead < buffSize ∧ q.pTail < buffSize ∧
      (fifoRun (buffSize - 1) [] ops).1.length ≤ buffSize - 1 ∧
      dataQueSize q = (fifoRun (buffSize - 1) [] ops).1.length := by
  have hnew : (dataQueCreate buffSize).Holds [] := holds_nil _ h1
  obtain ⟨q, hrun, hholds⟩ := queRun_fifo hnew (by omega) ops
  have hlt := hholds.length_lt
  exact ⟨q, hrun, hholds, hholds.head_lt, hholds.tail_lt, by omega, dataQueSize_eq hholds (by omega)⟩

/-- Round the end of a queue of four bytes. -/
def wrapOps : List QueOp :=
  [.packetIn ⟨[1, 2, 3, 4], by decide⟩, .packetOut 2, .push 5, .packetIn ⟨[6, 7], by decide⟩, .pop, .size]

theorem queue_is_fifo_wrap :
    ∃ q : DataQueue 4, (queRun (dataQueCreate 4) wrapOps).map Prod.fst = some q ∧ q.Holds [5, 6] := by
  obtain ⟨q, hrun, hholds, _⟩ := @queue_is_fifo 4 (by decide) (by decide) wrapOps
  exact ⟨q, congrArg (Option.map Prod.fst) hrun, hholds⟩

end RtkdataFw.UartQueue
