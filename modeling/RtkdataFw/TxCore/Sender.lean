import RtkdataFw.TxCore.Ring

/-!
# The senders of `ntrip_tx_core.c`

`NtripTx` is `ntrip_tx_t`; `current` is the part of its array that the last copy filled.  Each operation
also returns what it did, as a list of `TxEvent`s, so that runs can be spoken about.  The send callback
is a function of the round and of the bytes offered: a call of `ntrip_tx_poll` makes at most one send in
a round.

* `txCopyNext` — the jump over overwritten frames, then the loop over stale ones;
* `pollRound`, `ntripTxPoll` — one round of the `for` loop, and the loop;
* `ntripTxAbort`, `ntripTxResetConn`, `ntripTxStalled`, `ntripTxFrameOverdue`.
-/

namespace RtkdataFw.TxCore

structure NtripTx where
  cursorSeq : UInt32
  cumThrough : ℕ
  current : List UInt8
  currentLen : ℕ
  currentOff : ℕ
  currentReceivedMs : UInt32
  lastProgressMs : UInt32
  copiedBytes : ℕ
  acceptedToLwip : ℕ
  sentFrames : ℕ
  droppedBytes : ℕ
  skippedBytes : ℕ
  skippedFrames : UInt32
  droppedFramesStale : UInt32
  droppedStaleBytes : ℕ
  eagainCount : ℕ
  reconnects : UInt32
  maxQueueAgeMs : UInt32
  lastSockErrno : ℤ
  deriving DecidableEq, Repr

/-- What a sender did. -/
inductive TxEvent where
  /-- The cursor went over frames that were never copied: overwritten, or waiting at a reconnect. -/
  | skipped (start stop : UInt32)
  /-- A frame was dropped as stale. -/
  | stale (seq receivedMs : UInt32)
  | copied (seq : UInt32) (frame : List UInt8)
  /-- The send callback accepted these bytes. -/
  | accepted (bytes : List UInt8)
  /-- The current frame was counted in `sent_frames`. -/
  | sent
  /-- The rest of the current frame was abandoned. -/
  | cut
  deriving DecidableEq, Repr

def ntripTxInit : NtripTx where
  cursorSeq := 0
  cumThrough := 0
  current := []
  currentLen := 0
  currentOff := 0
  currentReceivedMs := 0
  lastProgressMs := 0
  copiedBytes := 0
  acceptedToLwip := 0
  sentFrames := 0
  droppedBytes := 0
  skippedBytes := 0
  skippedFrames := 0
  droppedFramesStale := 0
  droppedStaleBytes := 0
  eagainCount := 0
  reconnects := 0
  maxQueueAgeMs := 0
  lastSockErrno := 0

/-- `ntrip_tx_pending`. -/
def NtripTx.pending (tx : NtripTx) : ℕ := tx.currentLen - tx.currentOff

/-- The bytes `tx->current + tx->current_off` up to `current_len`. -/
def NtripTx.unsent (tx : NtripTx) : List UInt8 :=
  (tx.current.drop tx.currentOff).take (tx.currentLen - tx.currentOff)

/-! ### Giving up -/

def ntripTxAbort (tx : NtripTx) : NtripTx × List TxEvent :=
  if tx.currentOff < tx.currentLen then
    ({ tx with
        droppedBytes := tx.droppedBytes + (tx.currentLen - tx.currentOff)
        currentLen := 0
        currentOff := 0 }, [.cut])
  else
    ({ tx with currentLen := 0, currentOff := 0 }, [])

theorem ntripTxAbort_cases (tx : NtripTx) :
    (tx.currentOff < tx.currentLen ∧ ntripTxAbort tx =
      ({ tx with
          droppedBytes := tx.droppedBytes + (tx.currentLen - tx.currentOff)
          currentLen := 0
          currentOff := 0 }, [.cut])) ∨
    (¬ tx.currentOff < tx.currentLen ∧
      ntripTxAbort tx = ({ tx with currentLen := 0, currentOff := 0 }, [])) := by
  by_cases hopen : tx.currentOff < tx.currentLen
  · exact .inl ⟨hopen, if_pos hopen⟩
  · exact .inr ⟨hopen, if_neg hopen⟩

/-- The cursor goes to `stop`, with `cum` bytes before it; what is on the way counts as skipped. -/
def txSkipTo (tx : NtripTx) (stop : UInt32) (cum : ℕ) : NtripTx :=
  { tx with
    skippedFrames := tx.skippedFrames + (stop - tx.cursorSeq)
    skippedBytes := tx.skippedBytes + (cum - tx.cumThrough)
    cursorSeq := stop
    cumThrough := cum }

/-- The frames still waiting in the ring at a reconnect are counted as skipped. -/
def txSkipWaiting (tx : NtripTx) (ring : NtripRing) : NtripTx × List TxEvent :=
  if tx.cursorSeq < ring.nextSeq then
    (txSkipTo tx ring.nextSeq ring.cumBytes, [.skipped tx.cursorSeq ring.nextSeq])
  else
    ({ tx with cursorSeq := ring.nextSeq, cumThrough := ring.cumBytes }, [])

theorem txSkipWaiting_cases (tx : NtripTx) (ring : NtripRing) :
    (tx.cursorSeq < ring.nextSeq ∧ txSkipWaiting tx ring =
      (txSkipTo tx ring.nextSeq ring.cumBytes, [.skipped tx.cursorSeq ring.nextSeq])) ∨
    (¬ tx.cursorSeq < ring.nextSeq ∧ txSkipWaiting tx ring =
      ({ tx with cursorSeq := ring.nextSeq, cumThrough := ring.cumBytes }, [])) := by
  by_cases hlt : tx.cursorSeq < ring.nextSeq
  · exact .inl ⟨hlt, if_pos hlt⟩
  · exact .inr ⟨hlt, if_neg hlt⟩

def ntripTxResetConn (tx : NtripTx) (ring : NtripRing) (nowMs : UInt32) : NtripTx × List TxEvent :=
  let a := ntripTxAbort tx
  let s := txSkipWaiting a.1 ring
  ({ s.1 with lastProgressMs := nowMs }, a.2 ++ s.2)

def ntripTxStalled (tx : NtripTx) (nowMs timeoutMs : UInt32) : Bool :=
  if tx.currentOff ≥ tx.currentLen then false else nowMs - tx.lastProgressMs > timeoutMs

def ntripTxFrameOverdue (tx : NtripTx) (nowMs deadlineMs : UInt32) : Bool :=
  if tx.currentOff ≥ tx.currentLen then false else nowMs - tx.currentReceivedMs > deadlineMs

/-! ### Copying out of the ring -/

/-- Jump to the oldest resident frame when the cursor fell off the back of the ring. -/
def txJump (tx : NtripTx) (ring : NtripRing) : NtripTx × List TxEvent :=
  let oldest := ringOldestSeq ring
  if tx.cursorSeq < oldest then
    let o := ring.slotOf oldest
    (txSkipTo tx oldest (o.cumBytes - o.len), [.skipped tx.cursorSeq oldest])
  else
    (tx, [])

theorem txJump_cases (tx : NtripTx) (ring : NtripRing) :
    (tx.cursorSeq < ringOldestSeq ring ∧ txJump tx ring =
      (txSkipTo tx (ringOldestSeq ring) ((ring.slotOf (ringOldestSeq ring)).cumBytes -
        (ring.slotOf (ringOldestSeq ring)).len), [.skipped tx.cursorSeq (ringOldestSeq ring)])) ∨
    (¬ tx.cursorSeq < ringOldestSeq ring ∧ txJump tx ring = (tx, [])) := by
  by_cases hlt : tx.cursorSeq < ringOldestSeq ring
  · exact .inl ⟨hlt, if_pos hlt⟩
  · exact .inr ⟨hlt, if_neg hlt⟩

/-- The frame in `s` is dropped as stale. -/
def txDropStale (tx : NtripTx) (s : RingSlot) : NtripTx :=
  { tx with
    droppedFramesStale := tx.droppedFramesStale + 1
    droppedStaleBytes := tx.droppedStaleBytes + s.len
    cumThrough := s.cumBytes
    cursorSeq := tx.cursorSeq + 1 }

/-- The frame in `s` becomes the current frame. -/
def txTake (tx : NtripTx) (s : RingSlot) (nowMs : UInt32) : NtripTx :=
  let age := nowMs - s.receivedMs
  { tx with
    current := s.data
    currentLen := s.len
    currentOff := 0
    currentReceivedMs := s.receivedMs
    lastProgressMs := nowMs
    copiedBytes := tx.copiedBytes + s.len
    cumThrough := s.cumBytes
    cursorSeq := tx.cursorSeq + 1
    maxQueueAgeMs := if age > tx.maxQueueAgeMs then age else tx.maxQueueAgeMs }

/-- The stale test on a slot: `stale_ms > 0 && age > stale_ms`. -/
def isStale (s : RingSlot) (nowMs staleMs : UInt32) : Prop :=
  staleMs > 0 ∧ nowMs - s.receivedMs > staleMs

instance (s : RingSlot) (nowMs staleMs : UInt32) : Decidable (isStale s nowMs staleMs) :=
  inferInstanceAs (Decidable (_ ∧ _))

theorem cursor_succ {a b : UInt32} (h : a < b) : (a + 1).toNat = a.toNat + 1 := by
  have hlt := UInt32.lt_iff_toNat_lt.mp h
  have hb := b.toNat_lt
  exact toNat_succ (by omega)

/-- `while (tx->cursor_seq < ring->next_seq)`: whether a frame was copied, and what was done. -/
def txCopyLoop (tx : NtripTx) (ring : NtripRing) (nowMs staleMs : UInt32) :
    Bool × NtripTx × List TxEvent :=
  if _h : tx.cursorSeq < ring.nextSeq then
    let s := ring.slotOf tx.cursorSeq
    if isStale s nowMs staleMs then
      let r := txCopyLoop (txDropStale tx s) ring nowMs staleMs
      (r.1, r.2.1, .stale tx.cursorSeq s.receivedMs :: r.2.2)
    else
      (true, txTake tx s nowMs, [.copied tx.cursorSeq s.data])
  else
    (false, tx, [])
termination_by ring.nextSeq.toNat - tx.cursorSeq.toNat
decreasing_by
  have hlt := UInt32.lt_iff_toNat_lt.mp _h
  have hsucc := cursor_succ _h
  simp only [txDropStale, hsucc]
  omega

/-- `tx_copy_next`. -/
def txCopyNext (tx : NtripTx) (ring : NtripRing) (nowMs staleMs : UInt32) :
    Bool × NtripTx × List TxEvent :=
  let j := txJump tx ring
  let r := txCopyLoop j.1 ring nowMs staleMs
  (r.1, r.2.1, j.2 ++ r.2.2)

/-! ### Sending -/

/-- `ntrip_tx_poll_result_t`. -/
inductive PollResult where
  | idle
  | progress
  | wouldblock
  | error
  deriving DecidableEq, Repr

/-- What the send callback returned, and what it left in `*out_errno`. -/
structure SendOutcome where
  n : ℤ
  err : ℤ
  deriving DecidableEq, Repr

abbrev SendFn := List UInt8 → SendOutcome

/-- The callback contract: a positive return is at most the length offered. -/
def SendFn.Ok (send : SendFn) : Prop := ∀ buf, (send buf).n ≤ buf.length

def eagain : ℤ := 11

def ewouldblock : ℤ := 11

def econnreset : ℤ := 104

/-- `n` more bytes of the current frame are accepted. -/
def txAccept (tx : NtripTx) (n : ℕ) (nowMs : UInt32) : NtripTx × List TxEvent :=
  if tx.currentOff + n = tx.currentLen then
    ({ tx with
        acceptedToLwip := tx.acceptedToLwip + n
        lastProgressMs := nowMs
        sentFrames := tx.sentFrames + 1
        currentLen := 0
        currentOff := 0 }, [.accepted (tx.unsent.take n), .sent])
  else
    ({ tx with
        currentOff := tx.currentOff + n
        acceptedToLwip := tx.acceptedToLwip + n
        lastProgressMs := nowMs }, [.accepted (tx.unsent.take n)])

theorem txAccept_cases (tx : NtripTx) (n : ℕ) (nowMs : UInt32) :
    (tx.currentOff + n = tx.currentLen ∧ txAccept tx n nowMs =
      ({ tx with
          acceptedToLwip := tx.acceptedToLwip + n
          lastProgressMs := nowMs
          sentFrames := tx.sentFrames + 1
          currentLen := 0
          currentOff := 0 }, [.accepted (tx.unsent.take n), .sent])) ∨
    (tx.currentOff + n ≠ tx.currentLen ∧ txAccept tx n nowMs =
      ({ tx with
          currentOff := tx.currentOff + n
          acceptedToLwip := tx.acceptedToLwip + n
          lastProgressMs := nowMs }, [.accepted (tx.unsent.take n)])) := by
  by_cases hfull : tx.currentOff + n = tx.currentLen
  · exact .inl ⟨hfull, if_pos hfull⟩
  · exact .inr ⟨hfull, if_neg hfull⟩

/-- How a round of the loop in `ntrip_tx_poll` ends: `again` when the loop goes on. -/
structure Round where
  again : Bool
  result : PollResult
  tx : NtripTx
  evs : List TxEvent
  deriving DecidableEq, Repr

/-- The send attempt of a round. -/
def pollSend (tx : NtripTx) (nowMs : UInt32) (send : SendFn) : Round :=
  let o := send tx.unsent
  if 0 < o.n then
    let a := txAccept tx o.n.toNat nowMs
    ⟨true, .progress, a.1, a.2⟩
  else if o.n < 0 ∧ (o.err = eagain ∨ o.err = ewouldblock) then
    ⟨false, .wouldblock, { tx with eagainCount := tx.eagainCount + 1 }, []⟩
  else
    let a := ntripTxAbort { tx with lastSockErrno := if o.n < 0 then o.err else econnreset }
    ⟨false, .error, a.1, a.2⟩

/-- **A send attempt** accepts bytes, is put off, or gives the frame up. -/
theorem pollSend_cases (tx : NtripTx) (nowMs : UInt32) (send : SendFn) :
    (0 < (send tx.unsent).n ∧ pollSend tx nowMs send =
      ⟨true, .progress, (txAccept tx (send tx.unsent).n.toNat nowMs).1,
        (txAccept tx (send tx.unsent).n.toNat nowMs).2⟩) ∨
    pollSend tx nowMs send =
      ⟨false, .wouldblock, { tx with eagainCount := tx.eagainCount + 1 }, []⟩ ∨
    ∃ err, pollSend tx nowMs send =
      ⟨false, .error, (ntripTxAbort { tx with lastSockErrno := err }).1,
        (ntripTxAbort { tx with lastSockErrno := err }).2⟩ := by
  by_cases hpos : 0 < (send tx.unsent).n
  · exact .inl ⟨hpos, if_pos hpos⟩
  · refine .inr ?_
    by_cases hagain : (send tx.unsent).n < 0 ∧
        ((send tx.unsent).err = eagain ∨ (send tx.unsent).err = ewouldblock)
    · exact .inl ((if_neg hpos).trans (if_pos hagain))
    · exact .inr ⟨_, (if_neg hpos).trans (if_neg hagain)⟩

/-- One round of `for (round = 0; round < max_sends; round++)`. -/
def pollRound (tx : NtripTx) (ring : NtripRing) (nowMs staleMs : UInt32) (send : SendFn)
    (result : PollResult) : Round :=
  if tx.currentOff ≥ tx.currentLen then
    let c := txCopyNext tx ring nowMs staleMs
    if c.1 then
      let r := pollSend c.2.1 nowMs send
      ⟨r.again, r.result, r.tx, c.2.2 ++ r.evs⟩
    else
      ⟨false, result, c.2.1, c.2.2⟩
  else
    pollSend tx nowMs send

/-- **A round** copies a frame first when none is pending, and ends when there is none to copy. -/
theorem pollRound_cases (tx : NtripTx) (ring : NtripRing) (nowMs staleMs : UInt32) (send : SendFn)
    (result : PollResult) :
    (tx.currentOff ≥ tx.currentLen ∧ (txCopyNext tx ring nowMs staleMs).1 = true ∧
      pollRound tx ring nowMs staleMs send result =
        { pollSend (txCopyNext tx ring nowMs staleMs).2.1 nowMs send with
          evs := (txCopyNext tx ring nowMs staleMs).2.2 ++
            (pollSend (txCopyNext tx ring nowMs staleMs).2.1 nowMs send).evs }) ∨
    (tx.currentOff ≥ tx.currentLen ∧ pollRound tx ring nowMs staleMs send result =
      ⟨false, result, (txCopyNext tx ring nowMs staleMs).2.1,
        (txCopyNext tx ring nowMs staleMs).2.2⟩) ∨
    (tx.currentOff < tx.currentLen ∧
      pollRound tx ring nowMs staleMs send result = pollSend tx nowMs send) := by
  by_cases hidle : tx.currentOff ≥ tx.currentLen
  · by_cases hcopied : (txCopyNext tx ring nowMs staleMs).1 = true
    · exact .inl ⟨hidle, hcopied, (if_pos hidle).trans (if_pos hcopied)⟩
    · exact .inr (.inl ⟨hidle, (if_pos hidle).trans (if_neg hcopied)⟩)
  · exact .inr (.inr ⟨Nat.lt_of_not_ge hidle, if_neg hidle⟩)

def pollLoop (ring : NtripRing) (nowMs staleMs : UInt32) (send : ℕ → SendFn) :
    ℕ → ℕ → PollResult → NtripTx → PollResult × NtripTx × List TxEvent
  | 0, _, result, tx => (result, tx, [])
  | rounds + 1, round, result, tx =>
      let r := pollRound tx ring nowMs staleMs (send round) result
      if r.again then
        let q := pollLoop ring nowMs staleMs send rounds (round + 1) r.result r.tx
        (q.1, q.2.1, r.evs ++ q.2.2)
      else
        (r.result, r.tx, r.evs)

def ntripTxPoll (tx : NtripTx) (ring : NtripRing) (nowMs : UInt32) (maxSends : ℤ)
    (staleMs : UInt32) (send : ℕ → SendFn) : PollResult × NtripTx × List TxEvent :=
  pollLoop ring nowMs staleMs send maxSends.toNat 0 .idle tx

end RtkdataFw.TxCore
