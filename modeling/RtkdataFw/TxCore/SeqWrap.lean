import RtkdataFw.Lib.Draining
import RtkdataFw.TxCore.Accounting
import RtkdataFw.TxCore.RingHistory

/-!
# A caught-up sender and the next few frames

The clocks of this code are compared modulo `2 ^ 32`, its sequence numbers by plain order.

* `Waiting` — the ring holds these frames from this number on, and nothing after them;
* `waiting_pushAll` — pushes that do not carry the number round leave just their frames waiting;
* `SentAll` — a sender sent these frames, in order, and skipped none;
* `polls_waiting`, `polls_wrapped` — polls send all that is waiting, and nothing once the number has
  wrapped;
* `wrap_iff` — so the frames arrive exactly when the number does not wrap.
-/

namespace RtkdataFw.TxCore

open RtkdataFw.Lib

/-- The ring holds `ws` from number `seq` on, with `cum` bytes before them, and no more. -/
def Waiting (ring : NtripRing) : UInt32 → ℕ → List Arrival → Prop
  | seq, cum, [] => seq = ring.nextSeq ∧ cum = ring.cumBytes
  | seq, cum, a :: ws => seq < ring.nextSeq ∧
      ring.slotOf seq = ⟨seq, a.receivedMs, cum + a.frame.length, a.frame⟩ ∧
      Waiting ring (seq + 1) (cum + a.frame.length) ws

theorem Waiting.nextSeq_eq {ring : NtripRing} {seq : UInt32} {cum : ℕ} {ws : List Arrival}
    (h : Waiting ring seq cum ws) : ring.nextSeq.toNat = seq.toNat + ws.length := by
  induction ws generalizing seq cum with
  | nil =>
      rw [← h.1]
      rfl
  | cons a ws ih =>
      obtain ⟨hlt, _, hrest⟩ := h
      rw [ih hrest, cursor_succ hlt, List.length_cons]
      omega

theorem push_nextSeq (r : NtripRing) {a : Arrival} (h : a.Fits) :
    (ntripRingPush r a.frame a.receivedMs).nextSeq = r.nextSeq + 1 := by
  rw [ntripRingPush, if_neg (a.fits_iff.mpr h)]

theorem push_cumBytes (r : NtripRing) {a : Arrival} (h : a.Fits) :
    (ntripRingPush r a.frame a.receivedMs).cumBytes = r.cumBytes + a.frame.length := by
  rw [ntripRingPush, if_neg (a.fits_iff.mpr h)]

/-- One more frame, while the number does not wrap and no waiting frame is overwritten. -/
theorem Waiting.push {ring : NtripRing} {seq : UInt32} {cum : ℕ} {ws : List Arrival}
    (h : Waiting ring seq cum ws) {a : Arrival} (hfits : a.Fits)
    (hwrap : ring.nextSeq.toNat + 1 < 2 ^ 32) (hroom : ws.length < rtcmRingSlots) :
    Waiting (ntripRingPush ring a.frame a.receivedMs) seq cum (ws ++ [a]) := by
  have hnext := push_nextSeq ring hfits
  have hup : (ring.nextSeq + 1).toNat = ring.nextSeq.toNat + 1 := toNat_succ hwrap
  have hslots := slotOf_push ring a.receivedMs (a.fits_iff.mpr hfits)
  induction ws generalizing seq cum with
  | nil =>
      obtain ⟨rfl, rfl⟩ := h
      refine ⟨?_, ?_, ?_, ?_⟩
      · rw [hnext, UInt32.lt_iff_toNat_lt, hup]
        omega
      · rw [hslots, if_pos rfl]
      · rw [hnext]
      · rw [push_cumBytes ring hfits]
  | cons b ws ih =>
      rw [List.length_cons] at hroom
      have hend := h.nextSeq_eq
      obtain ⟨hlt, hslot, hrest⟩ := h
      rw [List.length_cons] at hend
      refine ⟨?_, ?_, ih hrest (by omega)⟩
      · rw [UInt32.lt_iff_toNat_lt] at hlt
        rw [hnext, UInt32.lt_iff_toNat_lt, hup]
        omega
      · -- the new frame goes to another slot
        rw [hslots, if_neg, hslot]
        exact (Window.mod_ne (by omega) (by omega)).symm

theorem nextSeq_pushAll (r : NtripRing) {ks : List Arrival} (hfits : ∀ a ∈ ks, a.Fits) :
    (pushAll r ks).nextSeq = r.nextSeq + UInt32.ofNat ks.length := by
  induction ks generalizing r with
  | nil => exact (UInt32.add_zero _).symm
  | cons a ks ih =>
      rw [pushAll_cons, ih _ fun b hb => hfits b (List.mem_cons_of_mem _ hb),
        push_nextSeq r (hfits a List.mem_cons_self), List.length_cons, Nat.add_comm ks.length 1,
        UInt32.ofNat_add, UInt32.add_assoc]
      rfl

/-- **After some pushes** to a ring whose readers are caught up, just their frames are waiting. -/
theorem waiting_pushAll (r : NtripRing) {ks : List Arrival} (hfits : ∀ a ∈ ks, a.Fits)
    (hk : ks.length ≤ rtcmRingSlots) (hwrap : r.nextSeq.toNat + ks.length < 2 ^ 32) :
    Waiting (pushAll r ks) r.nextSeq r.cumBytes ks := by
  induction ks using List.reverseRecOn with
  | nil => exact ⟨rfl, rfl⟩
  | append_singleton ks a ih =>
      rw [List.length_append, List.length_singleton] at hk hwrap
      have hbefore := ih (fun b hb => hfits b (List.mem_append_left _ hb)) (by omega) (by omega)
      have hend := hbefore.nextSeq_eq
      rw [pushAll_append]
      exact hbefore.push (hfits a (List.mem_append_right _ (List.mem_singleton.mpr rfl)))
        (by omega) (by omega)

/-! ### Sending what is waiting -/

/-- A callback that accepts everything it is offered. -/
def SendFn.TakesAll (send : SendFn) : Prop := ∀ buf, (send buf).n = buf.length

/-- Sending `ws`, the first of them under number `seq`: each is copied, accepted whole and counted. -/
def deliveryOf : UInt32 → List Arrival → List TxEvent
  | _, [] => []
  | seq, a :: ws => [.copied seq a.frame, .accepted a.frame, .sent] ++ deliveryOf (seq + 1) ws

/-- From `tx` to `tx'` exactly `ws` were sent, and nothing was skipped or dropped. -/
structure SentAll (tx : NtripTx) (ws : List Arrival) (tx' : NtripTx) (evs : List TxEvent) : Prop where
  events : evs = deliveryOf tx.cursorSeq ws
  cursor_eq : tx'.cursorSeq = tx.cursorSeq + UInt32.ofNat ws.length
  cum_eq : tx'.cumThrough = tx.cumThrough + totalBytes ws
  sent_eq : tx'.sentFrames = tx.sentFrames + ws.length
  accepted_eq : tx'.acceptedToLwip = tx.acceptedToLwip + totalBytes ws
  skippedFrames_eq : tx'.skippedFrames = tx.skippedFrames
  skippedBytes_eq : tx'.skippedBytes = tx.skippedBytes
  stale_eq : tx'.droppedFramesStale = tx.droppedFramesStale
  dropped_eq : tx'.droppedBytes = tx.droppedBytes
  idle : ¬ tx'.currentOff < tx'.currentLen

theorem deliveryOf_append (seq : UInt32) (ws us : List Arrival) :
    deliveryOf seq (ws ++ us) = deliveryOf seq ws ++ deliveryOf (seq + UInt32.ofNat ws.length) us := by
  induction ws generalizing seq with
  | nil =>
      show deliveryOf seq us = deliveryOf (seq + 0) us
      rw [UInt32.add_zero]
  | cons a ws ih =>
      rw [List.cons_append, deliveryOf, deliveryOf, ih, List.append_assoc, List.length_cons,
        Nat.add_comm ws.length 1, UInt32.ofNat_add, UInt32.add_assoc]
      rfl

theorem SentAll.none {tx : NtripTx} (hidle : ¬ tx.currentOff < tx.currentLen) : SentAll tx [] tx [] :=
  ⟨rfl, (UInt32.add_zero _).symm, rfl, rfl, rfl, rfl, rfl, rfl, rfl, hidle⟩

theorem SentAll.trans {tx tx' tx'' : NtripTx} {ws us : List Arrival} {evs fs : List TxEvent}
    (h : SentAll tx ws tx' evs) (h' : SentAll tx' us tx'' fs) : SentAll tx (ws ++ us) tx'' (evs ++ fs) where
  events := by rw [deliveryOf_append, ← h.cursor_eq, h.events, h'.events]
  cursor_eq := by rw [h'.cursor_eq, h.cursor_eq, List.length_append, UInt32.ofNat_add, UInt32.add_assoc]
  cum_eq := by rw [h'.cum_eq, h.cum_eq, totalBytes_append, Nat.add_assoc]
  sent_eq := by rw [h'.sent_eq, h.sent_eq, List.length_append, Nat.add_assoc]
  accepted_eq := by rw [h'.accepted_eq, h.accepted_eq, totalBytes_append, Nat.add_assoc]
  skippedFrames_eq := h'.skippedFrames_eq.trans h.skippedFrames_eq
  skippedBytes_eq := h'.skippedBytes_eq.trans h.skippedBytes_eq
  stale_eq := h'.stale_eq.trans h.stale_eq
  dropped_eq := h'.dropped_eq.trans h.dropped_eq
  idle := h'.idle

section Polls

variable {ring : NtripRing} {tx : NtripTx}

/-- The cursor has not fallen off the back of the ring. -/
theorem txJump_resident (h : ringOldestSeq ring ≤ tx.cursorSeq) : txJump tx ring = (tx, []) :=
  if_neg (UInt32.not_lt.mpr h)

theorem txCopyNext_none (hold : ringOldestSeq ring ≤ tx.cursorSeq) (hend : ¬ tx.cursorSeq < ring.nextSeq)
    (nowMs staleMs : UInt32) : txCopyNext tx ring nowMs staleMs = (false, tx, []) := by
  rw [txCopyNext, txJump_resident hold]
  dsimp only
  rw [txCopyLoop, dif_neg hend]
  rfl

/-- With no age limit, the frame at the cursor is copied. -/
theorem txCopyNext_next (hold : ringOldestSeq ring ≤ tx.cursorSeq) (hlt : tx.cursorSeq < ring.nextSeq)
    (nowMs : UInt32) :
    txCopyNext tx ring nowMs 0 = (true, txTake tx (ring.slotOf tx.cursorSeq) nowMs,
      [.copied tx.cursorSeq (ring.slotOf tx.cursorSeq).data]) := by
  have hfresh : ¬ isStale (ring.slotOf tx.cursorSeq) nowMs 0 := fun h => absurd h.1 (UInt32.lt_irrefl 0)
  rw [txCopyNext, txJump_resident hold]
  dsimp only
  rw [txCopyLoop, dif_pos hlt]
  dsimp only
  rw [if_neg hfresh]
  rfl

/-- A round that finds nothing leaves the sender. -/
theorem pollRound_none (hidle : ¬ tx.currentOff < tx.currentLen) (hold : ringOldestSeq ring ≤ tx.cursorSeq)
    (hend : ¬ tx.cursorSeq < ring.nextSeq) (nowMs staleMs : UInt32) (send : SendFn) (result : PollResult) :
    pollRound tx ring nowMs staleMs send result = ⟨false, result, tx, []⟩ := by
  rw [pollRound, if_pos (Nat.not_lt.mp hidle), txCopyNext_none hold hend]
  rfl

/-- **A round sends the next waiting frame.** -/
theorem pollRound_next {a : Arrival} {ws : List Arrival} (hidle : ¬ tx.currentOff < tx.currentLen)
    (hold : ringOldestSeq ring ≤ tx.cursorSeq) (hpos : 0 < a.frame.length)
    (hw : Waiting ring tx.cursorSeq tx.cumThrough (a :: ws)) (nowMs : UInt32) {send : SendFn}
    (hsend : send.TakesAll) (result : PollResult) :
    ∃ tx' evs, pollRound tx ring nowMs 0 send result = ⟨true, .progress, tx', evs⟩ ∧
      SentAll tx [a] tx' evs := by
  obtain ⟨hlt, hslot, _⟩ := hw
  have htook : (txTake tx (ring.slotOf tx.cursorSeq) nowMs).unsent = a.frame := by
    rw [hslot]
    exact List.take_length
  have hn := hsend a.frame
  have hlen : (txTake tx (ring.slotOf tx.cursorSeq) nowMs).currentLen = a.frame.length := by
    rw [hslot]
    rfl
  have hfull : (txTake tx (ring.slotOf tx.cursorSeq) nowMs).currentOff + a.frame.length =
      (txTake tx (ring.slotOf tx.cursorSeq) nowMs).currentLen := by
    rw [hlen]
    exact Nat.zero_add _
  rw [pollRound, if_pos (Nat.not_lt.mp hidle), txCopyNext_next hold hlt]
  dsimp only
  rw [if_pos rfl, pollSend, htook, if_pos (by omega), hn, Int.toNat_natCast, txAccept, if_pos hfull, htook,
    List.take_length, hslot]
  refine ⟨_, _, rfl, rfl, rfl, ?_, rfl, ?_, rfl, rfl, rfl, rfl, Nat.lt_irrefl 0⟩
  · show tx.cumThrough + a.frame.length = tx.cumThrough + (a.frame.length + 0)
    rw [Nat.add_zero]
  · show tx.acceptedToLwip + a.frame.length = tx.acceptedToLwip + (a.frame.length + 0)
    rw [Nat.add_zero]

/-- A sender with the frames `ws` before it. -/
structure Behind (ring : NtripRing) (ws : List Arrival) (tx : NtripTx) : Prop where
  idle : ¬ tx.currentOff < tx.currentLen
  resident : ringOldestSeq ring ≤ tx.cursorSeq
  waiting : Waiting ring tx.cursorSeq tx.cumThrough ws
  filled : ∀ a ∈ ws, 0 < a.frame.length

theorem Behind.next {a : Arrival} {ws : List Arrival} {tx' : NtripTx} {evs : List TxEvent}
    (h : Behind ring (a :: ws) tx) (hs : SentAll tx [a] tx' evs) : Behind ring ws tx' := by
  obtain ⟨hlt, _, hrest⟩ := h.waiting
  have hcursor : tx'.cursorSeq = tx.cursorSeq + 1 := hs.cursor_eq
  have hcum : tx'.cumThrough = tx.cumThrough + a.frame.length := by
    rw [hs.cum_eq]
    exact congrArg _ (Nat.add_zero _)
  refine ⟨hs.idle, ?_, ?_, fun b hb => h.filled b (List.mem_cons_of_mem _ hb)⟩
  · have hold := UInt32.le_iff_toNat_le.mp h.resident
    rw [hcursor, UInt32.le_iff_toNat_le, cursor_succ hlt]
    omega
  · rw [hcursor, hcum]
    exact hrest

theorem Behind.not_lt (h : Behind ring [] tx) : ¬ tx.cursorSeq < ring.nextSeq := by
  rw [h.waiting.1]
  exact UInt32.lt_irrefl _

/-- **A poll** sends waiting frames until there are none, or until its sends are used up. -/
theorem pollLoop_waiting {ws : List Arrival} (h : Behind ring ws tx) (nowMs : UInt32) {send : ℕ → SendFn}
    (hsend : ∀ i, (send i).TakesAll) (n round : ℕ) (result : PollResult) :
    ∃ front rest, ws = front ++ rest ∧ (rest = [] ∨ front.length = n) ∧
      SentAll tx front (pollLoop ring nowMs 0 send n round result tx).2.1
        (pollLoop ring nowMs 0 send n round result tx).2.2 ∧
      Behind ring rest (pollLoop ring nowMs 0 send n round result tx).2.1 := by
  induction n generalizing ws tx round result with
  | zero => exact ⟨[], ws, rfl, .inr rfl, SentAll.none h.idle, h⟩
  | succ n ih =>
      rw [pollLoop]
      dsimp only
      cases ws with
      | nil =>
          rw [pollRound_none h.idle h.resident h.not_lt, if_neg Bool.false_ne_true]
          exact ⟨[], [], rfl, .inl rfl, SentAll.none h.idle, h⟩
      | cons a ws =>
          obtain ⟨tx', evs, hround, hone⟩ := pollRound_next h.idle h.resident
            (h.filled a List.mem_cons_self) h.waiting nowMs (hsend round) result
          obtain ⟨front, rest, hws, hend, hsent, hbehind⟩ := ih (h.next hone) (round + 1) .progress
          rw [hround, if_pos rfl]
          refine ⟨a :: front, rest, by rw [hws]; rfl, ?_, hone.trans hsent, hbehind⟩
          rw [List.length_cons, Nat.add_right_cancel_iff]
          exact hend

/-- **Polls one after the other**, each with a clock, a limit and a callback of its own. -/
theorem polls_waiting {ws : List Arrival} (h : Behind ring ws tx) (nowMs : ℕ → UInt32) {maxSends : ℕ → ℤ}
    (hmax : ∀ k, 1 ≤ maxSends k) {send : ℕ → ℕ → SendFn} (hsend : ∀ k i, (send k i).TakesAll) (k m : ℕ) :
    ∃ front rest, ws = front ++ rest ∧ (rest = [] ∨ m ≤ front.length) ∧
      SentAll tx front
        (rounds (fun k t => ntripTxPoll t ring (nowMs k) (maxSends k) 0 (send k)) k m tx).2.1
        (rounds (fun k t => ntripTxPoll t ring (nowMs k) (maxSends k) 0 (send k)) k m tx).2.2 := by
  induction m generalizing ws tx k with
  | zero => exact ⟨[], ws, rfl, .inr (Nat.le_refl 0), SentAll.none h.idle⟩
  | succ m ih =>
      obtain ⟨front, rest, hws, hend, hsent, hbehind⟩ :=
        pollLoop_waiting h (nowMs k) (hsend k) (maxSends k).toNat 0 .idle
      obtain ⟨front', rest', hws', hend', hsent'⟩ := ih hbehind (k + 1)
      refine ⟨front ++ front', rest', by rw [hws, hws', List.append_assoc], ?_, hsent.trans hsent'⟩
      have hpos := hmax k
      rcases hend with hnil | hlen
      · rw [hnil] at hws'
        exact .inl (List.append_eq_nil_iff.mp hws'.symm).2
      · rcases hend' with hnil' | hlen'
        · exact .inl hnil'
        · right
          rw [List.length_append]
          omega

/-- A sender that finds nothing never moves. -/
theorem polls_none (hidle : ¬ tx.currentOff < tx.currentLen) (hold : ringOldestSeq ring ≤ tx.cursorSeq)
    (hend : ¬ tx.cursorSeq < ring.nextSeq) (nowMs : ℕ → UInt32) (maxSends : ℕ → ℤ)
    (send : ℕ → ℕ → SendFn) (k m : ℕ) :
    (rounds (fun k t => ntripTxPoll t ring (nowMs k) (maxSends k) 0 (send k)) k m tx).2 = (tx, []) := by
  induction m generalizing k with
  | zero => rfl
  | succ m ih =>
      have hpoll : (ntripTxPoll tx ring (nowMs k) (maxSends k) 0 (send k)).2 = (tx, []) := by
        rw [ntripTxPoll]
        cases (maxSends k).toNat with
        | zero => rfl
        | succ n =>
            rw [pollLoop]
            dsimp only
            rw [pollRound_none hidle hold hend, if_neg Bool.false_ne_true]
      rw [rounds]
      dsimp only
      rw [hpoll]
      dsimp only
      rw [ih (k + 1)]
      rfl

end Polls

/-! ### The sequence number at the wrap -/

/-- A sender that has sent everything the ring took. -/
structure AtEnd (ring : NtripRing) (tx : NtripTx) : Prop where
  cursor_eq : tx.cursorSeq = ring.nextSeq
  cum_eq : tx.cumThrough = ring.cumBytes
  idle : ¬ tx.currentOff < tx.currentLen

theorem toNat_nextSeq_pushAll (pushes : List Arrival) :
    (pushAll ntripRingInit pushes).nextSeq.toNat = (accepted pushes).length % 2 ^ 32 := by
  rw [← pushAll_accepted, nextSeq_pushAll _ fun a => fits_of_mem_accepted]
  show ((0 : UInt32) + UInt32.ofNat (accepted pushes).length).toNat = _
  rw [UInt32.zero_add, UInt32.toNat_ofNat']

/-- The sender after more pushes that do not wrap the number. -/
theorem AtEnd.behind {ring : NtripRing} {tx : NtripTx} (h : AtEnd ring tx) {ks : List Arrival}
    (hfits : ∀ a ∈ ks, a.Fits) (hk : ks.length ≤ rtcmRingSlots)
    (hwrap : ring.nextSeq.toNat + ks.length < 2 ^ 32) : Behind (pushAll ring ks) ks tx := by
  have hwaiting := waiting_pushAll ring hfits hk hwrap
  rw [← h.cursor_eq, ← h.cum_eq] at hwaiting
  refine ⟨h.idle, ?_, hwaiting, ?_⟩
  · rw [UInt32.le_iff_toNat_le, toNat_ringOldestSeq, hwaiting.nextSeq_eq]
    omega
  · intro a ha
    have := (hfits a ha).1
    omega

/-- **Past the wrap** the sender sees no new frame. -/
theorem AtEnd.blind {ring : NtripRing} {tx : NtripTx} (h : AtEnd ring tx) {ks : List Arrival}
    (hfits : ∀ a ∈ ks, a.Fits) (hk : ks.length ≤ rtcmRingSlots)
    (hwrap : 2 ^ 32 ≤ ring.nextSeq.toNat + ks.length) :
    ringOldestSeq (pushAll ring ks) ≤ tx.cursorSeq ∧ ¬ tx.cursorSeq < (pushAll ring ks).nextSeq := by
  have hlt := ring.nextSeq.toNat_lt
  have h16 : rtcmRingSlots = 16 := rfl
  have hnext : (pushAll ring ks).nextSeq.toNat = ring.nextSeq.toNat + ks.length - 2 ^ 32 := by
    rw [nextSeq_pushAll ring hfits, UInt32.toNat_add, UInt32.toNat_ofNat']
    omega
  rw [UInt32.le_iff_toNat_le, UInt32.lt_iff_toNat_lt, toNat_ringOldestSeq, hnext, h.cursor_eq]
  omega

/-- What the sender should do with the frames `ks`: from some poll on, they and nothing else are sent. -/
def SendsJust (ring : NtripRing) (ks : List Arrival) (tx : NtripTx) (nowMs : ℕ → UInt32)
    (maxSends : ℕ → ℤ) (send : ℕ → ℕ → SendFn) : Prop :=
  let poll := fun k t => ntripTxPoll t (pushAll ring ks) (nowMs k) (maxSends k) 0 (send k)
  ∃ n, ∀ m ≥ n, SentAll tx ks (rounds poll 0 m tx).2.1 (rounds poll 0 m tx).2.2

/-- No poll sends a frame whose number has wrapped. -/
theorem not_sendsJust_of_wrap {ring : NtripRing} {tx : NtripTx} (h : AtEnd ring tx) {ks : List Arrival}
    (hfits : ∀ a ∈ ks, a.Fits) (hpos : 1 ≤ ks.length) (hk : ks.length ≤ rtcmRingSlots)
    (hwrap : 2 ^ 32 ≤ ring.nextSeq.toNat + ks.length) (nowMs : ℕ → UInt32) (maxSends : ℕ → ℤ)
    (send : ℕ → ℕ → SendFn) : ¬ SendsJust ring ks tx nowMs maxSends send := by
  rintro ⟨n, hn⟩
  obtain ⟨hold, hend⟩ := h.blind hfits hk hwrap
  have hsent := (hn n (Nat.le_refl n)).sent_eq
  rw [polls_none h.idle hold hend] at hsent
  dsimp only at hsent
  omega

/-- **The frames arrive exactly when the number does not wrap.**  The ring has taken any pushes, the sender is
caught up with it, and at most `RTCM_RING_SLOTS` more frames are pushed. -/
theorem wrap_iff (pushes : List Arrival) {tx : NtripTx} (htx : AtEnd (pushAll ntripRingInit pushes) tx)
    {ks : List Arrival} (hfits : ∀ a ∈ ks, a.Fits) (hpos : 1 ≤ ks.length) (hk : ks.length ≤ rtcmRingSlots)
    (nowMs : ℕ → UInt32) {maxSends : ℕ → ℤ} (hmax : ∀ k, 1 ≤ maxSends k) {send : ℕ → ℕ → SendFn}
    (hsend : ∀ k i, (send k i).TakesAll) :
    SendsJust (pushAll ntripRingInit pushes) ks tx nowMs maxSends send ↔
      (accepted pushes).length % 2 ^ 32 + ks.length < 2 ^ 32 := by
  rw [← toNat_nextSeq_pushAll]
  constructor
  · intro hsends
    by_contra hwrap
    exact not_sendsJust_of_wrap htx hfits hpos hk (Nat.le_of_not_lt hwrap) nowMs maxSends send hsends
  · intro hwrap
    refine ⟨ks.length, ?_⟩
    intro m hm
    obtain ⟨front, rest, hws, hend, hsent⟩ :=
      polls_waiting (htx.behind hfits hk hwrap) nowMs hmax hsend 0 m
    have hall : front = ks := by
      have hlen := congrArg List.length hws
      rw [List.length_append] at hlen
      have hnil : rest = [] := by
        rcases hend with hnil | hlong
        · exact hnil
        · exact List.eq_nil_of_length_eq_zero (by omega)
      rw [hws, hnil, List.append_nil]
    rw [hall] at hsent
    exact hsent

def shortFrame : Arrival := ⟨List.replicate 6 preamble, 10⟩

/-- One frame behind, one frame to come. -/
theorem wrap_iff_second :
    SendsJust (pushAll ntripRingInit [shortFrame]) [shortFrame]
      { ntripTxInit with cursorSeq := 1, cumThrough := 6 } (fun _ => 11) (fun _ => 2)
      fun _ => sendAll :=
  (wrap_iff [shortFrame] ⟨rfl, rfl, Nat.lt_irrefl 0⟩ (by decide) (by decide) (by decide) (fun _ => 11)
    (fun _ => by decide) fun _ _ _ => rfl).mpr (by decide)

/-- So many frames that the next one is the last before the wrap. -/
def lapPushes : List Arrival := List.replicate 4294967295 shortFrame

/-- The sender that has sent them all. -/
def lapTx : NtripTx := { ntripTxInit with cursorSeq := 4294967295, cumThrough := 25769803770 }

theorem accepted_replicate (n : ℕ) {a : Arrival} (h : a.Fits) :
    accepted (List.replicate n a) = List.replicate n a := by
  apply List.filter_eq_self.mpr
  intro b hb
  rw [List.eq_of_mem_replicate hb]
  exact decide_eq_true h

theorem cumBytes_pushAll (r : NtripRing) {ks : List Arrival} (hfits : ∀ a ∈ ks, a.Fits) :
    (pushAll r ks).cumBytes = r.cumBytes + totalBytes ks := by
  induction ks generalizing r with
  | nil => rfl
  | cons a ks ih =>
      rw [pushAll_cons, ih _ fun b hb => hfits b (List.mem_cons_of_mem _ hb),
        push_cumBytes r (hfits a List.mem_cons_self), Nat.add_assoc]
      rfl

theorem totalBytes_replicate (n : ℕ) (a : Arrival) :
    totalBytes (List.replicate n a) = n * a.frame.length := by
  rw [totalBytes, List.map_replicate, List.sum_replicate_nat]

theorem lapTx_atEnd : AtEnd (pushAll ntripRingInit lapPushes) lapTx := by
  have hfits : ∀ a ∈ lapPushes, a.Fits := by
    intro a ha
    rw [List.eq_of_mem_replicate ha]
    decide
  refine ⟨?_, ?_, Nat.lt_irrefl 0⟩
  · rw [← UInt32.toNat_inj, toNat_nextSeq_pushAll, lapPushes, accepted_replicate _ (by decide),
      List.length_replicate]
    rfl
  · rw [cumBytes_pushAll _ hfits, lapPushes, totalBytes_replicate]
    rfl

/-- **The frame at the wrap is never sent**, nor any after it until the numbers have come round. -/
theorem wrap_loses_frame :
    (accepted lapPushes).length = 2 ^ 32 - 1 ∧ AtEnd (pushAll ntripRingInit lapPushes) lapTx ∧
      ¬ SendsJust (pushAll ntripRingInit lapPushes) [shortFrame] lapTx (fun _ => 11) (fun _ => 2)
        fun _ => sendAll := by
  have hlen : (accepted lapPushes).length = 2 ^ 32 - 1 := by
    rw [lapPushes, accepted_replicate _ (by decide), List.length_replicate]
    rfl
  have hnext := toNat_nextSeq_pushAll lapPushes
  rw [hlen] at hnext
  refine ⟨hlen, lapTx_atEnd, ?_⟩
  apply not_sendsJust_of_wrap lapTx_atEnd (by decide) (by decide) (by decide)
  rw [hnext]
  decide

end RtkdataFw.TxCore
