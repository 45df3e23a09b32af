import RtkdataFw.Lib.Draining
import RtkdataFw.TxCore.Accounting

/-!
# Draining delivers everything resident

* `due` — what repeated polls still have to deliver: the rest of the current frame, then the waiting frames that
  are not stale;
* `pollRound_pays`, `poll_pays` — with a callback that takes something, a round and a poll deliver the front
  of it, or find nothing;
* `pollOffers` — the calls that a poll makes of its callback, and `poll_congr` — there are no others;
* `drain_delivers` — the polls reach `IDLE`, and have then delivered what was due.
-/

namespace RtkdataFw.TxCore

open RtkdataFw.Lib

/-- A callback that takes at least a byte and at most all of what it is offered. -/
def SendFn.Accepting (send : SendFn) : Prop := ∀ buf, buf ≠ [] → 1 ≤ (send buf).n ∧ (send buf).n ≤ buf.length

/-- The slots of the sequence numbers from `c` on. -/
def NtripRing.slotsFrom (r : NtripRing) (c : ℕ) : List RingSlot :=
  (List.range' c (r.nextSeq.toNat - c)).map fun i => r.slotOf (UInt32.ofNat i)

/-- The first frame that a sender has not passed and the ring still has. -/
def firstDue (tx : NtripTx) (ring : NtripRing) : ℕ := max tx.cursorSeq.toNat (ringOldestSeq ring).toNat

def waitingSlots (ring : NtripRing) (nowMs staleMs : UInt32) (c : ℕ) : List RingSlot :=
  (ring.slotsFrom c).filter fun s => ¬ isStale s nowMs staleMs

/-- What is still to be delivered. -/
def due (ring : NtripRing) (nowMs staleMs : UInt32) (tx : NtripTx) : List UInt8 :=
  tx.unsent ++ (waitingSlots ring nowMs staleMs (firstDue tx ring)).flatMap RingSlot.data

/-! ### The waiting frames -/

theorem mem_slotsFrom {r : NtripRing} {c : ℕ} {s : RingSlot} :
    s ∈ r.slotsFrom c ↔ ∃ i, c ≤ i ∧ i < r.nextSeq.toNat ∧ r.slotOf (UInt32.ofNat i) = s := by
  rw [NtripRing.slotsFrom, List.mem_map]
  apply exists_congr
  intro i
  rw [List.mem_range'_1, ← and_assoc]
  apply and_congr_left
  intro _
  omega

theorem slotsFrom_mono {r : NtripRing} {c c' : ℕ} (h : c ≤ c') {s : RingSlot} (hs : s ∈ r.slotsFrom c') :
    s ∈ r.slotsFrom c := by
  obtain ⟨i, hi, hlt, heq⟩ := mem_slotsFrom.mp hs
  exact mem_slotsFrom.mpr ⟨i, h.trans hi, hlt, heq⟩

/-- The frame at the cursor, and the later ones. -/
theorem slotsFrom_cursor {r : NtripRing} {cursor : UInt32} (h : cursor < r.nextSeq) :
    r.slotsFrom cursor.toNat = r.slotOf cursor :: r.slotsFrom (cursor + 1).toNat := by
  have hlt := UInt32.lt_iff_toNat_lt.mp h
  rw [NtripRing.slotsFrom, NtripRing.slotsFrom, cursor_succ h,
    show r.nextSeq.toNat - cursor.toNat = (r.nextSeq.toNat - (cursor.toNat + 1)) + 1 by omega,
    List.range'_succ, List.map_cons, UInt32.ofNat_toNat]

theorem slotsFrom_caughtUp {r : NtripRing} {c : ℕ} (h : r.nextSeq.toNat ≤ c) : r.slotsFrom c = [] := by
  rw [NtripRing.slotsFrom, Nat.sub_eq_zero_of_le h]
  rfl

/-! ### What a sender needs to deliver -/

/-- A sender whose frames all have bytes to send. -/
structure Drainable (ring : NtripRing) (tx : NtripTx) : Prop where
  cursor_le : tx.cursorSeq.toNat ≤ ring.nextSeq.toNat
  len_eq : tx.currentOff < tx.currentLen → tx.currentLen = tx.current.length
  filled : ∀ s ∈ ring.slotsFrom (firstDue tx ring), s.data ≠ []

theorem drainable_of_ok {h : List Arrival} {ring : NtripRing} {past evs : List TxEvent} {b : ℕ} {tx : NtripTx}
    (hr : RingOk h ring) (hs : SenderOk h past b tx evs) : Drainable ring tx where
  cursor_le := by
    rw [hr.nextSeq_eq]
    exact hs.books.cursor_le
  len_eq := hs.books.len_eq
  filled := by
    intro s hmem
    obtain ⟨i, hge, hlt, rfl⟩ := mem_slotsFrom.mp hmem
    rw [hr.nextSeq_eq] at hlt
    have hold := hr.oldest
    have hi : (UInt32.ofNat i).toNat = i := by
      have := hr.length_lt
      rw [UInt32.toNat_ofNat']
      omega
    have hres : h.length ≤ i + rtcmRingSlots := by
      have hmax : (ringOldestSeq ring).toNat ≤ i := (Nat.le_max_right _ _).trans hge
      omega
    rw [hr.slotOf (by rwa [hi]) (by rwa [hi]), hi]
    exact List.ne_nil_of_length_pos (hr.slotAt_len_pos hlt)

theorem unsent_of_open {tx : NtripTx} (hlen : tx.currentOff < tx.currentLen → tx.currentLen = tx.current.length)
    (hopen : tx.currentOff < tx.currentLen) : tx.unsent.length = tx.currentLen - tx.currentOff := by
  have := hlen hopen
  rw [NtripTx.unsent, List.length_take, List.length_drop]
  omega

theorem unsent_of_idle {tx : NtripTx} (hidle : ¬ tx.currentOff < tx.currentLen) : tx.unsent = [] := by
  rw [NtripTx.unsent, Nat.sub_eq_zero_of_le (Nat.not_lt.mp hidle), List.take_zero]

/-! ### Copying -/

theorem acceptedBytes_copyLoop (tx : NtripTx) (ring : NtripRing) (nowMs staleMs : UInt32) :
    acceptedBytes (txCopyLoop tx ring nowMs staleMs).2.2 = [] := by
  fun_induction txCopyLoop tx ring nowMs staleMs with
  | case1 tx hlt s hstale r =>
      rename_i ih
      exact ih
  | case2 tx hlt s => rfl
  | case3 tx hge => rfl

theorem acceptedBytes_copyNext (tx : NtripTx) (ring : NtripRing) (nowMs staleMs : UInt32) :
    acceptedBytes (txCopyNext tx ring nowMs staleMs).2.2 = [] := by
  have hjump : acceptedBytes (txJump tx ring).2 = [] := by
    rcases txJump_cases tx ring with ⟨_, h⟩ | ⟨_, h⟩
    · rw [h]
      rfl
    · rw [h]
      rfl
  rw [txCopyNext, acceptedBytes_append, hjump, List.nil_append]
  exact acceptedBytes_copyLoop _ _ _ _

/-- A sender that has found no frame to send. -/
structure CaughtUp (ring : NtripRing) (tx : NtripTx) : Prop where
  cursor_eq : tx.cursorSeq = ring.nextSeq
  idle : ¬ tx.currentOff < tx.currentLen

/-- A sender that has just copied the frame in `s`. -/
structure Took (s : RingSlot) (tx : NtripTx) : Prop where
  current_eq : tx.current = s.data
  len_eq : tx.currentLen = s.len
  off_eq : tx.currentOff = 0

theorem Took.unsent {s : RingSlot} {tx : NtripTx} (h : Took s tx) : tx.unsent = s.data := by
  rw [NtripTx.unsent, h.current_eq, h.len_eq, h.off_eq]
  exact List.take_length

/-- **The loop over stale frames** takes the first waiting frame, or finds none. -/
theorem txCopyLoop_waiting (tx : NtripTx) (ring : NtripRing) (nowMs staleMs : UInt32)
    (hle : tx.cursorSeq.toNat ≤ ring.nextSeq.toNat) (hidle : ¬ tx.currentOff < tx.currentLen) :
    ((txCopyLoop tx ring nowMs staleMs).1 = false ∧
        waitingSlots ring nowMs staleMs tx.cursorSeq.toNat = [] ∧
        CaughtUp ring (txCopyLoop tx ring nowMs staleMs).2.1) ∨
      ((txCopyLoop tx ring nowMs staleMs).1 = true ∧
        tx.cursorSeq.toNat ≤ (txCopyLoop tx ring nowMs staleMs).2.1.cursorSeq.toNat ∧
        (txCopyLoop tx ring nowMs staleMs).2.1.cursorSeq.toNat ≤ ring.nextSeq.toNat ∧
        ∃ s, Took s (txCopyLoop tx ring nowMs staleMs).2.1 ∧
          waitingSlots ring nowMs staleMs tx.cursorSeq.toNat =
            s :: waitingSlots ring nowMs staleMs (txCopyLoop tx ring nowMs staleMs).2.1.cursorSeq.toNat) := by
  fun_induction txCopyLoop tx ring nowMs staleMs with
  | case1 tx hlt s hstale r =>
      rename_i ih
      have hsucc := cursor_succ hlt
      have hlt' := UInt32.lt_iff_toNat_lt.mp hlt
      have hskip : waitingSlots ring nowMs staleMs tx.cursorSeq.toNat =
          waitingSlots ring nowMs staleMs (txDropStale tx s).cursorSeq.toNat := by
        rw [waitingSlots, slotsFrom_cursor hlt, List.filter_cons_of_neg (by simpa using hstale)]
        rfl
      have hcursor : (txDropStale tx s).cursorSeq.toNat = tx.cursorSeq.toNat + 1 := hsucc
      have hrest := ih (by omega) hidle
      rw [← hskip] at hrest
      rcases hrest with hnone | ⟨hcopied, hge, hle', htook⟩
      · exact Or.inl hnone
      · have hup : tx.cursorSeq.toNat ≤ (txDropStale tx s).cursorSeq.toNat := by omega
        exact Or.inr ⟨hcopied, hup.trans hge, hle', htook⟩
  | case2 tx hlt s =>
      rename_i hfresh
      have hsucc := cursor_succ hlt
      have hlt' := UInt32.lt_iff_toNat_lt.mp hlt
      have hcursor : (txTake tx s nowMs).cursorSeq.toNat = tx.cursorSeq.toNat + 1 := hsucc
      have hup : tx.cursorSeq.toNat ≤ (txTake tx s nowMs).cursorSeq.toNat := by omega
      have hnext : (txTake tx s nowMs).cursorSeq.toNat ≤ ring.nextSeq.toNat := by omega
      refine Or.inr ⟨rfl, hup, hnext, s, ⟨rfl, rfl, rfl⟩, ?_⟩
      rw [waitingSlots, slotsFrom_cursor hlt, List.filter_cons_of_pos (by simpa using hfresh)]
      rfl
  | case3 tx hge =>
      rw [UInt32.lt_iff_toNat_lt] at hge
      refine Or.inl ⟨rfl, ?_, ?_, hidle⟩
      · rw [waitingSlots, slotsFrom_caughtUp (Nat.not_lt.mp hge)]
        rfl
      · rw [← UInt32.toNat_inj]
        show tx.cursorSeq.toNat = ring.nextSeq.toNat
        omega

theorem txJump_cursor (tx : NtripTx) (ring : NtripRing) :
    (txJump tx ring).1.cursorSeq.toNat = firstDue tx ring := by
  rw [firstDue]
  rcases txJump_cases tx ring with ⟨hlt, h⟩ | ⟨hge, h⟩
  · rw [UInt32.lt_iff_toNat_lt] at hlt
    rw [h, Nat.max_eq_right hlt.le]
    rfl
  · rw [UInt32.lt_iff_toNat_lt] at hge
    rw [h, Nat.max_eq_left (Nat.not_lt.mp hge)]

theorem oldest_le_next (ring : NtripRing) : (ringOldestSeq ring).toNat ≤ ring.nextSeq.toNat := by
  rw [toNat_ringOldestSeq]
  exact Nat.sub_le _ _

/-- **`tx_copy_next` on a sender with nothing pending.** -/
theorem txCopyNext_waiting {ring : NtripRing} {tx : NtripTx} (hs : Drainable ring tx)
    (hidle : ¬ tx.currentOff < tx.currentLen) (nowMs staleMs : UInt32) :
    ((txCopyNext tx ring nowMs staleMs).1 = false ∧
        waitingSlots ring nowMs staleMs (firstDue tx ring) = [] ∧
        CaughtUp ring (txCopyNext tx ring nowMs staleMs).2.1) ∨
      ((txCopyNext tx ring nowMs staleMs).1 = true ∧
        firstDue tx ring ≤ (txCopyNext tx ring nowMs staleMs).2.1.cursorSeq.toNat ∧
        (txCopyNext tx ring nowMs staleMs).2.1.cursorSeq.toNat ≤ ring.nextSeq.toNat ∧
        ∃ s, Took s (txCopyNext tx ring nowMs staleMs).2.1 ∧
          waitingSlots ring nowMs staleMs (firstDue tx ring) =
            s :: waitingSlots ring nowMs staleMs (txCopyNext tx ring nowMs staleMs).2.1.cursorSeq.toNat) := by
  have hle : firstDue tx ring ≤ ring.nextSeq.toNat := Nat.max_le.mpr ⟨hs.cursor_le, oldest_le_next ring⟩
  rw [← txJump_cursor] at hle ⊢
  exact txCopyLoop_waiting (txJump tx ring).1 ring nowMs staleMs hle (txJump_idle hidle)

/-! ### Sending -/

theorem acceptedBytes_append_sent (bytes : List UInt8) : acceptedBytes [.accepted bytes, .sent] = bytes := by
  simp [acceptedBytes]

/-- Accepting takes the front of the unsent bytes. -/
theorem txAccept_unsent {tx : NtripTx} (hlen : tx.currentOff < tx.currentLen → tx.currentLen = tx.current.length)
    (hopen : tx.currentOff < tx.currentLen) (n : ℕ) (nowMs : UInt32) :
    acceptedBytes (txAccept tx n nowMs).2 = tx.unsent.take n ∧
      (txAccept tx n nowMs).1.unsent = tx.unsent.drop n ∧
      (txAccept tx n nowMs).1.cursorSeq = tx.cursorSeq ∧
      ((txAccept tx n nowMs).1.currentOff < (txAccept tx n nowMs).1.currentLen →
        (txAccept tx n nowMs).1.currentLen = (txAccept tx n nowMs).1.current.length) := by
  have hunsent := unsent_of_open hlen hopen
  rcases txAccept_cases tx n nowMs with ⟨hfull, haccept⟩ | ⟨hpart, haccept⟩
  · rw [haccept]
    refine ⟨acceptedBytes_append_sent _, ?_, rfl, fun h => absurd h (Nat.lt_irrefl 0)⟩
    rw [List.drop_of_length_le (by omega)]
    exact unsent_of_idle (Nat.lt_irrefl 0)
  · rw [haccept]
    refine ⟨List.append_nil _, ?_, rfl, fun _ => hlen hopen⟩
    simp only [NtripTx.unsent, List.drop_take, List.drop_drop, Nat.sub_sub]

/-- What a send attempt with an accepting callback does. -/
structure Sent (tx : NtripTx) (r : Round) : Prop where
  again : r.again = true
  result : r.result = .progress
  cursor_eq : r.tx.cursorSeq = tx.cursorSeq
  len_eq : r.tx.currentOff < r.tx.currentLen → r.tx.currentLen = r.tx.current.length
  some : acceptedBytes r.evs ≠ []
  bytes : acceptedBytes r.evs ++ r.tx.unsent = tx.unsent

theorem pollSend_accepting {tx : NtripTx} (hlen : tx.currentOff < tx.currentLen → tx.currentLen = tx.current.length)
    (hopen : tx.currentOff < tx.currentLen) (nowMs : UInt32) {send : SendFn} (hsend : send.Accepting) :
    Sent tx (pollSend tx nowMs send) := by
  have hunsent := unsent_of_open hlen hopen
  have hne : tx.unsent ≠ [] := List.ne_nil_of_length_pos (by omega)
  obtain ⟨hone, hall⟩ := hsend tx.unsent hne
  have hround : pollSend tx nowMs send =
      ⟨true, .progress, (txAccept tx (send tx.unsent).n.toNat nowMs).1,
        (txAccept tx (send tx.unsent).n.toNat nowMs).2⟩ := if_pos (by omega)
  obtain ⟨hbytes, hrest, hcursor, hlen'⟩ :=
    txAccept_unsent hlen hopen (send tx.unsent).n.toNat nowMs
  rw [hround]
  refine ⟨rfl, rfl, hcursor, hlen', ?_, ?_⟩
  · show acceptedBytes (txAccept tx (send tx.unsent).n.toNat nowMs).2 ≠ []
    rw [hbytes]
    apply List.ne_nil_of_length_pos
    rw [List.length_take]
    omega
  · show acceptedBytes (txAccept tx (send tx.unsent).n.toNat nowMs).2 ++ _ = tx.unsent
    rw [hbytes, hrest, List.take_append_drop]

/-! ### Rounds and polls -/

section Polls

variable {ring : NtripRing} {tx : NtripTx} (nowMs staleMs : UInt32)

theorem oldest_le_firstDue (tx : NtripTx) (ring : NtripRing) : (ringOldestSeq ring).toNat ≤ firstDue tx ring :=
  Nat.le_max_right _ _

theorem firstDue_of_le {tx : NtripTx} (h : (ringOldestSeq ring).toNat ≤ tx.cursorSeq.toNat) :
    firstDue tx ring = tx.cursorSeq.toNat := Nat.max_eq_left h

/-- A sender that has just copied a frame of the ring. -/
theorem Took.drainable {s : RingSlot} {tx' : NtripTx} (h : Took s tx') (hs : Drainable ring tx)
    (hge : firstDue tx ring ≤ tx'.cursorSeq.toNat) (hle : tx'.cursorSeq.toNat ≤ ring.nextSeq.toNat) :
    Drainable ring tx' where
  cursor_le := hle
  len_eq := by
    intro _
    rw [h.len_eq, h.current_eq]
    rfl
  filled := by
    intro s' hmem
    rw [firstDue_of_le ((oldest_le_firstDue tx ring).trans hge)] at hmem
    exact hs.filled s' (slotsFrom_mono hge hmem)

/-- A send attempt keeps what is due, but for what is accepted. -/
theorem Sent.pays {r : Round} (h : Sent tx r) (hs : Drainable ring tx) :
    Drainable ring r.tx ∧ acceptedBytes r.evs ++ due ring nowMs staleMs r.tx = due ring nowMs staleMs tx := by
  have hfirst : firstDue r.tx ring = firstDue tx ring := by rw [firstDue, h.cursor_eq, firstDue]
  refine ⟨⟨?_, h.len_eq, ?_⟩, ?_⟩
  · rw [h.cursor_eq]
    exact hs.cursor_le
  · rw [hfirst]
    exact hs.filled
  · rw [due, due, hfirst, ← List.append_assoc, h.bytes]

/-- Taking the first waiting frame leaves what is due, with that frame open. -/
theorem Took.pays {s : RingSlot} {tx' : NtripTx} (h : Took s tx') (hs : Drainable ring tx)
    (hidle : ¬ tx.currentOff < tx.currentLen) (hge : firstDue tx ring ≤ tx'.cursorSeq.toNat)
    (hwaiting : waitingSlots ring nowMs staleMs (firstDue tx ring) =
      s :: waitingSlots ring nowMs staleMs tx'.cursorSeq.toNat) :
    tx'.currentOff < tx'.currentLen ∧ due ring nowMs staleMs tx' = due ring nowMs staleMs tx := by
  constructor
  · have hmem : s ∈ waitingSlots ring nowMs staleMs (firstDue tx ring) := by
      rw [hwaiting]
      exact List.mem_cons_self
    have hdata : s.data ≠ [] := hs.filled s (List.mem_of_mem_filter hmem)
    rw [h.off_eq, h.len_eq]
    exact List.length_pos_of_ne_nil hdata
  · rw [due, due, h.unsent, unsent_of_idle hidle, hwaiting,
      firstDue_of_le ((oldest_le_firstDue tx ring).trans hge)]
    rfl

/-- **One round.**  While something is due it delivers the front of it; otherwise it finds the sender caught
up. -/
theorem pollRound_pays (hs : Drainable ring tx) {send : SendFn} (hsend : send.Accepting) (result : PollResult) :
    (due ring nowMs staleMs tx = [] ∧ (pollRound tx ring nowMs staleMs send result).again = false ∧
        (pollRound tx ring nowMs staleMs send result).result = result ∧
        CaughtUp ring (pollRound tx ring nowMs staleMs send result).tx ∧
        acceptedBytes (pollRound tx ring nowMs staleMs send result).evs = []) ∨
      ((pollRound tx ring nowMs staleMs send result).again = true ∧
        (pollRound tx ring nowMs staleMs send result).result = .progress ∧
        Drainable ring (pollRound tx ring nowMs staleMs send result).tx ∧
        acceptedBytes (pollRound tx ring nowMs staleMs send result).evs ≠ [] ∧
        acceptedBytes (pollRound tx ring nowMs staleMs send result).evs ++
          due ring nowMs staleMs (pollRound tx ring nowMs staleMs send result).tx = due ring nowMs staleMs tx) := by
  by_cases hopen : tx.currentOff < tx.currentLen
  · have hround : pollRound tx ring nowMs staleMs send result = pollSend tx nowMs send :=
      if_neg (Nat.not_le.mpr hopen)
    have hsent := pollSend_accepting hs.len_eq hopen nowMs hsend
    obtain ⟨hdrain, hbytes⟩ := hsent.pays nowMs staleMs hs
    rw [hround]
    exact Or.inr ⟨hsent.again, hsent.result, hdrain, hsent.some, hbytes⟩
  · have hquiet := acceptedBytes_copyNext tx ring nowMs staleMs
    rcases txCopyNext_waiting hs hopen nowMs staleMs with
      ⟨hcopied, hnone, hdone⟩ | ⟨hcopied, hge, hle, s, htook, hwaiting⟩
    · have hround : pollRound tx ring nowMs staleMs send result =
          ⟨false, result, (txCopyNext tx ring nowMs staleMs).2.1, (txCopyNext tx ring nowMs staleMs).2.2⟩ :=
        (if_pos (Nat.not_lt.mp hopen)).trans (if_neg (by rw [hcopied]; decide))
      refine Or.inl ⟨?_, ?_⟩
      · rw [due, unsent_of_idle hopen, hnone]
        rfl
      · rw [hround]
        exact ⟨rfl, rfl, hdone, hquiet⟩
    · generalize htx' : (txCopyNext tx ring nowMs staleMs).2.1 = tx' at *
      have hround : pollRound tx ring nowMs staleMs send result =
          { pollSend tx' nowMs send with
            evs := (txCopyNext tx ring nowMs staleMs).2.2 ++ (pollSend tx' nowMs send).evs } := by
        rw [← htx']
        exact (if_pos (Nat.not_lt.mp hopen)).trans (if_pos hcopied)
      have hdrain' := htook.drainable hs hge hle
      obtain ⟨hopen', hdue⟩ := htook.pays nowMs staleMs hs hopen hge hwaiting
      have hsent := pollSend_accepting hdrain'.len_eq hopen' nowMs hsend
      obtain ⟨hdrain, hbytes⟩ := hsent.pays nowMs staleMs hdrain'
      rw [hround]
      dsimp only
      rw [acceptedBytes_append, hquiet, List.nil_append, hbytes, hdue]
      exact Or.inr ⟨hsent.again, hsent.result, hdrain, hsent.some, rfl⟩

theorem CaughtUp.firstDue (h : CaughtUp ring tx) : ring.nextSeq.toNat ≤ firstDue tx ring := by
  rw [← h.cursor_eq]
  exact Nat.le_max_left _ _

theorem CaughtUp.drainable (h : CaughtUp ring tx) : Drainable ring tx where
  cursor_le := by rw [h.cursor_eq]
  len_eq := fun hopen => absurd hopen h.idle
  filled := by
    intro s hmem
    rw [slotsFrom_caughtUp h.firstDue] at hmem
    exact absurd hmem List.not_mem_nil

theorem CaughtUp.due_eq (h : CaughtUp ring tx) : due ring nowMs staleMs tx = [] := by
  rw [due, unsent_of_idle h.idle, waitingSlots, slotsFrom_caughtUp h.firstDue]
  rfl

/-- The rounds after some progress. -/
theorem pollLoop_pays (hs : Drainable ring tx) {send : ℕ → SendFn} (hsend : ∀ j, (send j).Accepting)
    (n round : ℕ) :
    (pollLoop ring nowMs staleMs send n round .progress tx).1 = .progress ∧
      Drainable ring (pollLoop ring nowMs staleMs send n round .progress tx).2.1 ∧
      acceptedBytes (pollLoop ring nowMs staleMs send n round .progress tx).2.2 ++
        due ring nowMs staleMs (pollLoop ring nowMs staleMs send n round .progress tx).2.1 =
          due ring nowMs staleMs tx := by
  induction n generalizing round tx with
  | zero => exact ⟨rfl, hs, rfl⟩
  | succ n ih =>
      rw [pollLoop]
      dsimp only
      rcases pollRound_pays nowMs staleMs hs (hsend round) .progress with
        ⟨hdue, hstop, hresult, hdone, hquiet⟩ | ⟨hagain, hresult, hdrain, _, hbytes⟩
      · rw [if_neg (by rw [hstop]; decide)]
        refine ⟨hresult, hdone.drainable, ?_⟩
        show acceptedBytes (pollRound tx ring nowMs staleMs (send round) .progress).evs ++
          due ring nowMs staleMs (pollRound tx ring nowMs staleMs (send round) .progress).tx = _
        rw [hquiet, hdone.due_eq, hdue]
        rfl
      · obtain ⟨hrest, hdrain', hbytes'⟩ := ih hdrain (round + 1)
        rw [if_pos hagain, hresult]
        refine ⟨hrest, hdrain', ?_⟩
        rw [acceptedBytes_append, List.append_assoc, hbytes', hbytes]

/-- **One poll.** -/
theorem poll_pays (hs : Drainable ring tx) {send : ℕ → SendFn} (hsend : ∀ j, (send j).Accepting) {maxSends : ℤ}
    (hmax : 1 ≤ maxSends) :
    (due ring nowMs staleMs tx = [] ∧ (ntripTxPoll tx ring nowMs maxSends staleMs send).1 = .idle ∧
        CaughtUp ring (ntripTxPoll tx ring nowMs maxSends staleMs send).2.1 ∧
        acceptedBytes (ntripTxPoll tx ring nowMs maxSends staleMs send).2.2 = []) ∨
      ((ntripTxPoll tx ring nowMs maxSends staleMs send).1 = .progress ∧
        Drainable ring (ntripTxPoll tx ring nowMs maxSends staleMs send).2.1 ∧
        acceptedBytes (ntripTxPoll tx ring nowMs maxSends staleMs send).2.2 ≠ [] ∧
        acceptedBytes (ntripTxPoll tx ring nowMs maxSends staleMs send).2.2 ++
          due ring nowMs staleMs (ntripTxPoll tx ring nowMs maxSends staleMs send).2.1 =
            due ring nowMs staleMs tx) := by
  obtain ⟨n, hn⟩ : ∃ n, maxSends.toNat = n + 1 := ⟨maxSends.toNat - 1, by omega⟩
  rw [ntripTxPoll, hn, pollLoop]
  dsimp only
  rcases pollRound_pays nowMs staleMs hs (hsend 0) .idle with
    ⟨hdue, hstop, hresult, hdone, hquiet⟩ | ⟨hagain, hresult, hdrain, hsome, hbytes⟩
  · rw [if_neg (by rw [hstop]; decide)]
    exact Or.inl ⟨hdue, hresult, hdone, hquiet⟩
  · obtain ⟨hrest, hdrain', hbytes'⟩ := pollLoop_pays nowMs staleMs hdrain hsend n 1
    rw [if_pos hagain, hresult]
    refine Or.inr ⟨hrest, hdrain', ?_, ?_⟩
    · rw [acceptedBytes_append]
      exact List.append_ne_nil_of_left_ne_nil hsome _
    · rw [acceptedBytes_append, List.append_assoc, hbytes', hbytes]

end Polls

/-! ### The calls of the callback -/

/-- What a round offers to the callback, when it gets that far. -/
def roundOffer (tx : NtripTx) (ring : NtripRing) (nowMs staleMs : UInt32) : Option (List UInt8) :=
  if tx.currentOff ≥ tx.currentLen then
    let c := txCopyNext tx ring nowMs staleMs
    if c.1 then some c.2.1.unsent else none
  else some tx.unsent

/-- The rounds of a poll that call the callback, each with what it offers. -/
def loopOffers (ring : NtripRing) (nowMs staleMs : UInt32) (send : ℕ → SendFn) :
    ℕ → ℕ → PollResult → NtripTx → List (ℕ × List UInt8)
  | 0, _, _, _ => []
  | rounds + 1, round, result, tx =>
      let r := pollRound tx ring nowMs staleMs (send round) result
      ((roundOffer tx ring nowMs staleMs).map fun buf => (round, buf)).toList ++
        if r.again then loopOffers ring nowMs staleMs send rounds (round + 1) r.result r.tx else []

def pollOffers (tx : NtripTx) (ring : NtripRing) (nowMs : UInt32) (maxSends : ℤ) (staleMs : UInt32)
    (send : ℕ → SendFn) : List (ℕ × List UInt8) :=
  loopOffers ring nowMs staleMs send maxSends.toNat 0 .idle tx

section Offers

variable (tx : NtripTx) (ring : NtripRing) (nowMs staleMs : UInt32)

theorem pollSend_congr {send send' : SendFn} (h : send tx.unsent = send' tx.unsent) :
    pollSend tx nowMs send = pollSend tx nowMs send' := by
  unfold pollSend
  rw [h]

/-- A round depends on the callback in what it offers only. -/
theorem pollRound_congr {send send' : SendFn} (result : PollResult)
    (h : ∀ buf ∈ roundOffer tx ring nowMs staleMs, send buf = send' buf) :
    pollRound tx ring nowMs staleMs send result = pollRound tx ring nowMs staleMs send' result := by
  unfold roundOffer at h
  unfold pollRound
  split
  · rename_i hidle
    rw [if_pos hidle] at h
    dsimp only at h ⊢
    split
    · rename_i hcopied
      rw [if_pos hcopied] at h
      rw [pollSend_congr _ nowMs (h _ rfl)]
    · rfl
  · rename_i hopen
    rw [if_neg hopen] at h
    exact pollSend_congr tx nowMs (h _ rfl)

/-- A round that calls the callback does not say `IDLE`, and one that does not ends the poll. -/
theorem pollRound_offer (send : SendFn) (result : PollResult) :
    (roundOffer tx ring nowMs staleMs = none ∧ (pollRound tx ring nowMs staleMs send result).again = false ∧
        (pollRound tx ring nowMs staleMs send result).result = result) ∨
      (roundOffer tx ring nowMs staleMs).isSome = true ∧
        (pollRound tx ring nowMs staleMs send result).result ≠ .idle := by
  have hsend : ∀ t, (pollSend t nowMs send).result ≠ .idle := by
    intro t
    rcases pollSend_cases t nowMs send with ⟨_, h⟩ | h | ⟨err, h⟩
    · rw [h]
      exact PollResult.noConfusion
    · rw [h]
      exact PollResult.noConfusion
    · rw [h]
      exact PollResult.noConfusion
  unfold roundOffer pollRound
  split
  · dsimp only
    split
    · exact Or.inr ⟨rfl, hsend _⟩
    · exact Or.inl ⟨rfl, rfl, rfl⟩
  · exact Or.inr ⟨rfl, hsend tx⟩

theorem length_loopOffers (send : ℕ → SendFn) (n round : ℕ) (result : PollResult) :
    (loopOffers ring nowMs staleMs send n round result tx).length ≤ n := by
  induction n generalizing round result tx with
  | zero => exact Nat.le_refl 0
  | succ n ih =>
      rw [loopOffers, List.length_append]
      have hone : ((roundOffer tx ring nowMs staleMs).map fun buf => (round, buf)).toList.length ≤ 1 := by
        cases roundOffer tx ring nowMs staleMs
        · exact Nat.zero_le 1
        · exact Nat.le_refl 1
      split
      · have hrest := ih (pollRound tx ring nowMs staleMs (send round) result).tx (round + 1)
          (pollRound tx ring nowMs staleMs (send round) result).result
        omega
      · rw [List.length_nil]
        omega

theorem pollLoop_not_idle (send : ℕ → SendFn) (n round : ℕ) {result : PollResult} (hres : result ≠ .idle) :
    (pollLoop ring nowMs staleMs send n round result tx).1 ≠ .idle := by
  induction n generalizing round result tx with
  | zero => exact hres
  | succ n ih =>
      have hround : (pollRound tx ring nowMs staleMs (send round) result).result ≠ .idle := by
        rcases pollRound_offer tx ring nowMs staleMs (send round) result with ⟨_, _, h⟩ | ⟨_, h⟩
        · rwa [h]
        · exact h
      rw [pollLoop]
      dsimp only
      split
      · exact ih _ (round + 1) hround
      · exact hround

theorem loopOffers_idle (send : ℕ → SendFn) (n round : ℕ)
    (h : (pollLoop ring nowMs staleMs send n round .idle tx).1 = .idle) :
    loopOffers ring nowMs staleMs send n round .idle tx = [] := by
  cases n with
  | zero => rfl
  | succ n =>
      rw [pollLoop] at h
      rw [loopOffers]
      dsimp only at h ⊢
      rcases pollRound_offer tx ring nowMs staleMs (send round) .idle with ⟨hnone, hstop, _⟩ | ⟨_, hbusy⟩
      · rw [hnone, if_neg (by rw [hstop]; decide)]
        rfl
      · split at h
        · exact absurd h (pollLoop_not_idle _ ring nowMs staleMs send n (round + 1) hbusy)
        · exact absurd h hbusy

/-- **There are no other calls.**  A callback with the same answers to these gives the same poll. -/
theorem poll_congr (maxSends : ℤ) {send send' : ℕ → SendFn}
    (h : ∀ c ∈ pollOffers tx ring nowMs maxSends staleMs send, send c.1 c.2 = send' c.1 c.2) :
    ntripTxPoll tx ring nowMs maxSends staleMs send = ntripTxPoll tx ring nowMs maxSends staleMs send' := by
  have hloop : ∀ n round result tx,
      (∀ c ∈ loopOffers ring nowMs staleMs send n round result tx, send c.1 c.2 = send' c.1 c.2) →
        pollLoop ring nowMs staleMs send n round result tx =
          pollLoop ring nowMs staleMs send' n round result tx := by
    intro n
    induction n with
    | zero => exact fun _ _ _ _ => rfl
    | succ n ih =>
        intro round result tx hall
        rw [loopOffers] at hall
        have hround : pollRound tx ring nowMs staleMs (send round) result =
            pollRound tx ring nowMs staleMs (send' round) result := by
          apply pollRound_congr
          intro buf hbuf
          refine hall (round, buf) (List.mem_append_left _ ?_)
          rw [hbuf]
          exact List.mem_singleton.mpr rfl
        rw [pollLoop, pollLoop, ← hround]
        dsimp only
        split
        · rename_i hagain
          rw [if_pos hagain] at hall
          rw [ih (round + 1) _ _ fun c hc => hall c (List.mem_append_right _ hc)]
        · rfl
  exact hloop maxSends.toNat 0 .idle tx h

end Offers

/-! ### Draining -/

variable {ι : Type*} [DecidableEq ι]

/-- **Draining terminates and delivers everything resident.**  In every state that a run reaches, polls with a
callback that takes something return `PROGRESS` until one returns `IDLE`.  Nothing is pending then, the cursor
is at the next frame to come, and the bytes taken are the rest of the frame that was pending and every resident
frame from the cursor on that is not stale: any frame with `stale_ms` 0, else those not older than `stale_ms`.
No poll calls its callback more than `max_sends` times, and one that returns `IDLE` has not called it: the poll
depends on the callback in these calls only. -/
theorem drain_delivers (es : List (CoreEvent ι))
    (hes : core.Admits (fun _ e => e.Ok) (coreInit : CoreState ι) es)
    (hbound : (arrivals (core.outputs (coreInit : CoreState ι) es)).length < 2 ^ 32) (i : ι)
    (nowMs staleMs : UInt32) {maxSends : ℤ} (hmax : 1 ≤ maxSends) (send : ℕ → ℕ → SendFn)
    (hsend : ∀ k j, (send k j).Accepting) :
    let s := core.run (coreInit : CoreState ι) es
    let tx := s.tx i
    let poll := fun k t => ntripTxPoll t s.ring nowMs maxSends staleMs (send k)
    (∃ n, (rounds poll 0 (n + 1) tx).1 = List.replicate n .progress ++ [.idle] ∧
      (rounds poll 0 (n + 1) tx).2.1.pending = 0 ∧
      (rounds poll 0 (n + 1) tx).2.1.cursorSeq = s.ring.nextSeq ∧
      acceptedBytes (rounds poll 0 (n + 1) tx).2.2 =
        tx.unsent ++ ((s.ring.slotsFrom (max tx.cursorSeq.toNat (ringOldestSeq s.ring).toNat)).filter
          fun f => ¬ (staleMs > 0 ∧ nowMs - f.receivedMs > staleMs)).flatMap RingSlot.data) ∧
      ∀ t send', (pollOffers t s.ring nowMs maxSends staleMs send').length ≤ maxSends.toNat ∧
        ((ntripTxPoll t s.ring nowMs maxSends staleMs send').1 = .idle →
          pollOffers t s.ring nowMs maxSends staleMs send' = []) ∧
        ∀ send'', (∀ c ∈ pollOffers t s.ring nowMs maxSends staleMs send', send' c.1 c.2 = send'' c.1 c.2) →
          ntripTxPoll t s.ring nowMs maxSends staleMs send' =
            ntripTxPoll t s.ring nowMs maxSends staleMs send'' := by
  intro s tx poll
  have hwatch := watch_run (watch_init i) hes hbound
  have hdrain : Drainable s.ring tx := drainable_of_ok hwatch.ring hwatch.tx
  have hpays : Pays poll .progress .idle (Drainable s.ring) (CaughtUp s.ring) (due s.ring nowMs staleMs)
      acceptedBytes := by
    refine ⟨acceptedBytes_append, ?_⟩
    intro k t ht
    exact poll_pays nowMs staleMs ht (hsend k) hmax
  constructor
  · obtain ⟨n, hreports, hdone, hbytes⟩ := rounds_pay hpays 0 hdrain
    refine ⟨n, hreports, ?_, hdone.cursor_eq, hbytes⟩
    exact Nat.sub_eq_zero_of_le (Nat.not_lt.mp hdone.idle)
  · intro t send'
    exact ⟨length_loopOffers t s.ring nowMs staleMs send' _ 0 .idle,
      loopOffers_idle t s.ring nowMs staleMs send' _ 0,
      fun send'' => poll_congr t s.ring nowMs staleMs maxSends⟩

/-- A callback that takes two bytes at a time. -/
def sendPairs : ℕ → ℕ → SendFn := fun _ _ buf => ⟨min 2 buf.length, 0⟩

theorem sendPairs_accepting (k j : ℕ) : (sendPairs k j).Accepting := by
  intro buf hne
  have hpos := List.length_pos_of_ne_nil hne
  show 1 ≤ min (2 : ℤ) buf.length ∧ min (2 : ℤ) buf.length ≤ buf.length
  omega

/-- Two frames, two bytes of the first already sent. -/
def begunRun : List (CoreEvent Unit) :=
  [.push (List.replicate 7 0xD3) 10, .push (List.replicate 8 0xD3) 11, .sender () (.poll 12 2 2000 sendTwo)]

theorem drain_delivers_begunRun :
    let s := core.run (coreInit : CoreState Unit) begunRun
    let poll := fun k t => ntripTxPoll t s.ring 13 2 2000 (sendPairs k)
    ∃ n, (rounds poll 0 (n + 1) (s.tx ())).1 = List.replicate n .progress ++ [.idle] ∧
      acceptedBytes (rounds poll 0 (n + 1) (s.tx ())).2.2 = List.replicate 5 0xD3 ++ List.replicate 8 0xD3 := by
  have hok : core.Admits (fun _ e => e.Ok) (coreInit : CoreState Unit) begunRun :=
    ⟨trivial, trivial, sendTwo_ok, trivial⟩
  obtain ⟨⟨n, hreports, _, _, hbytes⟩, _⟩ := drain_delivers begunRun hok (by decide +kernel) () 13 2000
    (show (1 : ℤ) ≤ 2 by decide) sendPairs sendPairs_accepting
  refine ⟨n, hreports, hbytes.trans ?_⟩
  decide +kernel

/-- One frame, pushed a millisecond ago. -/
def freshRun : List (CoreEvent Unit) := [.push (List.replicate 6 0xD3) 0]

/-- **`stale_ms` 0 is no limit.**  The frame is a millisecond old and is delivered all the same. -/
theorem stale_zero_is_no_limit :
    let s := core.run (coreInit : CoreState Unit) freshRun
    let tx := s.tx ()
    let poll := fun (_ : ℕ) t => ntripTxPoll t s.ring 1 1 0 sendAll
    ¬ ∃ n, (rounds poll 0 (n + 1) tx).1 = List.replicate n .progress ++ [.idle] ∧
      (rounds poll 0 (n + 1) tx).2.1.pending = 0 ∧
      (rounds poll 0 (n + 1) tx).2.1.cursorSeq = s.ring.nextSeq ∧
      acceptedBytes (rounds poll 0 (n + 1) tx).2.2 =
        tx.unsent ++ ((s.ring.slotsFrom (max tx.cursorSeq.toNat (ringOldestSeq s.ring).toNat)).filter
          fun f => ¬ (1 : UInt32) - f.receivedMs > 0).flatMap RingSlot.data := by
  intro s tx poll h
  obtain ⟨n, hreports, _, _, hbytes⟩ := h
  match n with
  | 0 =>
      revert hreports
      decide +kernel
  | 1 =>
      revert hbytes
      decide +kernel
  | n + 2 =>
      -- the second poll is idle
      have hsecond : (poll 1 (poll 0 tx).2.1).1 = .progress := by
        have hget := congrArg (fun l => l[1]?) hreports
        exact Option.some.inj hget
      revert hsecond
      decide +kernel

end RtkdataFw.TxCore
