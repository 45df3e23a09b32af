import RtkdataFw.TxCore.Ledger

/-!
# Every operation of a sender keeps its books

The moves of `Ledger` put together along the code of `ntrip_tx_poll`, `ntrip_tx_abort` and
`ntrip_tx_reset_conn`.

* `txCopyNext_ok` — copying from the ring, from any cursor the ring has run past or not;
* `pollRound_ok`, `poll_ok` — one round and the whole call, for any contract-respecting callback;
* `ntripTxResetConn_ok` — the connection starts at the next new frame;
* `pollLoop_endsCut` — a poll that abandons a frame says `ERROR`, and has then nothing pending.
-/

namespace RtkdataFw.TxCore

section Operations

variable {h : List Arrival} {ring : NtripRing} {past evs : List TxEvent} {b : ℕ} {tx : NtripTx}

theorem ntripTxAbort_ok (hs : SenderOk h past b tx evs) :
    SenderOk h past b (ntripTxAbort tx).1 (evs ++ (ntripTxAbort tx).2) := by
  refine ⟨?_, hs.tracks.abort hs.books.len_eq⟩
  rw [← List.append_assoc]
  exact hs.books.abort

theorem ntripTxAbort_idle (tx : NtripTx) :
    ¬ (ntripTxAbort tx).1.currentOff < (ntripTxAbort tx).1.currentLen := by
  rcases ntripTxAbort_cases tx with ⟨_, h⟩ | ⟨_, h⟩
  · rw [h]
    exact Nat.lt_irrefl 0
  · rw [h]
    exact Nat.lt_irrefl 0

/-! ### Skipping -/

theorem SenderOk.skip (hs : SenderOk h past b tx evs) (hlen : h.length < 2 ^ 32) {stop : UInt32}
    (hlt : tx.cursorSeq < stop) (hstop : stop.toNat ≤ h.length) :
    SenderOk h past b (txSkipTo tx stop (bytesBelow h stop.toNat))
      (evs ++ [.skipped tx.cursorSeq stop]) := by
  refine ⟨?_, hs.tracks.quiet (ledger_snoc _ _) rfl rfl rfl rfl
    (UInt32.lt_iff_toNat_lt.mp hlt).le⟩
  rw [← List.append_assoc]
  exact hs.books.skip hlen hlt hstop

/-- **The jump.**  Afterwards the frame at the cursor is resident. -/
theorem txJump_ok (hr : RingOk h ring) (hs : SenderOk h past b tx evs) :
    SenderOk h past b (txJump tx ring).1 (evs ++ (txJump tx ring).2) ∧
      h.length ≤ (txJump tx ring).1.cursorSeq.toNat + rtcmRingSlots := by
  have hold := hr.oldest
  rcases txJump_cases tx ring with ⟨hlt, hjump⟩ | ⟨hle, hjump⟩
  · have hlt' := UInt32.lt_iff_toNat_lt.mp hlt
    have h16 : rtcmRingSlots = 16 := rfl
    have hslot : ring.slotOf (ringOldestSeq ring) = slotAt h (ringOldestSeq ring).toNat :=
      hr.slotOf (by omega) (by omega)
    rw [hjump, hslot, slotAt_before]
    refine ⟨hs.skip hr.length_lt hlt (by omega), ?_⟩
    show h.length ≤ (ringOldestSeq ring).toNat + rtcmRingSlots
    omega
  · rw [UInt32.lt_iff_toNat_lt] at hle
    rw [hjump, List.append_nil]
    refine ⟨hs, ?_⟩
    show h.length ≤ tx.cursorSeq.toNat + rtcmRingSlots
    omega

theorem txJump_idle (hidle : ¬ tx.currentOff < tx.currentLen) :
    ¬ (txJump tx ring).1.currentOff < (txJump tx ring).1.currentLen := by
  rcases txJump_cases tx ring with ⟨_, hjump⟩ | ⟨_, hjump⟩
  · rw [hjump]
    exact hidle
  · rw [hjump]
    exact hidle

theorem txSkipWaiting_ok (hr : RingOk h ring) (hs : SenderOk h past b tx evs) :
    SenderOk h past b (txSkipWaiting tx ring).1 (evs ++ (txSkipWaiting tx ring).2) ∧
      (txSkipWaiting tx ring).1.cursorSeq.toNat = h.length := by
  have hnext := hr.nextSeq_eq
  have hcum := hr.cumBytes_eq
  rw [← hnext] at hcum
  rcases txSkipWaiting_cases tx ring with ⟨hlt, hskip⟩ | ⟨hge, hskip⟩
  · rw [hskip, hcum]
    exact ⟨hs.skip hr.length_lt hlt (by omega), hnext⟩
  · rw [UInt32.lt_iff_toNat_lt] at hge
    have hle := hs.books.cursor_le
    have hsame : tx.cursorSeq = ring.nextSeq := UInt32.toNat_inj.mp (by omega)
    have hcum' := hs.books.cum_eq
    rw [hskip, List.append_nil, hcum, ← hsame, ← hcum']
    exact ⟨hs, by rw [hsame]; exact hnext⟩

/-! ### Copying -/

theorem txCopyLoop_ok (hr : RingOk h ring) (nowMs staleMs : UInt32)
    (hs : SenderOk h past b tx evs) (hres : h.length ≤ tx.cursorSeq.toNat + rtcmRingSlots)
    (hidle : ¬ tx.currentOff < tx.currentLen) :
    SenderOk h past b (txCopyLoop tx ring nowMs staleMs).2.1
        (evs ++ (txCopyLoop tx ring nowMs staleMs).2.2) ∧
      ((txCopyLoop tx ring nowMs staleMs).1 = true ↔
        (txCopyLoop tx ring nowMs staleMs).2.1.currentOff <
          (txCopyLoop tx ring nowMs staleMs).2.1.currentLen) := by
  have hnext := hr.nextSeq_eq
  fun_induction txCopyLoop tx ring nowMs staleMs generalizing evs with
  | case1 tx hlt s hstale r =>
      rename_i ih
      have hlt' := UInt32.lt_iff_toNat_lt.mp hlt
      have hslot : s = slotAt h tx.cursorSeq.toNat := hr.slotOf (by omega) hres
      have hcursor : (txDropStale tx s).cursorSeq.toNat = tx.cursorSeq.toNat + 1 := cursor_succ hlt
      have hstep : SenderOk h past b (txDropStale tx s)
          (evs ++ [.stale tx.cursorSeq s.receivedMs]) := by
        refine ⟨?_, hs.tracks.quiet (ledger_snoc _ _) rfl rfl rfl rfl (by omega)⟩
        rw [← List.append_assoc, hslot]
        exact hs.books.dropStale hr.length_lt (by omega) _
      have hrest := ih hstep (by omega) hidle
      rw [List.append_assoc] at hrest
      exact hrest
  | case2 tx hlt s =>
      have hlt' := UInt32.lt_iff_toNat_lt.mp hlt
      have hslot : s = slotAt h tx.cursorSeq.toNat := hr.slotOf (by omega) hres
      have hpos := hr.slotAt_len_pos (i := tx.cursorSeq.toNat) (by omega)
      rw [hslot]
      refine ⟨⟨?_, hs.tracks.take hr.length_lt (by omega) hpos hidle nowMs⟩, ?_⟩
      · rw [← List.append_assoc]
        exact hs.books.take hr.length_lt (by omega) hpos hidle nowMs
      · exact iff_of_true rfl hpos
  | case3 tx hge =>
      rw [List.append_nil]
      exact ⟨hs, iff_of_false Bool.false_ne_true hidle⟩

/-- **`tx_copy_next`.**  It says whether there is now a frame to send. -/
theorem txCopyNext_ok (hr : RingOk h ring) (nowMs staleMs : UInt32)
    (hs : SenderOk h past b tx evs) (hidle : ¬ tx.currentOff < tx.currentLen) :
    SenderOk h past b (txCopyNext tx ring nowMs staleMs).2.1
        (evs ++ (txCopyNext tx ring nowMs staleMs).2.2) ∧
      ((txCopyNext tx ring nowMs staleMs).1 = true ↔
        (txCopyNext tx ring nowMs staleMs).2.1.currentOff <
          (txCopyNext tx ring nowMs staleMs).2.1.currentLen) := by
  obtain ⟨hjump, hres⟩ := txJump_ok hr hs
  have hloop := txCopyLoop_ok hr nowMs staleMs hjump hres (txJump_idle hidle)
  rw [List.append_assoc] at hloop
  exact hloop

/-! ### Sending -/

theorem length_unsent (tx : NtripTx) : tx.unsent.length ≤ tx.pending := by
  rw [NtripTx.unsent, NtripTx.pending]
  exact List.length_take_le _ _

/-- **A send attempt.**  The frame is still pending or settled, and never half accounted. -/
theorem pollSend_ok (nowMs : UInt32) {send : SendFn} (hsend : send.Ok)
    (hs : SenderOk h past b tx evs) (hopen : tx.currentOff < tx.currentLen) :
    SenderOk h past b (pollSend tx nowMs send).tx (evs ++ (pollSend tx nowMs send).evs) := by
  rcases pollSend_cases tx nowMs send with ⟨hpos, hround⟩ | hround | ⟨err, hround⟩
  · have hn : (send tx.unsent).n.toNat ≤ tx.pending := by
      have hok := hsend tx.unsent
      have hlen := length_unsent tx
      omega
    rw [hround]
    refine ⟨?_, hs.tracks.accept hs.books.len_eq hopen hn nowMs⟩
    rw [← List.append_assoc]
    exact hs.books.accept hopen hn nowMs
  · rw [hround, List.append_nil]
    exact ⟨{ hs.books with }, { hs.tracks with }⟩
  · rw [hround]
    exact ntripTxAbort_ok ⟨{ hs.books with }, { hs.tracks with }⟩

theorem pollRound_ok (hr : RingOk h ring) (nowMs staleMs : UInt32) {send : SendFn}
    (hsend : send.Ok) (result : PollResult) (hs : SenderOk h past b tx evs) :
    SenderOk h past b (pollRound tx ring nowMs staleMs send result).tx
      (evs ++ (pollRound tx ring nowMs staleMs send result).evs) := by
  rcases pollRound_cases tx ring nowMs staleMs send result with
    ⟨hidle, hcopied, hround⟩ | ⟨hidle, hround⟩ | ⟨hopen, hround⟩
  · obtain ⟨hcopy, hiff⟩ := txCopyNext_ok hr nowMs staleMs hs (Nat.not_lt.mpr hidle)
    have hsent := pollSend_ok nowMs hsend hcopy (hiff.mp hcopied)
    rw [List.append_assoc] at hsent
    rw [hround]
    exact hsent
  · rw [hround]
    exact (txCopyNext_ok hr nowMs staleMs hs (Nat.not_lt.mpr hidle)).1
  · rw [hround]
    exact pollSend_ok nowMs hsend hs hopen

theorem pollLoop_ok (hr : RingOk h ring) (nowMs staleMs : UInt32) {send : ℕ → SendFn}
    (hsend : ∀ i, (send i).Ok) (rounds round : ℕ) (result : PollResult)
    (hs : SenderOk h past b tx evs) :
    SenderOk h past b (pollLoop ring nowMs staleMs send rounds round result tx).2.1
      (evs ++ (pollLoop ring nowMs staleMs send rounds round result tx).2.2) := by
  induction rounds generalizing round result tx evs with
  | zero =>
      rw [pollLoop, List.append_nil]
      exact hs
  | succ rounds ih =>
      have hround := pollRound_ok hr nowMs staleMs (hsend round) result hs
      rw [pollLoop]
      dsimp only
      split
      · have hrest := ih (round + 1)
          (pollRound tx ring nowMs staleMs (send round) result).result hround
        rw [List.append_assoc] at hrest
        exact hrest
      · exact hround

/-- **`ntrip_tx_poll` keeps the books.** -/
theorem poll_ok (hr : RingOk h ring) (nowMs : UInt32) (maxSends : ℤ) (staleMs : UInt32)
    {send : ℕ → SendFn} (hsend : ∀ i, (send i).Ok) (hs : SenderOk h past b tx evs) :
    SenderOk h past b (ntripTxPoll tx ring nowMs maxSends staleMs send).2.1
      (evs ++ (ntripTxPoll tx ring nowMs maxSends staleMs send).2.2) :=
  pollLoop_ok hr nowMs staleMs hsend _ _ _ hs

/-- **`ntrip_tx_reset_conn` keeps the books**, and leaves nothing pending and nothing waiting. -/
theorem ntripTxResetConn_ok (hr : RingOk h ring) (nowMs : UInt32)
    (hs : SenderOk h past b tx evs) :
    SenderOk h past b (ntripTxResetConn tx ring nowMs).1
        (evs ++ (ntripTxResetConn tx ring nowMs).2) ∧
      (ntripTxResetConn tx ring nowMs).1.cursorSeq.toNat = h.length ∧
      ¬ (ntripTxResetConn tx ring nowMs).1.currentOff <
        (ntripTxResetConn tx ring nowMs).1.currentLen := by
  obtain ⟨hskip, hcursor⟩ := txSkipWaiting_ok hr (ntripTxAbort_ok hs)
  rw [List.append_assoc] at hskip
  refine ⟨⟨{ hskip.books with }, { hskip.tracks with }⟩, hcursor, ?_⟩
  have hidle := ntripTxAbort_idle tx
  rw [ntripTxResetConn]
  rcases txSkipWaiting_cases (ntripTxAbort tx).1 ring with ⟨_, hskip⟩ | ⟨_, hskip⟩
  · rw [hskip]
    exact hidle
  · rw [hskip]
    exact hidle

end Operations

/-! ### Only a failed call abandons a frame -/

/-- Without failure no frame is cut; with it, the last event may be a cut, and nothing is pending. -/
def EndsCut (failed : Prop) (tx : NtripTx) (evs : List TxEvent) : Prop :=
  (¬ failed ∧ TxEvent.cut ∉ evs) ∨
    (failed ∧ ¬ tx.currentOff < tx.currentLen ∧
      ∃ pre, TxEvent.cut ∉ pre ∧ (evs = pre ∨ evs = pre ++ [.cut]))

section Cuts

variable {failed : Prop} {tx : NtripTx} {ring : NtripRing} {pre evs : List TxEvent}

theorem EndsCut.prepend (hpre : TxEvent.cut ∉ pre) (h : EndsCut failed tx evs) :
    EndsCut failed tx (pre ++ evs) := by
  rcases h with ⟨hok, hevs⟩ | ⟨hfail, hidle, mid, hmid, hevs⟩
  · exact .inl ⟨hok, fun hmem => (List.mem_append.mp hmem).elim hpre hevs⟩
  · refine .inr ⟨hfail, hidle, pre ++ mid, fun hmem => (List.mem_append.mp hmem).elim hpre hmid, ?_⟩
    rcases hevs with rfl | rfl
    · exact .inl rfl
    · exact .inr (List.append_assoc _ _ _).symm

theorem ntripTxAbort_endsCut (tx : NtripTx) :
    EndsCut True (ntripTxAbort tx).1 (ntripTxAbort tx).2 := by
  refine .inr ⟨trivial, ntripTxAbort_idle tx, [], List.not_mem_nil, ?_⟩
  rcases ntripTxAbort_cases tx with ⟨_, h⟩ | ⟨_, h⟩
  · rw [h]
    exact .inr rfl
  · rw [h]
    exact .inl rfl

/-- An abort with nothing pending does nothing that can be seen. -/
theorem ntripTxAbort_evs_of_idle (hidle : ¬ tx.currentOff < tx.currentLen) :
    (ntripTxAbort tx).2 = [] := by
  rw [ntripTxAbort, if_neg hidle]

theorem cut_not_mem_copyNext (tx : NtripTx) (ring : NtripRing) (nowMs staleMs : UInt32) :
    TxEvent.cut ∉ (txCopyNext tx ring nowMs staleMs).2.2 := by
  have hjump : TxEvent.cut ∉ (txJump tx ring).2 := by
    rcases txJump_cases tx ring with ⟨_, h⟩ | ⟨_, h⟩ <;> simp [h]
  have hloop : ∀ t, TxEvent.cut ∉ (txCopyLoop t ring nowMs staleMs).2.2 := by
    intro t
    fun_induction txCopyLoop t ring nowMs staleMs with
    | case1 t hlt s hstale r =>
        rename_i ih
        simpa using ih
    | case2 t hlt s => simp
    | case3 t hge => exact List.not_mem_nil
  rw [txCopyNext]
  exact fun hmem => (List.mem_append.mp hmem).elim hjump (hloop _)

theorem pollSend_endsCut (tx : NtripTx) (nowMs : UInt32) (send : SendFn) :
    EndsCut ((pollSend tx nowMs send).result = .error) (pollSend tx nowMs send).tx
        (pollSend tx nowMs send).evs ∧
      ((pollSend tx nowMs send).again = true → (pollSend tx nowMs send).result ≠ .error) := by
  rcases pollSend_cases tx nowMs send with ⟨_, hround⟩ | hround | ⟨err, hround⟩
  · rw [hround]
    refine ⟨.inl ⟨PollResult.noConfusion, ?_⟩, fun _ => PollResult.noConfusion⟩
    rcases txAccept_cases tx (send tx.unsent).n.toNat nowMs with ⟨_, h⟩ | ⟨_, h⟩ <;> simp [h]
  · rw [hround]
    exact ⟨.inl ⟨PollResult.noConfusion, List.not_mem_nil⟩, fun _ => PollResult.noConfusion⟩
  · rw [hround]
    have hcut := ntripTxAbort_endsCut { tx with lastSockErrno := err }
    simp only [eq_self]
    exact ⟨hcut, Bool.noConfusion⟩

theorem pollRound_endsCut (tx : NtripTx) (ring : NtripRing) (nowMs staleMs : UInt32) (send : SendFn)
    {result : PollResult} (hres : result ≠ .error) :
    EndsCut ((pollRound tx ring nowMs staleMs send result).result = .error)
        (pollRound tx ring nowMs staleMs send result).tx
        (pollRound tx ring nowMs staleMs send result).evs ∧
      ((pollRound tx ring nowMs staleMs send result).again = true →
        (pollRound tx ring nowMs staleMs send result).result ≠ .error) := by
  have hcopy := cut_not_mem_copyNext tx ring nowMs staleMs
  rcases pollRound_cases tx ring nowMs staleMs send result with
    ⟨_, _, hround⟩ | ⟨_, hround⟩ | ⟨_, hround⟩
  · obtain ⟨hcut, hagain⟩ := pollSend_endsCut (txCopyNext tx ring nowMs staleMs).2.1 nowMs send
    rw [hround]
    exact ⟨hcut.prepend hcopy, hagain⟩
  · rw [hround]
    exact ⟨.inl ⟨hres, hcopy⟩, Bool.noConfusion⟩
  · rw [hround]
    exact pollSend_endsCut tx nowMs send

/-- **`ntrip_tx_poll`.**  It abandons a frame only to return `ERROR`. -/
theorem pollLoop_endsCut (ring : NtripRing) (nowMs staleMs : UInt32) (send : ℕ → SendFn)
    (rounds round : ℕ) {result : PollResult} (hres : result ≠ .error) (tx : NtripTx) :
    EndsCut ((pollLoop ring nowMs staleMs send rounds round result tx).1 = .error)
      (pollLoop ring nowMs staleMs send rounds round result tx).2.1
      (pollLoop ring nowMs staleMs send rounds round result tx).2.2 := by
  induction rounds generalizing round result tx with
  | zero => exact .inl ⟨hres, List.not_mem_nil⟩
  | succ rounds ih =>
      obtain ⟨hcut, hagain⟩ := pollRound_endsCut tx ring nowMs staleMs (send round) hres
      rw [pollLoop]
      dsimp only
      split
      · rename_i htrue
        have hok := hagain htrue
        rcases hcut with ⟨_, hevs⟩ | ⟨hfail, _⟩
        · exact (ih (round + 1) hok _).prepend hevs
        · exact absurd hfail hok
      · exact hcut

end Cuts

end RtkdataFw.TxCore
