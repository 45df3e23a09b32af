import RtkdataFw.TxCore.Sender

/-!
# The books of one sender

`ledger` reads a sender's events and says what became of every frame it copied: sent whole, cut off, or
still pending, each with the bytes the send callback took of it.

* `Books` ties the counters of a sender to the ring's history and to the ledger;
* `Tracks` ties the frames of the ledger to the history, from a start sequence number on;
* one lemma for each way the state can move: skipping, dropping as stale, copying, accepting, giving up.
-/

namespace RtkdataFw.TxCore

/-! ### The ledger -/

/-- A copy of a frame, and what the callback has taken of it. -/
structure CopyRec where
  seq : UInt32
  frame : List UInt8
  got : List UInt8
  deriving DecidableEq, Repr

inductive Fate where
  | sent
  | cut
  deriving DecidableEq, Repr

structure Ledger where
  settled : List (CopyRec × Fate)
  pending : Option CopyRec
  deriving DecidableEq, Repr

def Ledger.settle (l : Ledger) (fate : Fate) : Ledger :=
  ⟨l.settled ++ (l.pending.map fun c => (c, fate)).toList, none⟩

def Ledger.post (l : Ledger) : TxEvent → Ledger
  | .copied seq frame => { l with pending := some ⟨seq, frame, []⟩ }
  | .accepted bytes => { l with pending := l.pending.map fun c => { c with got := c.got ++ bytes } }
  | .sent => l.settle .sent
  | .cut => l.settle .cut
  | _ => l

def ledger (evs : List TxEvent) : Ledger := evs.foldl Ledger.post ⟨[], none⟩

/-- Every frame the ledger knows, in the order it was copied. -/
def Ledger.copies (l : Ledger) : List CopyRec := l.settled.map Prod.fst ++ l.pending.toList

def Ledger.sentCount (l : Ledger) : ℕ := (l.settled.filter fun c => c.2 = .sent).length

def acceptedBytes (evs : List TxEvent) : List UInt8 :=
  evs.flatMap fun
    | .accepted bytes => bytes
    | _ => []

/-- The frames copied out of the ring, by sequence number. -/
def copiedSeqs (evs : List TxEvent) : List UInt32 :=
  evs.filterMap fun
    | .copied seq _ => some seq
    | _ => none

@[simp] theorem ledger_nil : ledger [] = ⟨[], none⟩ := rfl

@[simp] theorem ledger_snoc (evs : List TxEvent) (e : TxEvent) :
    ledger (evs ++ [e]) = (ledger evs).post e := by
  simp [ledger]

@[simp] theorem acceptedBytes_append (evs fs : List TxEvent) :
    acceptedBytes (evs ++ fs) = acceptedBytes evs ++ acceptedBytes fs := by
  simp [acceptedBytes]

@[simp] theorem copiedSeqs_append (evs fs : List TxEvent) :
    copiedSeqs (evs ++ fs) = copiedSeqs evs ++ copiedSeqs fs := by
  simp [copiedSeqs]

/-! ### What an event does to the ledger -/

theorem Ledger.post_sent (l : Ledger) : l.post .sent = l.settle .sent := rfl

theorem Ledger.post_cut (l : Ledger) : l.post .cut = l.settle .cut := rfl

theorem Ledger.copies_copied {l : Ledger} (hp : l.pending = none) (seq : UInt32)
    (frame : List UInt8) : (l.post (.copied seq frame)).copies = l.copies ++ [⟨seq, frame, []⟩] := by
  simp [Ledger.post, Ledger.copies, hp]

theorem Ledger.copies_settle (l : Ledger) (fate : Fate) : (l.settle fate).copies = l.copies := by
  cases h : l.pending <;> simp [Ledger.settle, Ledger.copies, h]

theorem Ledger.copies_accepted {l : Ledger} {c : CopyRec} (hp : l.pending = some c)
    (bytes : List UInt8) : (l.post (.accepted bytes)).copies =
      l.settled.map Prod.fst ++ [{ c with got := c.got ++ bytes }] := by
  simp [Ledger.post, Ledger.copies, hp]

theorem Ledger.copies_pending {l : Ledger} {c : CopyRec} (hp : l.pending = some c) :
    l.copies = l.settled.map Prod.fst ++ [c] := by
  simp [Ledger.copies, hp]

theorem Ledger.settled_settle {l : Ledger} {c : CopyRec} (hp : l.pending = some c) (fate : Fate) :
    (l.settle fate).settled = l.settled ++ [(c, fate)] := by
  simp [Ledger.settle, hp]

theorem Ledger.sentCount_settle_sent {l : Ledger} {c : CopyRec} (hp : l.pending = some c) :
    (l.settle .sent).sentCount = l.sentCount + 1 := by
  simp [Ledger.sentCount, Ledger.settled_settle hp]

theorem Ledger.sentCount_settle_cut (l : Ledger) : (l.settle .cut).sentCount = l.sentCount := by
  cases h : l.pending <;> simp [Ledger.settle, Ledger.sentCount, h]

/-! ### Books and tracks -/

/-- The accounts of a sender after the events `evs` since `ntrip_tx_init`. -/
structure Books (h : List Arrival) (tx : NtripTx) (evs : List TxEvent) : Prop where
  cursor_le : tx.cursorSeq.toNat ≤ h.length
  cum_eq : tx.cumThrough = bytesBelow h tx.cursorSeq.toNat
  off_le : tx.currentOff ≤ tx.currentLen
  len_eq : tx.currentOff < tx.currentLen → tx.currentLen = tx.current.length
  copied_eq : tx.copiedBytes = tx.acceptedToLwip + tx.pending + tx.droppedBytes
  through_eq : tx.copiedBytes + tx.skippedBytes + tx.droppedStaleBytes = tx.cumThrough
  copies_eq : (ledger evs).copies.map CopyRec.seq = copiedSeqs evs
  frames_eq : (ledger evs).copies.length + tx.skippedFrames.toNat +
    tx.droppedFramesStale.toNat = tx.cursorSeq.toNat
  sent_eq : tx.sentFrames = (ledger evs).sentCount
  pending_iff : (ledger evs).pending.isSome = true ↔ tx.currentOff < tx.currentLen

/-- The frames copied in `evs`, all from sequence number `b` on. -/
structure Tracks (h : List Arrival) (b : ℕ) (tx : NtripTx) (evs : List TxEvent) : Prop where
  pending_eq : (ledger evs).pending.map (fun c => (c.frame, c.got)) =
    if tx.currentOff < tx.currentLen then some (tx.current, tx.current.take tx.currentOff) else none
  base_le : b ≤ tx.cursorSeq.toNat
  within : ∀ c ∈ (ledger evs).copies, b ≤ c.seq.toNat ∧ c.seq.toNat < tx.cursorSeq.toNat
  known : ∀ c ∈ (ledger evs).copies, (h.map Arrival.frame)[c.seq.toNat]? = some c.frame
  ordered : (ledger evs).copies.Pairwise fun c d => c.seq.toNat < d.seq.toNat
  sent_whole : ∀ c, (c, Fate.sent) ∈ (ledger evs).settled → c.got = c.frame
  cut_short : ∀ c, (c, Fate.cut) ∈ (ledger evs).settled → c.got <+: c.frame ∧ c.got ≠ c.frame
  bytes_eq : acceptedBytes evs = ((ledger evs).copies.map CopyRec.got).flatten

/-- A sender in order: its accounts since it was started, and its track since `evs` began. -/
structure SenderOk (h : List Arrival) (past : List TxEvent) (b : ℕ) (tx : NtripTx)
    (evs : List TxEvent) : Prop where
  books : Books h tx (past ++ evs)
  tracks : Tracks h b tx evs

theorem books_init : Books [] ntripTxInit [] where
  cursor_le := Nat.le_refl 0
  cum_eq := rfl
  off_le := Nat.le_refl 0
  len_eq := fun h => absurd h (Nat.lt_irrefl 0)
  copied_eq := rfl
  through_eq := rfl
  copies_eq := rfl
  frames_eq := rfl
  sent_eq := rfl
  pending_iff := by simp [ntripTxInit]

theorem Tracks.start {h : List Arrival} {tx : NtripTx} (hidle : ¬ tx.currentOff < tx.currentLen) :
    Tracks h tx.cursorSeq.toNat tx [] where
  pending_eq := by rw [if_neg hidle]; rfl
  base_le := Nat.le_refl _
  within := fun c hc => absurd hc (by simp [Ledger.copies])
  known := fun c hc => absurd hc (by simp [Ledger.copies])
  ordered := List.Pairwise.nil
  sent_whole := fun c hc => absurd hc (by simp)
  cut_short := fun c hc => absurd hc (by simp)
  bytes_eq := rfl

/-! ### What a longer history leaves -/

theorem Books.grow {h : List Arrival} {tx : NtripTx} {evs : List TxEvent} (hb : Books h tx evs)
    (m : List Arrival) : Books (h ++ m) tx evs :=
  { hb with
    cursor_le := by
      have := hb.cursor_le
      rw [List.length_append]
      omega
    cum_eq := by rw [bytesBelow_append hb.cursor_le, hb.cum_eq] }

theorem Tracks.grow {h : List Arrival} {b : ℕ} {tx : NtripTx} {evs : List TxEvent}
    (ht : Tracks h b tx evs) (m : List Arrival) : Tracks (h ++ m) b tx evs :=
  { ht with
    known := by
      intro c hc
      have hk := ht.known c hc
      rw [List.map_append, List.getElem?_append_left]
      · exact hk
      · exact (List.getElem?_eq_some_iff.mp hk).1 }

theorem SenderOk.grow {h : List Arrival} {past evs : List TxEvent} {b : ℕ} {tx : NtripTx}
    (hs : SenderOk h past b tx evs) (m : List Arrival) : SenderOk (h ++ m) past b tx evs :=
  ⟨hs.books.grow m, hs.tracks.grow m⟩

/-! ### Counting without wrapping -/

theorem toNat_add_sub {x a b : UInt32} (hab : a ≤ b)
    (hx : x.toNat + (b.toNat - a.toNat) < 2 ^ 32) :
    (x + (b - a)).toNat = x.toNat + (b.toNat - a.toNat) := by
  rw [UInt32.toNat_add, UInt32.toNat_sub_of_le _ _ hab, Nat.mod_eq_of_lt hx]

/-! ### Moving the cursor -/

/-- Skipping forward: the jump over overwritten frames, and over frames that wait at a reconnect. -/
theorem Books.skip {h : List Arrival} {tx : NtripTx} {evs : List TxEvent} (hb : Books h tx evs)
    (hlen : h.length < 2 ^ 32) {stop : UInt32} (hlt : tx.cursorSeq < stop)
    (hstop : stop.toNat ≤ h.length) :
    Books h (txSkipTo tx stop (bytesBelow h stop.toNat))
      (evs ++ [.skipped tx.cursorSeq stop]) := by
  have hlt' := UInt32.lt_iff_toNat_lt.mp hlt
  have hmono := bytesBelow_mono h hlt'.le
  have hframes := hb.frames_eq
  have hthrough := hb.through_eq
  have hcum := hb.cum_eq
  have hadd := toNat_add_sub (x := tx.skippedFrames) (UInt32.le_of_lt hlt) (by omega)
  exact
    { hb with
      cursor_le := hstop
      cum_eq := rfl
      through_eq := by
        simp only [txSkipTo]
        omega
      copies_eq := by
        rw [ledger_snoc, copiedSeqs_append]
        exact hb.copies_eq.trans (List.append_nil _).symm
      frames_eq := by
        simp only [txSkipTo, ledger_snoc, Ledger.post, hadd]
        omega
      sent_eq := by
        rw [ledger_snoc]
        exact hb.sent_eq
      pending_iff := by
        rw [ledger_snoc]
        exact hb.pending_iff }

/-- Events that the ledger does not see, and a cursor that only goes forward. -/
theorem Tracks.quiet {h : List Arrival} {b : ℕ} {tx tx' : NtripTx} {evs fs : List TxEvent}
    (ht : Tracks h b tx evs) (hl : ledger (evs ++ fs) = ledger evs) (ha : acceptedBytes fs = [])
    (hcur : tx'.current = tx.current) (hoff : tx'.currentOff = tx.currentOff)
    (hlen : tx'.currentLen = tx.currentLen) (hle : tx.cursorSeq.toNat ≤ tx'.cursorSeq.toNat) :
    Tracks h b tx' (evs ++ fs) where
  pending_eq := by rw [hl, hcur, hoff, hlen]; exact ht.pending_eq
  base_le := ht.base_le.trans hle
  within := by
    rw [hl]
    intro c hc
    have := ht.within c hc
    omega
  known := by rw [hl]; exact ht.known
  ordered := by rw [hl]; exact ht.ordered
  sent_whole := by rw [hl]; exact ht.sent_whole
  cut_short := by rw [hl]; exact ht.cut_short
  bytes_eq := by rw [acceptedBytes_append, ha, List.append_nil, hl]; exact ht.bytes_eq

/-! ### Dropping and copying the frame at the cursor -/

section AtCursor

variable {h : List Arrival} {past evs : List TxEvent} {b : ℕ} {tx : NtripTx}

theorem bytesBelow_slotAt (h : List Arrival) (i : ℕ) :
    (slotAt h i).cumBytes = bytesBelow h i + (slotAt h i).len := bytesBelow_succ h i

theorem Books.dropStale (hb : Books h tx evs) (hlen : h.length < 2 ^ 32)
    (hlt : tx.cursorSeq.toNat < h.length) (receivedMs : UInt32) :
    Books h (txDropStale tx (slotAt h tx.cursorSeq.toNat))
      (evs ++ [.stale tx.cursorSeq receivedMs]) := by
  have hcursor : (tx.cursorSeq + 1).toNat = tx.cursorSeq.toNat + 1 := toNat_succ (by omega)
  have hframes := hb.frames_eq
  have hstale : (tx.droppedFramesStale + 1).toNat = tx.droppedFramesStale.toNat + 1 :=
    toNat_succ (by omega)
  have hthrough := hb.through_eq
  have hcum := hb.cum_eq
  have hslot := bytesBelow_slotAt h tx.cursorSeq.toNat
  exact
    { hb with
      cursor_le := by
        simp only [txDropStale, hcursor]
        omega
      cum_eq := by
        simp only [txDropStale, hcursor]
        rfl
      through_eq := by
        simp only [txDropStale]
        omega
      copies_eq := by
        rw [ledger_snoc, copiedSeqs_append]
        exact hb.copies_eq.trans (List.append_nil _).symm
      frames_eq := by
        simp only [txDropStale, ledger_snoc, Ledger.post, hcursor, hstale]
        omega
      sent_eq := by
        rw [ledger_snoc]
        exact hb.sent_eq
      pending_iff := by
        rw [ledger_snoc]
        exact hb.pending_iff }

theorem Books.take (hb : Books h tx evs) (hlen : h.length < 2 ^ 32)
    (hlt : tx.cursorSeq.toNat < h.length) (hpos : 0 < (slotAt h tx.cursorSeq.toNat).len)
    (hidle : ¬ tx.currentOff < tx.currentLen) (nowMs : UInt32) :
    Books h (txTake tx (slotAt h tx.cursorSeq.toNat) nowMs)
      (evs ++ [.copied tx.cursorSeq (slotAt h tx.cursorSeq.toNat).data]) := by
  have hcursor : (tx.cursorSeq + 1).toNat = tx.cursorSeq.toNat + 1 := toNat_succ (by omega)
  have hnone : (ledger evs).pending = none := by
    rw [← Option.not_isSome_iff_eq_none, hb.pending_iff]
    exact hidle
  have hframes := hb.frames_eq
  have hthrough := hb.through_eq
  have hcopied := hb.copied_eq
  have hcum := hb.cum_eq
  have hslot := bytesBelow_slotAt h tx.cursorSeq.toNat
  have hzero : tx.pending = 0 := Nat.sub_eq_zero_of_le (Nat.le_of_not_lt hidle)
  exact
    { cursor_le := by
        simp only [txTake, hcursor]
        omega
      cum_eq := by
        simp only [txTake, hcursor]
        rfl
      off_le := Nat.zero_le _
      len_eq := fun _ => rfl
      copied_eq := by
        simp only [txTake, NtripTx.pending]
        omega
      through_eq := by
        simp only [txTake]
        omega
      copies_eq := by
        rw [ledger_snoc, Ledger.copies_copied hnone, List.map_append, hb.copies_eq,
          copiedSeqs_append]
        rfl
      frames_eq := by
        simp only [txTake, ledger_snoc, Ledger.copies_copied hnone, List.length_append,
          List.length_singleton, hcursor]
        omega
      sent_eq := by
        rw [ledger_snoc]
        exact hb.sent_eq
      pending_iff := by
        simp only [ledger_snoc, Ledger.post, Option.isSome_some, true_iff]
        exact hpos }

theorem Tracks.take (ht : Tracks h b tx evs) (hlen : h.length < 2 ^ 32)
    (hlt : tx.cursorSeq.toNat < h.length) (hpos : 0 < (slotAt h tx.cursorSeq.toNat).len)
    (hidle : ¬ tx.currentOff < tx.currentLen) (nowMs : UInt32) :
    Tracks h b (txTake tx (slotAt h tx.cursorSeq.toNat) nowMs)
      (evs ++ [.copied tx.cursorSeq (slotAt h tx.cursorSeq.toNat).data]) := by
  have hcursor : (tx.cursorSeq + 1).toNat = tx.cursorSeq.toNat + 1 := toNat_succ (by omega)
  have hbase := ht.base_le
  have hnone : (ledger evs).pending = none := by
    have := ht.pending_eq
    rw [if_neg hidle, Option.map_eq_none_iff] at this
    exact this
  have hcopies := Ledger.copies_copied hnone tx.cursorSeq (slotAt h tx.cursorSeq.toNat).data
  have hin : ∀ c ∈ ((ledger evs).post
      (.copied tx.cursorSeq (slotAt h tx.cursorSeq.toNat).data)).copies,
      c ∈ (ledger evs).copies ∨
        c = ⟨tx.cursorSeq, (slotAt h tx.cursorSeq.toNat).data, []⟩ := by
    intro c hc
    rw [hcopies] at hc
    simpa using hc
  exact
    { pending_eq := by
        have hopen : (txTake tx (slotAt h tx.cursorSeq.toNat) nowMs).currentOff <
            (txTake tx (slotAt h tx.cursorSeq.toNat) nowMs).currentLen := hpos
        rw [ledger_snoc, if_pos hopen]
        rfl
      base_le := by
        simp only [txTake, hcursor]
        omega
      within := by
        rw [ledger_snoc]
        intro c hc
        simp only [txTake, hcursor]
        rcases hin c hc with hc | rfl
        · have := ht.within c hc
          omega
        · exact ⟨hbase, Nat.lt_succ_self _⟩
      known := by
        rw [ledger_snoc]
        intro c hc
        rcases hin c hc with hc | rfl
        · exact ht.known c hc
        · exact slotAt_frame hlt
      ordered := by
        rw [ledger_snoc, hcopies, List.pairwise_append]
        refine ⟨ht.ordered, List.pairwise_singleton _ _, ?_⟩
        intro c hc d hd
        rw [List.mem_singleton.mp hd]
        exact (ht.within c hc).2
      sent_whole := by
        rw [ledger_snoc]
        exact ht.sent_whole
      cut_short := by
        rw [ledger_snoc]
        exact ht.cut_short
      bytes_eq := by
        rw [acceptedBytes_append, ht.bytes_eq, ledger_snoc, hcopies]
        simp [acceptedBytes] }

end AtCursor

/-! ### Accepted bytes and abandoned rests -/

section Pending

variable {h : List Arrival} {past evs : List TxEvent} {b : ℕ} {tx : NtripTx}

theorem Books.pending_some (hb : Books h tx evs) (hopen : tx.currentOff < tx.currentLen) :
    ∃ c, (ledger evs).pending = some c :=
  Option.isSome_iff_exists.mp (hb.pending_iff.mpr hopen)

/-- The pending copy is the current frame, and what was accepted of it stands before the offset. -/
theorem Tracks.pending_some (ht : Tracks h b tx evs) (hopen : tx.currentOff < tx.currentLen) :
    ∃ seq, (ledger evs).pending = some ⟨seq, tx.current, tx.current.take tx.currentOff⟩ := by
  have heq := ht.pending_eq
  rw [if_pos hopen, Option.map_eq_some_iff] at heq
  obtain ⟨⟨seq, frame, got⟩, hc, hpair⟩ := heq
  cases hpair
  exact ⟨seq, hc⟩

theorem Books.accept (hb : Books h tx evs) (hopen : tx.currentOff < tx.currentLen) {n : ℕ}
    (hn : n ≤ tx.pending) (nowMs : UInt32) :
    Books h (txAccept tx n nowMs).1 (evs ++ (txAccept tx n nowMs).2) := by
  obtain ⟨c, hc⟩ := hb.pending_some hopen
  have hframes := hb.frames_eq
  have hcopied := hb.copied_eq
  rw [NtripTx.pending] at hn hcopied
  have hpost : ((ledger evs).post (.accepted (tx.unsent.take n))).pending =
      some { c with got := c.got ++ tx.unsent.take n } := by
    simp [Ledger.post, hc]
  have hseqs : ((ledger evs).post (.accepted (tx.unsent.take n))).copies.map CopyRec.seq =
      (ledger evs).copies.map CopyRec.seq := by
    rw [Ledger.copies_accepted hc, Ledger.copies_pending hc, List.map_append, List.map_append]
    rfl
  have hcount : ((ledger evs).post (.accepted (tx.unsent.take n))).copies.length =
      (ledger evs).copies.length := by
    simpa only [List.length_map] using congrArg List.length hseqs
  rcases txAccept_cases tx n nowMs with ⟨hfull, haccept⟩ | ⟨hpart, haccept⟩
  · have hsplit : evs ++ [TxEvent.accepted (tx.unsent.take n), .sent] =
        evs ++ [.accepted (tx.unsent.take n)] ++ [.sent] := by simp
    rw [haccept, hsplit]
    exact
      { hb with
        off_le := Nat.le_refl _
        len_eq := fun hlt => absurd hlt (Nat.lt_irrefl 0)
        copied_eq := by
          simp only [NtripTx.pending]
          omega
        copies_eq := by
          rw [ledger_snoc, ledger_snoc, Ledger.post_sent, Ledger.copies_settle, hseqs,
            copiedSeqs_append, copiedSeqs_append]
          simpa [copiedSeqs] using hb.copies_eq
        frames_eq := by
          rw [ledger_snoc, ledger_snoc, Ledger.post_sent, Ledger.copies_settle, hcount]
          exact hframes
        sent_eq := by
          rw [ledger_snoc, ledger_snoc, Ledger.post_sent, Ledger.sentCount_settle_sent hpost]
          exact congrArg Nat.succ hb.sent_eq
        pending_iff := by
          rw [ledger_snoc, ledger_snoc, Ledger.post_sent]
          simp [Ledger.settle] }
  · rw [haccept]
    exact
      { hb with
        off_le := by
          show tx.currentOff + n ≤ tx.currentLen
          omega
        len_eq := fun _ => hb.len_eq hopen
        copied_eq := by
          simp only [NtripTx.pending]
          omega
        copies_eq := by
          rw [ledger_snoc, hseqs, copiedSeqs_append]
          exact hb.copies_eq.trans (List.append_nil _).symm
        frames_eq := by
          rw [ledger_snoc, hcount]
          exact hframes
        sent_eq := by
          rw [ledger_snoc]
          exact hb.sent_eq
        pending_iff := by
          rw [ledger_snoc, hpost]
          simp only [Option.isSome_some, true_iff]
          omega }

/-- Accepting goes on where the offset stands. -/
theorem unsent_take {n : ℕ} (hn : n ≤ tx.pending) :
    tx.current.take tx.currentOff ++ tx.unsent.take n = tx.current.take (tx.currentOff + n) := by
  rw [NtripTx.pending] at hn
  rw [NtripTx.unsent, List.take_take, Nat.min_eq_left hn, List.take_add]

/-- The copies of a track, whatever the sender is at. -/
structure Recorded (h : List Arrival) (b cursor : ℕ) (evs : List TxEvent) : Prop where
  within : ∀ c ∈ (ledger evs).copies, b ≤ c.seq.toNat ∧ c.seq.toNat < cursor
  known : ∀ c ∈ (ledger evs).copies, (h.map Arrival.frame)[c.seq.toNat]? = some c.frame
  ordered : (ledger evs).copies.Pairwise fun c d => c.seq.toNat < d.seq.toNat
  sent_whole : ∀ c, (c, Fate.sent) ∈ (ledger evs).settled → c.got = c.frame
  cut_short : ∀ c, (c, Fate.cut) ∈ (ledger evs).settled → c.got <+: c.frame ∧ c.got ≠ c.frame
  bytes_eq : acceptedBytes evs = ((ledger evs).copies.map CopyRec.got).flatten

theorem Tracks.recorded (ht : Tracks h b tx evs) : Recorded h b tx.cursorSeq.toNat evs :=
  ⟨ht.within, ht.known, ht.ordered, ht.sent_whole, ht.cut_short, ht.bytes_eq⟩

theorem Recorded.tracks {tx : NtripTx} (hr : Recorded h b tx.cursorSeq.toNat evs)
    (hbase : b ≤ tx.cursorSeq.toNat)
    (hpending : (ledger evs).pending.map (fun c => (c.frame, c.got)) =
      if tx.currentOff < tx.currentLen then some (tx.current, tx.current.take tx.currentOff) else none) :
    Tracks h b tx evs :=
  ⟨hpending, hbase, hr.within, hr.known, hr.ordered, hr.sent_whole, hr.cut_short, hr.bytes_eq⟩

/-- The pending copy with more bytes: its sequence number and frame stay, so only the ledger's bytes
change. -/
theorem Recorded.accept {cursor : ℕ} (hr : Recorded h b cursor evs) {c : CopyRec}
    (hc : (ledger evs).pending = some c) (bytes : List UInt8) :
    Recorded h b cursor (evs ++ [.accepted bytes]) := by
  have hold := Ledger.copies_pending hc
  have hnew := Ledger.copies_accepted hc bytes
  -- the copies are the same up to what was accepted of the last
  have hsame : ((ledger evs).post (.accepted bytes)).copies.map (fun c => (c.seq, c.frame)) =
      (ledger evs).copies.map fun c => (c.seq, c.frame) := by
    rw [hold, hnew]
    simp
  have hmem : ∀ c ∈ ((ledger evs).post (.accepted bytes)).copies,
      ∃ d ∈ (ledger evs).copies, d.seq = c.seq ∧ d.frame = c.frame := by
    intro c hc'
    have hin := List.mem_map_of_mem (f := fun c : CopyRec => (c.seq, c.frame)) hc'
    rw [hsame] at hin
    obtain ⟨d, hd, hpair⟩ := List.mem_map.mp hin
    exact ⟨d, hd, congrArg Prod.fst hpair, congrArg Prod.snd hpair⟩
  exact
    { within := by
        rw [ledger_snoc]
        intro c hc'
        obtain ⟨d, hd, hseq, _⟩ := hmem c hc'
        rw [← hseq]
        exact hr.within d hd
      known := by
        rw [ledger_snoc]
        intro c hc'
        obtain ⟨d, hd, hseq, hframe⟩ := hmem c hc'
        rw [← hseq, ← hframe]
        exact hr.known d hd
      ordered := by
        have hpw := hr.ordered
        rw [ledger_snoc]
        rw [← List.pairwise_map (f := fun c : CopyRec => (c.seq, c.frame))
          (R := fun c d => c.1.toNat < d.1.toNat)] at hpw ⊢
        rw [hsame]
        exact hpw
      sent_whole := by
        rw [ledger_snoc]
        exact hr.sent_whole
      cut_short := by
        rw [ledger_snoc]
        exact hr.cut_short
      bytes_eq := by
        rw [acceptedBytes_append, hr.bytes_eq, ledger_snoc, hold, hnew, List.map_append, List.map_append,
          List.flatten_append, List.flatten_append]
        simp [acceptedBytes] }

/-- The pending copy meets its fate: the whole frame was accepted, or less than that. -/
theorem Recorded.settle {cursor : ℕ} (hr : Recorded h b cursor evs) {c : CopyRec}
    (hc : (ledger evs).pending = some c) {e : TxEvent} {fate : Fate}
    (hpost : (ledger evs).post e = (ledger evs).settle fate) (hquiet : acceptedBytes [e] = [])
    (hsent : fate = .sent → c.got = c.frame)
    (hcut : fate = .cut → c.got <+: c.frame ∧ c.got ≠ c.frame) :
    Recorded h b cursor (evs ++ [e]) := by
  have hsettled := Ledger.settled_settle hc fate
  have hcopies := (ledger evs).copies_settle fate
  exact
    { within := by
        rw [ledger_snoc, hpost, hcopies]
        exact hr.within
      known := by
        rw [ledger_snoc, hpost, hcopies]
        exact hr.known
      ordered := by
        rw [ledger_snoc, hpost, hcopies]
        exact hr.ordered
      sent_whole := by
        rw [ledger_snoc, hpost, hsettled]
        intro c' hc'
        rcases List.mem_append.mp hc' with hc' | hc'
        · exact hr.sent_whole c' hc'
        · cases List.mem_singleton.mp hc'
          exact hsent rfl
      cut_short := by
        rw [ledger_snoc, hpost, hsettled]
        intro c' hc'
        rcases List.mem_append.mp hc' with hc' | hc'
        · exact hr.cut_short c' hc'
        · cases List.mem_singleton.mp hc'
          exact hcut rfl
      bytes_eq := by
        rw [acceptedBytes_append, hquiet, List.append_nil, ledger_snoc, hpost, hcopies]
        exact hr.bytes_eq }

theorem Tracks.accept (hlen : tx.currentOff < tx.currentLen → tx.currentLen = tx.current.length)
    (ht : Tracks h b tx evs) (hopen : tx.currentOff < tx.currentLen) {n : ℕ} (hn : n ≤ tx.pending)
    (nowMs : UInt32) :
    Tracks h b (txAccept tx n nowMs).1 (evs ++ (txAccept tx n nowMs).2) := by
  obtain ⟨seq, hc⟩ := ht.pending_some hopen
  have hrec := ht.recorded.accept hc (tx.unsent.take n)
  have hpost : (ledger (evs ++ [.accepted (tx.unsent.take n)])).pending =
      some ⟨seq, tx.current, tx.current.take (tx.currentOff + n)⟩ := by
    rw [ledger_snoc, ← unsent_take hn]
    simp [Ledger.post, hc]
  rcases txAccept_cases tx n nowMs with ⟨hfull, haccept⟩ | ⟨hpart, haccept⟩
  · have hsplit : evs ++ [TxEvent.accepted (tx.unsent.take n), .sent] =
        evs ++ [.accepted (tx.unsent.take n)] ++ [.sent] := by simp
    have hwhole : tx.current.take (tx.currentOff + n) = tx.current := by
      rw [hfull, hlen hopen, List.take_length]
    have hdone := hrec.settle hpost (Ledger.post_sent _) rfl (fun _ => hwhole) (fun h => Fate.noConfusion h)
    rw [haccept, hsplit]
    refine Recorded.tracks hdone ht.base_le ?_
    rw [ledger_snoc, if_neg (Nat.lt_irrefl 0)]
    rfl
  · rw [NtripTx.pending] at hn
    have hopen' : tx.currentOff + n < tx.currentLen := by omega
    rw [haccept]
    refine Recorded.tracks hrec ht.base_le ?_
    rw [hpost]
    exact (if_pos hopen').symm

theorem Books.abort (hb : Books h tx evs) :
    Books h (ntripTxAbort tx).1 (evs ++ (ntripTxAbort tx).2) := by
  have hcopied := hb.copied_eq
  rw [NtripTx.pending] at hcopied
  rcases ntripTxAbort_cases tx with ⟨hopen, habort⟩ | ⟨hidle, habort⟩
  · rw [habort]
    exact
      { hb with
        off_le := Nat.le_refl 0
        len_eq := fun hlt => absurd hlt (Nat.lt_irrefl 0)
        copied_eq := by
          simp only [NtripTx.pending]
          omega
        copies_eq := by
          rw [ledger_snoc, Ledger.post_cut, Ledger.copies_settle, copiedSeqs_append]
          exact hb.copies_eq.trans (List.append_nil _).symm
        frames_eq := by
          rw [ledger_snoc, Ledger.post_cut, Ledger.copies_settle]
          exact hb.frames_eq
        sent_eq := by
          rw [ledger_snoc, Ledger.post_cut, Ledger.sentCount_settle_cut]
          exact hb.sent_eq
        pending_iff := by
          rw [ledger_snoc, Ledger.post_cut]
          simp [Ledger.settle] }
  · rw [habort, List.append_nil]
    exact
      { hb with
        off_le := Nat.le_refl 0
        len_eq := fun hlt => absurd hlt (Nat.lt_irrefl 0)
        copied_eq := by
          simp only [NtripTx.pending]
          omega
        pending_iff := by
          rw [hb.pending_iff]
          exact iff_of_false hidle (Nat.lt_irrefl 0) }

theorem Tracks.abort (hlen : tx.currentOff < tx.currentLen → tx.currentLen = tx.current.length)
    (ht : Tracks h b tx evs) :
    Tracks h b (ntripTxAbort tx).1 (evs ++ (ntripTxAbort tx).2) := by
  rcases ntripTxAbort_cases tx with ⟨hopen, habort⟩ | ⟨hidle, habort⟩
  · obtain ⟨seq, hc⟩ := ht.pending_some hopen
    have hshort : tx.current.take tx.currentOff ≠ tx.current := by
      intro heq
      have := congrArg List.length heq
      rw [List.length_take, ← hlen hopen] at this
      omega
    have hdone := ht.recorded.settle hc (Ledger.post_cut _) rfl (fun h => Fate.noConfusion h)
      (fun _ => ⟨List.take_prefix _ _, hshort⟩)
    rw [habort]
    refine Recorded.tracks hdone ht.base_le ?_
    rw [ledger_snoc, if_neg (Nat.lt_irrefl 0)]
    rfl
  · rw [habort, List.append_nil]
    exact
      { ht with
        pending_eq := by
          rw [ht.pending_eq, if_neg hidle, if_neg (Nat.lt_irrefl 0)] }

end Pending

end RtkdataFw.TxCore
