import RtkdataFw.Lib.Machine
import RtkdataFw.TxCore.SenderSpec
import Mathlib.Logic.Function.Basic

/-!
# One ring and its senders, in any interleaving

`core` is the system of one `ntrip_ring_t` and any family of `ntrip_tx_t`: its events are pushes and the
calls on single senders, in any order.

* `watch_step`, `watch_run` — after any run the ring is what the accepted pushes made of it and every
  sender is in order;
* `senders_balance` — nothing pushed is unaccounted for.
-/

namespace RtkdataFw.TxCore

open RtkdataFw.Lib

/-- The calls that the owner of a sender makes. -/
inductive TxOp where
  | poll (nowMs : UInt32) (maxSends : ℤ) (staleMs : UInt32) (send : ℕ → SendFn)
  | abort
  | resetConn (nowMs : UInt32)

def TxOp.run (tx : NtripTx) (ring : NtripRing) : TxOp → NtripTx × List TxEvent
  | .poll nowMs maxSends staleMs send => (ntripTxPoll tx ring nowMs maxSends staleMs send).2
  | .abort => ntripTxAbort tx
  | .resetConn nowMs => ntripTxResetConn tx ring nowMs

/-- The send callback keeps its contract. -/
def TxOp.Ok : TxOp → Prop
  | .poll _ _ _ send => ∀ i, (send i).Ok
  | _ => True

structure CoreState (ι : Type*) where
  ring : NtripRing
  tx : ι → NtripTx

inductive CoreEvent (ι : Type*) where
  | push (frame : List UInt8) (nowMs : UInt32)
  | sender (i : ι) (op : TxOp)

/-- What can be seen of a run: the frames the ring took, and what each sender did. -/
inductive CoreObs (ι : Type*) where
  | pushed (a : Arrival)
  | tx (i : ι) (e : TxEvent)

variable {ι : Type*} [DecidableEq ι]

def coreInit : CoreState ι := ⟨ntripRingInit, fun _ => ntripTxInit⟩

def CoreEvent.Ok : CoreEvent ι → Prop
  | .push _ _ => True
  | .sender _ op => op.Ok

def core : Machine (CoreState ι) (CoreEvent ι) (CoreObs ι) where
  step s
    | .push frame nowMs => { s with ring := ntripRingPush s.ring frame nowMs }
    | .sender i op => { s with tx := Function.update s.tx i (op.run (s.tx i) s.ring).1 }
  out s
    | .push frame nowMs =>
        if frame.length < 6 ∨ frame.length > rtcmMaxFrameB then [] else [.pushed ⟨frame, nowMs⟩]
    | .sender i op => (op.run (s.tx i) s.ring).2.map (.tx i)

/-- The frames the ring took. -/
def arrivals (os : List (CoreObs ι)) : List Arrival :=
  os.filterMap fun
    | .pushed a => some a
    | _ => none

/-- What sender `i` did. -/
def trace (i : ι) (os : List (CoreObs ι)) : List TxEvent :=
  os.filterMap fun
    | .tx j e => if j = i then some e else none
    | _ => none

omit [DecidableEq ι] in
@[simp] theorem arrivals_append (os us : List (CoreObs ι)) :
    arrivals (os ++ us) = arrivals os ++ arrivals us := List.filterMap_append

@[simp] theorem trace_append (i : ι) (os us : List (CoreObs ι)) :
    trace i (os ++ us) = trace i os ++ trace i us := List.filterMap_append

omit [DecidableEq ι] in
@[simp] theorem arrivals_tx (i : ι) (evs : List TxEvent) : arrivals (evs.map (CoreObs.tx i)) = [] := by
  simp [arrivals]

@[simp] theorem trace_tx_self (i : ι) (evs : List TxEvent) : trace i (evs.map (CoreObs.tx i)) = evs := by
  simp [trace]

theorem trace_tx_of_ne {i j : ι} (hne : j ≠ i) (evs : List TxEvent) :
    trace i (evs.map (CoreObs.tx j)) = [] := by
  simp [trace, hne]

/-! ### The invariant -/

theorem TxOp.run_ok {h : List Arrival} {ring : NtripRing} {past evs : List TxEvent} {b : ℕ}
    {tx : NtripTx} (hr : RingOk h ring) {op : TxOp} (hop : op.Ok) (hs : SenderOk h past b tx evs) :
    SenderOk h past b (op.run tx ring).1 (evs ++ (op.run tx ring).2) := by
  cases op with
  | poll nowMs maxSends staleMs send => exact poll_ok hr nowMs maxSends staleMs hop hs
  | abort => exact ntripTxAbort_ok hs
  | resetConn nowMs => exact (ntripTxResetConn_ok hr nowMs hs).1

/-- The ring and sender `i` are in order, with respect to what was observed: `past` before the watch on
the sender began, `os` since, with no frame below sequence number `b`. -/
structure Watch (i : ι) (past : List (CoreObs ι)) (b : ℕ) (s : CoreState ι)
    (os : List (CoreObs ι)) : Prop where
  ring : RingOk (arrivals (past ++ os)) s.ring
  tx : SenderOk (arrivals (past ++ os)) (trace i past) b (s.tx i) (trace i os)

theorem watch_init (i : ι) : Watch i [] 0 (coreInit : CoreState ι) [] where
  ring := ringOk_init
  tx :=
    have hidle : ¬ ntripTxInit.currentOff < ntripTxInit.currentLen := Nat.lt_irrefl 0
    ⟨books_init, Tracks.start hidle⟩

/-- **One event keeps the invariant**, while fewer than `2 ^ 32` frames have been pushed. -/
theorem watch_step {i : ι} {past : List (CoreObs ι)} {b : ℕ} {s : CoreState ι}
    {os : List (CoreObs ι)} {e : CoreEvent ι} (hs : Watch i past b s os) (he : e.Ok)
    (hbound : (arrivals (past ++ (os ++ core.out s e))).length < 2 ^ 32) :
    Watch i past b (core.step s e) (os ++ core.out s e) := by
  cases e with
  | push frame nowMs =>
      by_cases hlen : frame.length < 6 ∨ frame.length > rtcmMaxFrameB
      · have hout : core.out s (.push frame nowMs) = [] := if_pos hlen
        have hstep : core.step s (.push frame nowMs) = s := by
          show { s with ring := ntripRingPush s.ring frame nowMs } = s
          rw [ntripRingPush_reject hlen]
        rw [hout, hstep, List.append_nil]
        exact hs
      · have hout : core.out s (.push frame nowMs) = [.pushed ⟨frame, nowMs⟩] := if_neg hlen
        have harr : arrivals (past ++ (os ++ core.out s (.push frame nowMs))) =
            arrivals (past ++ os) ++ [⟨frame, nowMs⟩] := by
          rw [hout, ← List.append_assoc, arrivals_append]
          rfl
        have htrace : trace i (os ++ core.out s (.push frame nowMs)) = trace i os := by
          rw [hout, trace_append]
          exact List.append_nil _
        rw [harr, List.length_append, List.length_singleton] at hbound
        constructor
        · rw [harr]
          exact hs.ring.push hlen hbound
        · rw [harr, htrace]
          exact hs.tx.grow _
  | sender j op =>
      have harr : arrivals (past ++ (os ++ core.out s (.sender j op))) = arrivals (past ++ os) := by
        simp [core]
      constructor
      · rw [harr]
        exact hs.ring
      · rw [harr, trace_append]
        by_cases hij : j = i
        · subst hij
          have hout : trace j (core.out s (.sender j op)) = (op.run (s.tx j) s.ring).2 :=
            trace_tx_self j _
          have hstep : (core.step s (.sender j op)).tx j = (op.run (s.tx j) s.ring).1 :=
            Function.update_self j _ _
          rw [hout, hstep]
          exact TxOp.run_ok hs.ring he hs.tx
        · have hout : trace i (core.out s (.sender j op)) = [] := trace_tx_of_ne hij _
          have hstep : (core.step s (.sender j op)).tx i = s.tx i :=
            Function.update_of_ne (Ne.symm hij) _ _
          rw [hout, hstep, List.append_nil]
          exact hs.tx

/-- **Every run keeps it.** -/
theorem watch_run {i : ι} {past : List (CoreObs ι)} {b : ℕ} {s : CoreState ι}
    {os : List (CoreObs ι)} {es : List (CoreEvent ι)} (hs : Watch i past b s os)
    (hes : core.Admits (fun _ e => e.Ok) s es)
    (hbound : (arrivals (past ++ (os ++ core.outputs s es))).length < 2 ^ 32) :
    Watch i past b (core.run s es) (os ++ core.outputs s es) := by
  have hstep : ∀ (s : CoreState ι) os (e : CoreEvent ι),
      ((arrivals (past ++ os)).length < 2 ^ 32 → Watch i past b s os) → e.Ok →
        (arrivals (past ++ (os ++ core.out s e))).length < 2 ^ 32 →
          Watch i past b (core.step s e) (os ++ core.out s e) := by
    intro s os e hs he hlt
    refine watch_step (hs ?_) he hlt
    rw [← List.append_assoc, arrivals_append, List.length_append] at hlt
    omega
  exact core.history hstep (fun _ => hs) hes hbound

/-! ### Nothing pushed is unaccounted for -/

/-- **Balance.**  For every sender: the bytes copied are accepted, pending or dropped; the bytes passed by
the cursor are copied, skipped or stale, and they are those of the frames below the cursor; the same for
frames; and the frames copied, each once and in order, are sent, cut or pending. -/
theorem senders_balance (es : List (CoreEvent ι))
    (hes : core.Admits (fun _ e => e.Ok) (coreInit : CoreState ι) es)
    (hbound : (arrivals (core.outputs (coreInit : CoreState ι) es)).length < 2 ^ 32) (i : ι) :
    let s := core.run (coreInit : CoreState ι) es
    let os := core.outputs (coreInit : CoreState ι) es
    let tx := s.tx i
    let book := ledger (trace i os)
    tx.copiedBytes = tx.acceptedToLwip + tx.pending + tx.droppedBytes ∧
      tx.copiedBytes + tx.skippedBytes + tx.droppedStaleBytes = tx.cumThrough ∧
      tx.cumThrough = bytesBelow (arrivals os) tx.cursorSeq.toNat ∧
      (copiedSeqs (trace i os)).length + tx.skippedFrames.toNat + tx.droppedFramesStale.toNat =
        tx.cursorSeq.toNat ∧
      copiedSeqs (trace i os) = book.settled.map (fun c => c.1.seq) ++
        (book.pending.map CopyRec.seq).toList ∧
      (copiedSeqs (trace i os)).Pairwise (· < ·) ∧
      tx.sentFrames = (book.settled.filter fun c => c.2 = .sent).length ∧
      (book.pending.isSome = true ↔ 0 < tx.pending) ∧
      (tx.cursorSeq = s.ring.nextSeq →
        tx.copiedBytes + tx.skippedBytes + tx.droppedStaleBytes = s.ring.cumBytes) := by
  have hinv := watch_run (watch_init i) hes hbound
  have hring : RingOk (arrivals (core.outputs coreInit es)) (core.run coreInit es).ring := hinv.ring
  have hbooks : Books (arrivals (core.outputs coreInit es)) ((core.run coreInit es).tx i)
      (trace i (core.outputs coreInit es)) := hinv.tx.books
  have htracks := hinv.tx.tracks
  dsimp only
  refine ⟨hbooks.copied_eq, hbooks.through_eq, hbooks.cum_eq, ?_, ?_, ?_, hbooks.sent_eq, ?_, ?_⟩
  · rw [← hbooks.copies_eq, List.length_map]
    exact hbooks.frames_eq
  · rw [← hbooks.copies_eq, Ledger.copies, List.map_append, List.map_map]
    cases (ledger (trace i (core.outputs coreInit es))).pending <;> rfl
  · rw [← hbooks.copies_eq, List.pairwise_map]
    exact htracks.ordered.imp fun hlt => UInt32.lt_iff_toNat_lt.mpr hlt
  · rw [hbooks.pending_iff, NtripTx.pending]
    omega
  · intro hcaught
    rw [hbooks.through_eq, hbooks.cum_eq, hcaught, hring.nextSeq_eq, hring.cumBytes_eq]

/-- A callback that takes everything. -/
def sendAll : ℕ → SendFn := fun _ buf => ⟨buf.length, 0⟩

/-- A callback that takes two bytes and then blocks. -/
def sendTwo : ℕ → SendFn
  | 0, buf => ⟨min 2 buf.length, 0⟩
  | _, _ => ⟨-1, eagain⟩

/-- Three frames into the ring, a frame sent, one begun and given up, the last one waiting at the
reconnect. -/
def demoRun : List (CoreEvent Unit) :=
  [.push (List.replicate 7 0xD3) 10, .push (List.replicate 8 0xD3) 11,
   .sender () (.poll 12 1 2000 sendAll), .sender () (.poll 13 2 2000 sendTwo), .sender () .abort,
   .push (List.replicate 9 0xD3) 14, .sender () (.resetConn 15)]

theorem sendAll_ok (i : ℕ) : (sendAll i).Ok := fun _ => Int.le_refl _

theorem sendTwo_ok (i : ℕ) : (sendTwo i).Ok := by
  intro buf
  cases i with
  | zero => exact Int.min_le_right _ _
  | succ i => exact Int.le_trans (by decide : (-1 : ℤ) ≤ 0) (Int.natCast_nonneg _)

theorem demoRun_ok : core.Admits (fun _ e => e.Ok) (coreInit : CoreState Unit) demoRun :=
  ⟨trivial, trivial, sendAll_ok, sendTwo_ok, trivial, trivial, trivial, trivial⟩

theorem senders_balance_demoRun :
    let tx := (core.run (coreInit : CoreState Unit) demoRun).tx ()
    tx.copiedBytes = tx.acceptedToLwip + tx.pending + tx.droppedBytes ∧
      tx.copiedBytes + tx.skippedBytes + tx.droppedStaleBytes = tx.cumThrough := by
  have h := senders_balance demoRun demoRun_ok (by decide +kernel) ()
  exact ⟨h.1, h.2.1⟩

end RtkdataFw.TxCore
