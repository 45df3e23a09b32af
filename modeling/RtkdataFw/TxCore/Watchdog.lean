import RtkdataFw.Lib.Clock
import RtkdataFw.TxCore.Delivery

/-!
# The watchdogs on a partial send

One sender and the ring, with calls at times that do not go back; the code sees the low 32 bits of each time.

* `WatchLog` — what the calls say of the copied frame: when it was pushed, when it was copied, when a byte of it
  was last accepted, and how many are left;
* `flies_copyNext`, `flies_accept`, `flies_abort` — the three stamps of the sender are those of the log, over
  copies, sends, completions and aborts;
* `stamped_push` — the ring's slots carry the times of the pushes, also when the sequence numbers wrap;
* `watchdogs_exact` — the two predicates say what the log says.
-/

namespace RtkdataFw.TxCore

open RtkdataFw.Lib

/-! ### Calls with their times -/

inductive SenderCall where
  | push (frame : List UInt8)
  | poll (maxSends : ℤ) (staleMs : UInt32) (send : ℕ → SendFn)
  | abort
  | resetConn

structure TimedCall where
  ms : ℕ
  call : SenderCall

def SenderCall.Ok : SenderCall → Prop
  | .poll _ _ send => ∀ j, (send j).Ok
  | _ => True

/-- The sender's part of a call, with the clock that the code reads. -/
def TimedCall.op (e : TimedCall) : Option TxOp :=
  match e.call with
  | .push _ => none
  | .poll maxSends staleMs send => some (.poll (UInt32.ofNat e.ms) maxSends staleMs send)
  | .abort => some .abort
  | .resetConn => some (.resetConn (UInt32.ofNat e.ms))

/-- The call as an event of the ring and its one sender. -/
def TimedCall.lower (e : TimedCall) : CoreEvent Unit :=
  match e.call with
  | .push frame => .push frame (UInt32.ofNat e.ms)
  | .poll maxSends staleMs send => .sender () (.poll (UInt32.ofNat e.ms) maxSends staleMs send)
  | .abort => .sender () .abort
  | .resetConn => .sender () (.resetConn (UInt32.ofNat e.ms))

/-- What is seen of a call: a frame pushed under a sequence number, or what the sender did. -/
inductive WatchObs where
  | pushed (seq : UInt32)
  | tx (e : TxEvent)

def timed : Machine (CoreState Unit) TimedCall (ℕ × WatchObs) where
  step s e := core.step s e.lower
  out s e :=
    match e.call with
    | .push frame =>
        if frame.length < 6 ∨ frame.length > rtcmMaxFrameB then [] else [(e.ms, .pushed s.ring.nextSeq)]
    | _ => ((e.op.map fun op => (op.run (s.tx ()) s.ring).2).getD []).map fun ev => (e.ms, .tx ev)

/-! ### What the log says -/

/-- A copied frame: its bytes still to be accepted, and its times. -/
structure Flight where
  left : ℕ
  pushed : ℕ
  copied : ℕ
  /-- The last poll in which a byte of it was accepted. -/
  taken : Option ℕ
  deriving DecidableEq, Repr

/-- The later of the copy and the last accepted byte. -/
def Flight.progress (f : Flight) : ℕ := max f.copied (f.taken.getD f.copied)

structure WatchLog where
  /-- When the frame with a sequence number was last pushed. -/
  pushedAt : UInt32 → ℕ
  flight : Option Flight

def WatchLog.init : WatchLog := ⟨fun _ => 0, none⟩

def WatchLog.postTx (l : WatchLog) (ms : ℕ) : TxEvent → WatchLog
  | .copied seq frame => { l with flight := some ⟨frame.length, l.pushedAt seq, ms, none⟩ }
  | .accepted bytes =>
      { l with flight := l.flight.map fun f => { f with left := f.left - bytes.length, taken := some ms } }
  | .cut => { l with flight := none }
  | _ => l

def WatchLog.post (l : WatchLog) : ℕ × WatchObs → WatchLog
  | (ms, .pushed seq) => { l with pushedAt := Function.update l.pushedAt seq ms }
  | (ms, .tx e) => l.postTx ms e

def watchLog (os : List (ℕ × WatchObs)) : WatchLog := os.foldl WatchLog.post .init

/-- What a sender did at one time. -/
def WatchLog.posts (l : WatchLog) (ms : ℕ) (evs : List TxEvent) : WatchLog :=
  evs.foldl (fun l e => l.postTx ms e) l

theorem posts_append (l : WatchLog) (ms : ℕ) (evs fs : List TxEvent) :
    l.posts ms (evs ++ fs) = (l.posts ms evs).posts ms fs := List.foldl_append

theorem foldl_post_tx (l : WatchLog) (ms : ℕ) (evs : List TxEvent) :
    (evs.map fun e => (ms, WatchObs.tx e)).foldl WatchLog.post l = l.posts ms evs := List.foldl_map

theorem posts_pushedAt (l : WatchLog) (ms : ℕ) (evs : List TxEvent) : (l.posts ms evs).pushedAt = l.pushedAt := by
  induction evs generalizing l with
  | nil => rfl
  | cons e evs ih =>
      apply (ih (l.postTx ms e)).trans
      cases e <;> rfl

/-- Trickling bytes leave the time of the push. -/
theorem postTx_accepted_pushed (l : WatchLog) (ms : ℕ) (bytes : List UInt8) :
    (l.postTx ms (.accepted bytes)).flight.map Flight.pushed = l.flight.map Flight.pushed := by
  cases h : l.flight <;> simp [WatchLog.postTx, h]

/-! ### The stamps of the ring -/

/-- The slots of the last frames carry the times of their pushes; `n` frames have been pushed. -/
def Stamped (ring : NtripRing) (pushedAt : UInt32 → ℕ) (n last : ℕ) : Prop :=
  ring.nextSeq = UInt32.ofNat n ∧ ∀ i < n, n ≤ i + rtcmRingSlots →
    (ring.slotOf (UInt32.ofNat i)).receivedMs = UInt32.ofNat (pushedAt (UInt32.ofNat i)) ∧
      pushedAt (UInt32.ofNat i) ≤ last

theorem stamped_init : Stamped ntripRingInit WatchLog.init.pushedAt 0 0 :=
  ⟨rfl, fun i hi => absurd hi (Nat.not_lt_zero i)⟩

theorem Stamped.later {ring : NtripRing} {pushedAt : UInt32 → ℕ} {n last ms : ℕ}
    (h : Stamped ring pushedAt n last) (hms : last ≤ ms) : Stamped ring pushedAt n ms := by
  refine ⟨h.1, ?_⟩
  intro i hi hres
  obtain ⟨hstamp, hle⟩ := h.2 i hi hres
  exact ⟨hstamp, hle.trans hms⟩

theorem ofNat_mod_slots (i : ℕ) : (UInt32.ofNat i).toNat % rtcmRingSlots = i % rtcmRingSlots := by
  rw [UInt32.toNat_ofNat', rtcmRingSlots]
  omega

theorem ofNat_succ (n : ℕ) : UInt32.ofNat (n + 1) = UInt32.ofNat n + 1 := UInt32.ofNat_add n 1

/-- **A push stamps its slot**, and leaves those of the fifteen frames before it. -/
theorem stamped_push {ring : NtripRing} {pushedAt : UInt32 → ℕ} {n last ms : ℕ}
    (h : Stamped ring pushedAt n last) (hms : last ≤ ms) {frame : List UInt8}
    (hlen : ¬ (frame.length < 6 ∨ frame.length > rtcmMaxFrameB)) :
    Stamped (ntripRingPush ring frame (UInt32.ofNat ms)) (Function.update pushedAt ring.nextSeq ms) (n + 1) ms := by
  obtain ⟨hnext, hslots⟩ := h
  have h16 : rtcmRingSlots = 16 := rfl
  constructor
  · rw [ntripRingPush, if_neg hlen, ofNat_succ, ← hnext]
  · intro i hi hres
    rw [slotOf_push ring _ hlen, hnext, ofNat_mod_slots, ofNat_mod_slots]
    rcases Nat.lt_succ_iff_lt_or_eq.mp hi with hlt | rfl
    · have hne : UInt32.ofNat i ≠ UInt32.ofNat n := by
        rw [ne_eq, ← UInt32.toNat_inj, UInt32.toNat_ofNat', UInt32.toNat_ofNat']
        omega
      obtain ⟨hstamp, hle⟩ := hslots i hlt (by omega)
      rw [if_neg (Window.mod_ne hlt (by omega)).symm, Function.update_of_ne hne]
      exact ⟨hstamp, hle.trans hms⟩
    · rw [if_pos rfl, Function.update_self]
      exact ⟨rfl, Nat.le_refl _⟩

/-- The sequence numbers that a copy reads, wrapped or not. -/
theorem Stamped.waiting {ring : NtripRing} {pushedAt : UInt32 → ℕ} {n last : ℕ}
    (h : Stamped ring pushedAt n last) {seq : UInt32} (hge : (ringOldestSeq ring).toNat ≤ seq.toNat)
    (hlt : seq < ring.nextSeq) :
    (ring.slotOf seq).receivedMs = UInt32.ofNat (pushedAt seq) ∧ pushedAt seq ≤ last := by
  obtain ⟨hnext, hslots⟩ := h
  have h16 : rtcmRingSlots = 16 := rfl
  rw [UInt32.lt_iff_toNat_lt] at hlt
  have hn : ring.nextSeq.toNat = n % 2 ^ 32 := by rw [hnext, UInt32.toNat_ofNat']
  rw [toNat_ringOldestSeq] at hge
  -- the push that was `n % 2 ^ 32 - seq` pushes ago
  have hseq : UInt32.ofNat (n - (n % 2 ^ 32 - seq.toNat)) = seq := by
    rw [← UInt32.toNat_inj, UInt32.toNat_ofNat']
    omega
  have hslot := hslots (n - (n % 2 ^ 32 - seq.toNat)) (by omega) (by omega)
  rwa [hseq] at hslot

/-! ### The stamps of the sender -/

/-- The copied frame of the log is the one the sender is at, with the same times. -/
def Flies (tx : NtripTx) (l : WatchLog) (last : ℕ) : Prop :=
  (¬ tx.currentOff < tx.currentLen ∧ ∀ f ∈ l.flight, f.left = 0) ∨
    (tx.currentOff < tx.currentLen ∧ tx.currentLen = tx.current.length ∧
      ∃ f, l.flight = some f ∧ f.left = tx.currentLen - tx.currentOff ∧
        tx.currentReceivedMs = UInt32.ofNat f.pushed ∧ tx.lastProgressMs = UInt32.ofNat f.progress ∧
        f.pushed ≤ last ∧ f.progress ≤ last)

theorem Flies.later {tx : NtripTx} {l : WatchLog} {last ms : ℕ} (h : Flies tx l last) (hms : last ≤ ms) :
    Flies tx l ms := by
  rcases h with hidle | ⟨hopen, hlen, f, hf, hleft, hrec, hprog, hpushed, hprogress⟩
  · exact Or.inl hidle
  · exact Or.inr ⟨hopen, hlen, f, hf, hleft, hrec, hprog, hpushed.trans hms, hprogress.trans hms⟩

/-- Without a frame in flight. -/
theorem Flies.of_idle {tx : NtripTx} {l : WatchLog} {last : ℕ} (hidle : ¬ tx.currentOff < tx.currentLen)
    (hnone : ∀ f ∈ l.flight, f.left = 0) : Flies tx l last := Or.inl ⟨hidle, hnone⟩

theorem Flies.landed {tx : NtripTx} {l : WatchLog} {last : ℕ} (h : Flies tx l last)
    (hidle : ¬ tx.currentOff < tx.currentLen) : ∀ f ∈ l.flight, f.left = 0 := by
  rcases h with ⟨_, hnone⟩ | ⟨hopen, _⟩
  · exact hnone
  · exact absurd hopen hidle

section Stamps

variable {ring : NtripRing} {l : WatchLog} {n last ms : ℕ}

/-- **The copy stamps the frame** with the time of its push and its own. -/
theorem flies_copyLoop (hr : Stamped ring l.pushedAt n ms) (staleMs : UInt32) {tx : NtripTx}
    (hge : (ringOldestSeq ring).toNat ≤ tx.cursorSeq.toNat) (hidle : ¬ tx.currentOff < tx.currentLen)
    (hnone : ∀ f ∈ l.flight, f.left = 0) :
    Flies (txCopyLoop tx ring (UInt32.ofNat ms) staleMs).2.1
      (l.posts ms (txCopyLoop tx ring (UInt32.ofNat ms) staleMs).2.2) ms := by
  fun_induction txCopyLoop tx ring (UInt32.ofNat ms) staleMs with
  | case1 tx hlt s hstale r =>
      rename_i ih
      have hcursor : (txDropStale tx s).cursorSeq.toNat = tx.cursorSeq.toNat + 1 := cursor_succ hlt
      exact ih (by omega) hidle
  | case2 tx hlt s =>
      obtain ⟨hstamp, hle⟩ := hr.waiting hge hlt
      have hprogress : Flight.progress ⟨s.data.length, l.pushedAt tx.cursorSeq, ms, none⟩ = ms := Nat.max_self ms
      by_cases hlen : 0 < s.len
      · refine Or.inr ⟨hlen, rfl, _, rfl, rfl, hstamp, ?_, hle, hprogress.le⟩
        rw [hprogress]
        rfl
      · refine Or.inl ⟨hlen, ?_⟩
        intro f hf
        cases hf
        exact Nat.eq_zero_of_not_pos hlen
  | case3 tx hge' => exact Flies.of_idle hidle hnone

theorem flies_copyNext (hr : Stamped ring l.pushedAt n ms) (staleMs : UInt32) {tx : NtripTx}
    (hidle : ¬ tx.currentOff < tx.currentLen) (hnone : ∀ f ∈ l.flight, f.left = 0) :
    Flies (txCopyNext tx ring (UInt32.ofNat ms) staleMs).2.1
      (l.posts ms (txCopyNext tx ring (UInt32.ofNat ms) staleMs).2.2) ms := by
  have hjump : l.posts ms (txJump tx ring).2 = l := by
    rcases txJump_cases tx ring with ⟨_, h⟩ | ⟨_, h⟩
    · rw [h]
      rfl
    · rw [h]
      rfl
  have hge : (ringOldestSeq ring).toNat ≤ (txJump tx ring).1.cursorSeq.toNat := by
    rw [txJump_cursor]
    exact oldest_le_firstDue tx ring
  have hloop := flies_copyLoop hr staleMs hge (txJump_idle hidle) hnone
  rw [txCopyNext]
  dsimp only
  rw [posts_append, hjump]
  exact hloop

theorem flies_abort {tx : NtripTx} (h : Flies tx l ms) :
    Flies (ntripTxAbort tx).1 (l.posts ms (ntripTxAbort tx).2) ms := by
  rcases ntripTxAbort_cases tx with ⟨_, habort⟩ | ⟨hidle, habort⟩
  · rw [habort]
    apply Flies.of_idle (Nat.lt_irrefl 0)
    intro f hf
    cases hf
  · rw [habort]
    exact Flies.of_idle (Nat.lt_irrefl 0) (h.landed hidle)

/-- **Accepted bytes** restart the progress clock and leave the time of the push. -/
theorem flies_accept {tx : NtripTx} (h : Flies tx l ms) {k : ℕ} (hpos : 0 < k) (hle : k ≤ tx.unsent.length) :
    Flies (txAccept tx k (UInt32.ofNat ms)).1 (l.posts ms (txAccept tx k (UInt32.ofNat ms)).2) ms := by
  have hpending := length_unsent tx
  rw [NtripTx.pending] at hpending
  rcases h with ⟨hidle, _⟩ | ⟨hopen, hlen, f, hf, hleft, hrec, hprog, hpushed, hprogress⟩
  · omega
  have hflight : (l.postTx ms (.accepted (tx.unsent.take k))).flight =
      some { f with left := f.left - k, taken := some ms } := by
    rw [WatchLog.postTx, hf]
    dsimp only [Option.map_some]
    rw [List.length_take, Nat.min_eq_left hle]
  have hnow : Flight.progress { f with left := f.left - k, taken := some ms } = ms :=
    Nat.max_eq_right ((Nat.le_max_left _ _).trans hprogress)
  rcases txAccept_cases tx k (UInt32.ofNat ms) with ⟨hfull, haccept⟩ | ⟨hpart, haccept⟩
  · rw [haccept]
    apply Flies.of_idle (Nat.lt_irrefl 0)
    intro f' hf'
    have hf'' : f' ∈ (l.postTx ms (.accepted (tx.unsent.take k))).flight := hf'
    rw [hflight] at hf''
    cases hf''
    show f.left - k = 0
    omega
  · rw [haccept]
    refine Or.inr ⟨?_, hlen, _, hflight, ?_, hrec, ?_, hpushed, hnow.le⟩
    · show tx.currentOff + k < tx.currentLen
      omega
    · show f.left - k = tx.currentLen - (tx.currentOff + k)
      omega
    · rw [hnow]

/-- **A send attempt.** -/
theorem flies_pollSend {tx : NtripTx} (h : Flies tx l ms) {send : SendFn} (hsend : send.Ok) :
    Flies (pollSend tx (UInt32.ofNat ms) send).tx (l.posts ms (pollSend tx (UInt32.ofNat ms) send).evs) ms := by
  rcases pollSend_cases tx (UInt32.ofNat ms) send with ⟨hpos, hround⟩ | hround | ⟨err, hround⟩
  · have hok := hsend tx.unsent
    rw [hround]
    exact flies_accept h (by omega) (by omega)
  · rw [hround]
    exact h
  · rw [hround]
    exact flies_abort h

theorem flies_pollRound (hr : Stamped ring l.pushedAt n ms) (staleMs : UInt32) {tx : NtripTx}
    (h : Flies tx l ms) {send : SendFn} (hsend : send.Ok) (result : PollResult) :
    Flies (pollRound tx ring (UInt32.ofNat ms) staleMs send result).tx
      (l.posts ms (pollRound tx ring (UInt32.ofNat ms) staleMs send result).evs) ms := by
  rcases pollRound_cases tx ring (UInt32.ofNat ms) staleMs send result with
    ⟨hidle, _, hround⟩ | ⟨hidle, hround⟩ | ⟨_, hround⟩
  · have hcopy := flies_copyNext hr staleMs (Nat.not_lt.mpr hidle) (h.landed (Nat.not_lt.mpr hidle))
    rw [hround]
    dsimp only
    rw [posts_append]
    exact flies_pollSend hcopy hsend
  · rw [hround]
    exact flies_copyNext hr staleMs (Nat.not_lt.mpr hidle) (h.landed (Nat.not_lt.mpr hidle))
  · rw [hround]
    exact flies_pollSend h hsend

theorem flies_pollLoop (hr : Stamped ring l.pushedAt n ms) (staleMs : UInt32) {send : ℕ → SendFn}
    (hsend : ∀ j, (send j).Ok) (rounds round : ℕ) (result : PollResult) {tx : NtripTx} (h : Flies tx l ms) :
    Flies (pollLoop ring (UInt32.ofNat ms) staleMs send rounds round result tx).2.1
      (l.posts ms (pollLoop ring (UInt32.ofNat ms) staleMs send rounds round result tx).2.2) ms := by
  induction rounds generalizing round result tx l with
  | zero => exact h
  | succ rounds ih =>
      have hround := flies_pollRound hr staleMs h (hsend round) result
      rw [pollLoop]
      dsimp only
      split
      · have hr' : Stamped ring
            (l.posts ms (pollRound tx ring (UInt32.ofNat ms) staleMs (send round) result).evs).pushedAt n ms := by
          rw [posts_pushedAt]
          exact hr
        dsimp only
        rw [posts_append]
        exact ih hr' (round + 1) _ hround
      · exact hround

theorem flies_resetConn {tx : NtripTx} (h : Flies tx l ms) (nowMs : UInt32) :
    Flies (ntripTxResetConn tx ring nowMs).1 (l.posts ms (ntripTxResetConn tx ring nowMs).2) ms := by
  have habort := flies_abort h
  have hidle := ntripTxAbort_idle tx
  have hnone := habort.landed hidle
  rw [ntripTxResetConn]
  dsimp only
  rw [posts_append]
  rcases txSkipWaiting_cases (ntripTxAbort tx).1 ring with ⟨_, hskip⟩ | ⟨_, hskip⟩
  · rw [hskip]
    exact Flies.of_idle hidle hnone
  · rw [hskip]
    exact Flies.of_idle hidle hnone

end Stamps

/-! ### Runs -/

/-- The ring and the sender carry the times of the log. -/
def WatchOk (s : CoreState Unit) (os : List (ℕ × WatchObs)) (last : ℕ) : Prop :=
  ∃ n, Stamped s.ring (watchLog os).pushedAt n last ∧ Flies (s.tx ()) (watchLog os) last

theorem watchLog_append (os us : List (ℕ × WatchObs)) :
    watchLog (os ++ us) = us.foldl WatchLog.post (watchLog os) := List.foldl_append

theorem watchLog_tx (os : List (ℕ × WatchObs)) (ms : ℕ) (evs : List TxEvent) :
    watchLog (os ++ evs.map fun e => (ms, .tx e)) = (watchLog os).posts ms evs := by
  rw [watchLog_append]
  exact foldl_post_tx _ ms evs

theorem watchOk_init : WatchOk coreInit [] 0 :=
  have hidle : ¬ ntripTxInit.currentOff < ntripTxInit.currentLen := Nat.lt_irrefl 0
  ⟨0, stamped_init, Flies.of_idle hidle fun f hf => absurd hf (by simp [watchLog, WatchLog.init])⟩

/-- A call on the sender keeps the ring, so only the sender's stamps are to be shown. -/
theorem watchOk_sender {s : CoreState Unit} {os : List (ℕ × WatchObs)} {last ms : ℕ} (hs : WatchOk s os last)
    (hms : last ≤ ms) {tx' : NtripTx} {evs : List TxEvent}
    (h : ∀ n, Stamped s.ring (watchLog os).pushedAt n ms → Flies (s.tx ()) (watchLog os) ms →
      Flies tx' ((watchLog os).posts ms evs) ms) :
    WatchOk ⟨s.ring, Function.update s.tx () tx'⟩ (os ++ evs.map fun e => (ms, .tx e)) ms := by
  obtain ⟨n, hring, htx⟩ := hs
  have hring' := hring.later hms
  refine ⟨n, ?_, ?_⟩
  · rw [watchLog_tx, posts_pushedAt]
    exact hring'
  · show Flies (Function.update s.tx () tx' ()) _ ms
    rw [watchLog_tx, Function.update_self]
    exact h n hring' (htx.later hms)

/-- **One call keeps the times.** -/
theorem watchOk_step {s : CoreState Unit} {os : List (ℕ × WatchObs)} {last : ℕ} (hs : WatchOk s os last)
    (e : TimedCall) (hms : last ≤ e.ms) (hok : e.call.Ok) :
    WatchOk (timed.step s e) (os ++ timed.out s e) e.ms := by
  obtain ⟨ms, call⟩ := e
  cases call with
  | push frame =>
      obtain ⟨n, hring, htx⟩ := hs
      by_cases hlen : frame.length < 6 ∨ frame.length > rtcmMaxFrameB
      · have hout : timed.out s ⟨ms, .push frame⟩ = [] := if_pos hlen
        have hstep : timed.step s ⟨ms, .push frame⟩ = s := by
          show { s with ring := ntripRingPush s.ring frame (UInt32.ofNat ms) } = s
          rw [ntripRingPush_reject hlen]
        rw [hout, hstep, List.append_nil]
        exact ⟨n, hring.later hms, htx.later hms⟩
      · have hout : timed.out s ⟨ms, .push frame⟩ = [(ms, .pushed s.ring.nextSeq)] := if_neg hlen
        rw [hout]
        refine ⟨n + 1, ?_, ?_⟩
        · rw [watchLog_append]
          exact stamped_push hring hms hlen
        · rw [watchLog_append]
          exact htx.later hms
  | poll maxSends staleMs send =>
      exact watchOk_sender hs hms fun n hring htx => flies_pollLoop hring staleMs hok _ 0 .idle htx
  | abort => exact watchOk_sender hs hms fun _ _ htx => flies_abort htx
  | resetConn => exact watchOk_sender hs hms fun _ _ htx => flies_resetConn htx (UInt32.ofNat ms)

/-- **A run whose times do not go back keeps them.** -/
theorem watchOk_run {es : List TimedCall} (hok : ∀ e ∈ es, e.call.Ok)
    (hmono : (es.map TimedCall.ms).Pairwise (· ≤ ·)) {now : ℕ} (hnow : ∀ e ∈ es, e.ms ≤ now)
    {s : CoreState Unit} {os : List (ℕ × WatchObs)} {last : ℕ} (hs : WatchOk s os last) (hlast : last ≤ now)
    (hfirst : ∀ e ∈ es, last ≤ e.ms) : WatchOk (timed.run s es) (os ++ timed.outputs s es) now := by
  induction es generalizing s os last with
  | nil =>
      obtain ⟨n, hring, htx⟩ := hs
      rw [Machine.outputs_nil, List.append_nil]
      exact ⟨n, hring.later hlast, htx.later hlast⟩
  | cons e es ih =>
      rw [List.map_cons, List.pairwise_cons] at hmono
      have hstep := watchOk_step hs e (hfirst e List.mem_cons_self) (hok e List.mem_cons_self)
      rw [Machine.run_cons, Machine.outputs_cons, ← List.append_assoc]
      refine ih (fun e' he' => hok e' (List.mem_cons_of_mem _ he')) hmono.2
        (fun e' he' => hnow e' (List.mem_cons_of_mem _ he')) hstep (hnow e List.mem_cons_self) ?_
      intro e' he'
      exact hmono.1 _ (List.mem_map_of_mem he')

/-- The code's difference of two times less than a period apart. -/
theorem age_gt_iff {now stamp : ℕ} (hle : stamp ≤ now) (hnear : now - stamp < 2 ^ 32) (limit : UInt32) :
    UInt32.ofNat now - UInt32.ofNat stamp > limit ↔ limit.toNat < now - stamp := by
  have hage := age32_of_le hle
  rw [age32, Nat.mod_eq_of_lt hnear] at hage
  rw [gt_iff_lt, UInt32.lt_iff_toNat_lt, hage]

/-- A watchdog with a stamp of the frame in flight. -/
theorem watchdog_iff {tx : NtripTx} {l : WatchLog} {now : ℕ} (h : Flies tx l now) (stamp : Flight → ℕ)
    {word : UInt32} (hword : ∀ f ∈ l.flight, tx.currentOff < tx.currentLen →
      word = UInt32.ofNat (stamp f) ∧ stamp f ≤ now)
    (hnear : ∀ f ∈ l.flight, now - stamp f < 2 ^ 32) (limit : UInt32) :
    (if tx.currentOff ≥ tx.currentLen then false else decide (UInt32.ofNat now - word > limit)) = true ↔
      ∃ f ∈ l.flight, 0 < f.left ∧ limit.toNat < now - stamp f := by
  rcases h with ⟨hidle, hnone⟩ | ⟨hopen, _, f, hf, hleft, _⟩
  · rw [if_pos (Nat.not_lt.mp hidle)]
    apply iff_of_false Bool.false_ne_true
    intro h
    obtain ⟨f, hf, hpos, _⟩ := h
    exact absurd (hnone f hf) hpos.ne'
  · obtain ⟨heq, hle⟩ := hword f hf hopen
    rw [if_neg (Nat.not_le.mpr hopen), decide_eq_true_iff, heq, age_gt_iff hle (hnear f hf)]
    constructor
    · intro hlate
      exact ⟨f, hf, by omega, hlate⟩
    · intro h
      obtain ⟨f', hf', _, hlate⟩ := h
      cases hf.symm.trans hf'
      exact hlate

/-- **The watchdogs are exact.**  With calls at times that do not go back, `ntrip_tx_stalled` is true when the
copied frame has unsent bytes and more than the timeout has gone by since it was copied or a byte of it was last
accepted, and `ntrip_tx_frame_overdue` when more than the deadline has gone by since it was pushed; the clock may
wrap, as long as these times are less than a period.  The progress clock never starts before the copy, and accepted
bytes leave the time of the push. -/
theorem watchdogs_exact (es : List TimedCall) (hok : ∀ e ∈ es, e.call.Ok)
    (hmono : (es.map TimedCall.ms).Pairwise (· ≤ ·)) (now : ℕ) (hnow : ∀ e ∈ es, e.ms ≤ now) :
    let tx := (timed.run coreInit es).tx ()
    let l := watchLog (timed.outputs coreInit es)
    (∀ timeoutMs : UInt32, (∀ f ∈ l.flight, now - f.progress < 2 ^ 32) →
      (ntripTxStalled tx (UInt32.ofNat now) timeoutMs = true ↔
        ∃ f ∈ l.flight, 0 < f.left ∧ timeoutMs.toNat < now - f.progress)) ∧
      (∀ deadlineMs : UInt32, (∀ f ∈ l.flight, now - f.pushed < 2 ^ 32) →
        (ntripTxFrameOverdue tx (UInt32.ofNat now) deadlineMs = true ↔
          ∃ f ∈ l.flight, 0 < f.left ∧ deadlineMs.toNat < now - f.pushed)) ∧
      (∀ f ∈ l.flight, f.copied ≤ f.progress) ∧
      ∀ ms bytes, (l.postTx ms (.accepted bytes)).flight.map Flight.pushed = l.flight.map Flight.pushed := by
  intro tx l
  obtain ⟨_, _, hflies⟩ := watchOk_run hok hmono hnow watchOk_init (Nat.zero_le now) fun e _ => Nat.zero_le _
  have hflies : Flies tx l now := hflies
  have hstamps : ∀ f ∈ l.flight, tx.currentOff < tx.currentLen →
      (tx.lastProgressMs = UInt32.ofNat f.progress ∧ f.progress ≤ now) ∧
        tx.currentReceivedMs = UInt32.ofNat f.pushed ∧ f.pushed ≤ now := by
    intro f hf hopen
    rcases hflies with ⟨hidle, _⟩ | ⟨_, _, f', hf', _, hrec, hprog, hpushed, hprogress⟩
    · exact absurd hopen hidle
    · cases hf'.symm.trans hf
      exact ⟨⟨hprog, hprogress⟩, hrec, hpushed⟩
  refine ⟨?_, ?_, ?_, postTx_accepted_pushed l⟩
  · intro timeoutMs hnear
    exact watchdog_iff hflies Flight.progress (fun f hf hopen => (hstamps f hf hopen).1) hnear timeoutMs
  · intro deadlineMs hnear
    exact watchdog_iff hflies Flight.pushed (fun f hf hopen => (hstamps f hf hopen).2) hnear deadlineMs
  · intro f _
    exact Nat.le_max_left _ _

/-- A frame pushed a tenth of a second before the clock wraps, two bytes of it accepted, then nothing. -/
def wrapRun : List TimedCall :=
  [⟨4294967196, .push (List.replicate 7 0xD3)⟩, ⟨4294967246, .poll 2 2000 sendTwo⟩]

theorem watchdogs_exact_wrapRun :
    let tx := (timed.run coreInit wrapRun).tx ()
    ntripTxStalled tx (UInt32.ofNat 4294972300) 5000 = true ∧
      ¬ ntripTxFrameOverdue tx (UInt32.ofNat 4294972300) 10000 = true := by
  have hflight : (watchLog (timed.outputs coreInit wrapRun)).flight =
      some ⟨5, 4294967196, 4294967246, some 4294967246⟩ := by decide +kernel
  have hok : ∀ e ∈ wrapRun, e.call.Ok := by
    intro e he
    rcases List.mem_cons.mp he with rfl | he
    · trivial
    · rw [List.mem_singleton.mp he]
      exact sendTwo_ok
  obtain ⟨hstalled, hoverdue, _⟩ := watchdogs_exact wrapRun hok (by decide) 4294972300 (by decide)
  rw [hflight] at hstalled hoverdue
  refine ⟨(hstalled 5000 ?_).mpr ?_, fun h => ?_⟩
  · intro f hf
    cases hf
    decide
  · exact ⟨_, rfl, by decide, by decide⟩
  · obtain ⟨f, hf, _, hlate⟩ := (hoverdue 10000 (by
      intro f hf
      cases hf
      decide)).mp h
    cases hf
    revert hlate
    decide

end RtkdataFw.TxCore
