import RtkdataFw.Lib.Clock
import RtkdataFw.Lib.Machine
import RtkdataFw.TxCore.Sender

/-!
# The drain loop of `ntrip_server_task` against UART ingest

One server task and the UART task share the frame ring and a millisecond clock that never goes back.
The task steps through its loop one round of `ntrip_tx_poll` at a time, since only the copy inside a
round holds the ring's lock; ingest reads the clock once a call and pushes at any later moment.  `stamps`
remembers the unwrapped reading that the frame in each slot carries.

* `txCopyLoop_stale_iff` — which frames a copy drops as stale: those up to the first fresh one;
* `drain_rounds_poll` — the rounds of the loop are calls of `ntrip_tx_poll`;
* `fresh_frame_dropped` — a run that drops a frame the moment it arrives;
* `stale_drops_are_old` — when every copy is paced, what is dropped is old.
-/

namespace RtkdataFw.NtripServer

open RtkdataFw.Lib RtkdataFw.TxCore

def ntripTxMaxSendsPerPoll : ℕ := 2

def ntripTxStaleDropMs : UInt32 := 2000

def ntripTxProgressTimeoutMs : UInt32 := 5000

def ntripTxFrameDeadlineMs : UInt32 := 10000

def ntripProbeIntervalMs : UInt32 := 2000

def ntripDrainMaxSpins : ℕ := 64

/-- Where the server task stands.  `now` is the unwrapped reading behind the value the code keeps. -/
inductive DrainPhase where
  | disconnected
  | waiting
  | polling (now spins round : ℕ) (result : PollResult)
  | checking (now : ℕ) (result : PollResult)
  deriving DecidableEq, Repr

structure Drain where
  clock : ℕ
  ring : NtripRing
  stamps : Vector ℕ rtcmRingSlots
  /-- The reading that the ingest call in progress stamps its frames with. -/
  ingest : Option ℕ
  tx : NtripTx
  lastProbeMs : UInt32
  phase : DrainPhase

def drainInit : Drain where
  clock := 0
  ring := ntripRingInit
  stamps := Vector.replicate rtcmRingSlots 0
  ingest := none
  tx := ntripTxInit
  lastProbeMs := 0
  phase := .disconnected

inductive DrainEvent where
  | elapse (ms : ℕ)
  | ingestBegin
  | push (frame : List UInt8)
  | ingestEnd
  /-- The handshake is through: `ntrip_tx_reset_conn`, then the loop. -/
  | connect
  /-- `ulTaskNotifyTake` returns and the task reads `now`. -/
  | wake
  | round (send : SendFn)
  /-- The checks after the polls; `alive` is what the socket probe says. -/
  | check (alive : Bool)
  /-- The loop condition fails: `reconnect_gen` has moved. -/
  | leave

/-- `ntrip_now_ms`. -/
def Drain.nowMs (s : Drain) : UInt32 := UInt32.ofNat s.clock

/-- The unwrapped stamp of the frame in the slot of `seq`. -/
def Drain.stampOf (s : Drain) (seq : UInt32) : ℕ := s.stamps.get (slotIndex seq)

/-- After the loop: abort, and count the reconnect. -/
def Drain.close (s : Drain) : Drain :=
  let tx := (ntripTxAbort s.tx).1
  { s with tx := { tx with reconnects := tx.reconnects + 1 }, phase := .disconnected }

def Drain.push (s : Drain) (stamp : ℕ) (frame : List UInt8) : Drain :=
  { s with
    ring := ntripRingPush s.ring frame (UInt32.ofNat stamp)
    stamps :=
      if frame.length < 6 ∨ frame.length > rtcmMaxFrameB then s.stamps
      else s.stamps.set (s.ring.nextSeq.toNat % rtcmRingSlots) stamp (slotIndex_lt _) }

/-- One round of the poll that the loop is in. -/
def Drain.pollRound (s : Drain) (now : ℕ) (send : SendFn) (result : PollResult) : Round :=
  TxCore.pollRound s.tx s.ring (UInt32.ofNat now) ntripTxStaleDropMs send result

/-- Where the task goes after a round: the next round, the next poll, or the checks. -/
def nextPhase (now spins round : ℕ) (r : Round) : DrainPhase :=
  if r.again ∧ round + 1 < ntripTxMaxSendsPerPoll then .polling now spins (round + 1) r.result
  else if r.result = .progress ∧ spins + 1 < ntripDrainMaxSpins then .polling now (spins + 1) 0 .idle
  else .checking now r.result

/-- The checks that end the connection, and the half-open probe. -/
def Drain.check (s : Drain) (now : ℕ) (result : PollResult) (alive : Bool) : Drain :=
  if result = .error ∨ ntripTxStalled s.tx (UInt32.ofNat now) ntripTxProgressTimeoutMs = true ∨
      ntripTxFrameOverdue s.tx (UInt32.ofNat now) ntripTxFrameDeadlineMs = true then s.close
  else if s.nowMs - s.lastProbeMs ≥ ntripProbeIntervalMs then
    if alive then { s with lastProbeMs := s.nowMs, phase := .waiting }
    else Drain.close { s with lastProbeMs := s.nowMs }
  else { s with phase := .waiting }

/-- A frame dropped as stale: its stamp, the `now` it was judged with, the clock when it was dropped. -/
structure Drop where
  stamp : ℕ
  now : ℕ
  clock : ℕ
  deriving DecidableEq, Repr

def Drain.drops (s : Drain) (now : ℕ) (evs : List TxEvent) : List Drop :=
  evs.filterMap fun
    | .stale seq _ => some ⟨s.stampOf seq, now, s.clock⟩
    | _ => none

def drain : Machine Drain DrainEvent Drop where
  step s
    | .elapse ms => { s with clock := s.clock + ms }
    | .ingestBegin => { s with ingest := some s.clock }
    | .push frame =>
        match s.ingest with
        | some stamp => s.push stamp frame
        | none => s
    | .ingestEnd => { s with ingest := none }
    | .connect =>
        match s.phase with
        | .disconnected =>
            { s with
              tx := (ntripTxResetConn s.tx s.ring s.nowMs).1
              lastProbeMs := s.nowMs
              phase := .waiting }
        | _ => s
    | .wake =>
        match s.phase with
        | .waiting => { s with phase := .polling s.clock 0 0 .idle }
        | _ => s
    | .round send =>
        match s.phase with
        | .polling now spins round result =>
            let r := s.pollRound now send result
            { s with tx := r.tx, phase := nextPhase now spins round r }
        | _ => s
    | .check alive =>
        match s.phase with
        | .checking now result => s.check now result alive
        | _ => s
    | .leave =>
        match s.phase with
        | .waiting => s.close
        | _ => s
  out s
    | .round send =>
        match s.phase with
        | .polling now _ _ result => s.drops now (s.pollRound now send result).evs
        | _ => []
    | _ => []

/-! ### What a copy drops -/

theorem lt_succ_cases {a b seq : UInt32} (hlt : a < b) (hle : a ≤ seq) :
    seq = a ∨ a + 1 ≤ seq := by
  have hsucc := cursor_succ hlt
  rw [UInt32.le_iff_toNat_le] at hle ⊢
  rw [← UInt32.toNat_inj]
  omega

/-- **The loop over stale frames.**  It drops the waiting frames up to the first one that is not stale. -/
theorem txCopyLoop_stale_iff (tx : NtripTx) (ring : NtripRing) (nowMs staleMs seq receivedMs : UInt32) :
    TxEvent.stale seq receivedMs ∈ (txCopyLoop tx ring nowMs staleMs).2.2 ↔
      receivedMs = (ring.slotOf seq).receivedMs ∧ tx.cursorSeq ≤ seq ∧ seq < ring.nextSeq ∧
        ∀ seq', tx.cursorSeq ≤ seq' → seq' ≤ seq → isStale (ring.slotOf seq') nowMs staleMs := by
  fun_induction txCopyLoop tx ring nowMs staleMs with
  | case1 tx hlt s hstale r =>
      rename_i ih
      have hcur : (txDropStale tx s).cursorSeq = tx.cursorSeq + 1 := rfl
      have hsucc := cursor_succ hlt
      rw [hcur] at ih
      rw [List.mem_cons]
      constructor
      · intro h
        rcases h with hhead | hrest
        · cases hhead
          refine ⟨rfl, UInt32.le_refl _, hlt, ?_⟩
          intro seq' hge hle
          rwa [UInt32.le_antisymm hle hge]
        · obtain ⟨hrec, hge, hnext, hall⟩ := ih.mp hrest
          have hge' : tx.cursorSeq ≤ seq := by
            rw [UInt32.le_iff_toNat_le] at hge ⊢
            omega
          refine ⟨hrec, hge', hnext, ?_⟩
          intro seq' hge'' hle
          rcases lt_succ_cases hlt hge'' with rfl | hlater
          · exact hstale
          · exact hall seq' hlater hle
      · intro h
        obtain ⟨hrec, hge, hnext, hall⟩ := h
        rcases lt_succ_cases hlt hge with rfl | hlater
        · left
          rw [hrec]
        · right
          refine ih.mpr ⟨hrec, hlater, hnext, fun seq' hge' hle => hall seq' ?_ hle⟩
          rw [UInt32.le_iff_toNat_le] at hge' ⊢
          omega
  | case2 tx hlt s =>
      rename_i hfresh
      constructor
      · intro hmem
        simp at hmem
      · intro h
        obtain ⟨_, hge, _, hall⟩ := h
        exact absurd (hall tx.cursorSeq (UInt32.le_refl _) hge) hfresh
  | case3 tx hge =>
      constructor
      · intro hmem
        exact absurd hmem List.not_mem_nil
      · intro h
        obtain ⟨_, hle, hnext, _⟩ := h
        rw [UInt32.lt_iff_toNat_lt] at hge hnext
        rw [UInt32.le_iff_toNat_le] at hle
        omega

theorem stale_not_mem_abort (tx : NtripTx) (seq receivedMs : UInt32) :
    TxEvent.stale seq receivedMs ∉ (ntripTxAbort tx).2 := by
  rcases ntripTxAbort_cases tx with ⟨_, h⟩ | ⟨_, h⟩ <;> simp [h]

theorem stale_not_mem_pollSend (tx : NtripTx) (nowMs : UInt32) (send : SendFn)
    (seq receivedMs : UInt32) : TxEvent.stale seq receivedMs ∉ (pollSend tx nowMs send).evs := by
  rcases pollSend_cases tx nowMs send with ⟨_, hround⟩ | hround | ⟨err, hround⟩
  · rw [hround]
    rcases txAccept_cases tx (send tx.unsent).n.toNat nowMs with ⟨_, h⟩ | ⟨_, h⟩ <;> simp [h]
  · rw [hround]
    exact List.not_mem_nil
  · rw [hround]
    exact stale_not_mem_abort _ seq receivedMs

/-- The first waiting frame of a sender: its cursor, or the oldest resident frame. -/
def firstWaiting (tx : NtripTx) (ring : NtripRing) : UInt32 := (txJump tx ring).1.cursorSeq

theorem pollRound_stale_iff (tx : NtripTx) (ring : NtripRing) (nowMs staleMs : UInt32)
    (send : SendFn) (result : PollResult) (seq receivedMs : UInt32) :
    TxEvent.stale seq receivedMs ∈ (TxCore.pollRound tx ring nowMs staleMs send result).evs ↔
      tx.currentOff ≥ tx.currentLen ∧ receivedMs = (ring.slotOf seq).receivedMs ∧
        firstWaiting tx ring ≤ seq ∧ seq < ring.nextSeq ∧
        ∀ seq', firstWaiting tx ring ≤ seq' → seq' ≤ seq →
          isStale (ring.slotOf seq') nowMs staleMs := by
  have hjump : TxEvent.stale seq receivedMs ∉ (txJump tx ring).2 := by
    rcases txJump_cases tx ring with ⟨_, h⟩ | ⟨_, h⟩ <;> simp [h]
  have hcopy : TxEvent.stale seq receivedMs ∈ (txCopyNext tx ring nowMs staleMs).2.2 ↔
      TxEvent.stale seq receivedMs ∈ (txCopyLoop (txJump tx ring).1 ring nowMs staleMs).2.2 := by
    rw [txCopyNext, List.mem_append]
    exact or_iff_right hjump
  have hsend := fun t => stale_not_mem_pollSend t nowMs send seq receivedMs
  rw [firstWaiting, ← txCopyLoop_stale_iff, ← hcopy]
  rcases pollRound_cases tx ring nowMs staleMs send result with
    ⟨hidle, _, hround⟩ | ⟨hidle, hround⟩ | ⟨hopen, hround⟩
  · rw [hround, and_iff_right hidle, List.mem_append]
    exact or_iff_left (hsend _)
  · rw [hround, and_iff_right hidle]
  · rw [hround]
    exact iff_of_false (hsend tx) fun h => Nat.not_le.mpr hopen h.1

/-! ### Counting what is dropped -/

def staleCount (evs : List TxEvent) : ℕ :=
  (evs.filter fun
    | .stale _ _ => true
    | _ => false).length

theorem staleCount_append (evs fs : List TxEvent) :
    staleCount (evs ++ fs) = staleCount evs + staleCount fs := by
  simp [staleCount]

/-- A sender that has counted `evs`. -/
def Counted (tx tx' : NtripTx) (evs : List TxEvent) : Prop :=
  tx'.droppedFramesStale = tx.droppedFramesStale + UInt32.ofNat (staleCount evs)

theorem Counted.refl (tx : NtripTx) : Counted tx tx [] := by
  simp [Counted, staleCount]

theorem Counted.trans {tx tx' tx'' : NtripTx} {evs fs : List TxEvent} (h : Counted tx tx' evs)
    (h' : Counted tx' tx'' fs) : Counted tx tx'' (evs ++ fs) := by
  rw [Counted, staleCount_append, UInt32.ofNat_add, ← UInt32.add_assoc, ← h, ← h']

theorem counted_copyLoop (tx : NtripTx) (ring : NtripRing) (nowMs staleMs : UInt32) :
    Counted tx (txCopyLoop tx ring nowMs staleMs).2.1 (txCopyLoop tx ring nowMs staleMs).2.2 := by
  fun_induction txCopyLoop tx ring nowMs staleMs with
  | case1 tx hlt s hstale r =>
      rename_i ih
      have hone : Counted tx (txDropStale tx s) [.stale tx.cursorSeq s.receivedMs] := rfl
      exact hone.trans ih
  | case2 tx hlt s => exact (Counted.refl tx : tx.droppedFramesStale = _)
  | case3 tx hge => exact Counted.refl tx

theorem counted_abort (tx : NtripTx) : Counted tx (ntripTxAbort tx).1 (ntripTxAbort tx).2 := by
  rcases ntripTxAbort_cases tx with ⟨_, h⟩ | ⟨_, h⟩
  · rw [h]
    exact (Counted.refl tx : tx.droppedFramesStale = _)
  · rw [h]
    exact (Counted.refl tx : tx.droppedFramesStale = _)

theorem counted_pollSend (tx : NtripTx) (nowMs : UInt32) (send : SendFn) :
    Counted tx (pollSend tx nowMs send).tx (pollSend tx nowMs send).evs := by
  rcases pollSend_cases tx nowMs send with ⟨_, hround⟩ | hround | ⟨err, hround⟩
  · rw [hround]
    rcases txAccept_cases tx (send tx.unsent).n.toNat nowMs with ⟨_, h⟩ | ⟨_, h⟩
    · rw [h]
      exact (Counted.refl tx : tx.droppedFramesStale = _)
    · rw [h]
      exact (Counted.refl tx : tx.droppedFramesStale = _)
  · rw [hround]
    exact (Counted.refl tx : tx.droppedFramesStale = _)
  · rw [hround]
    exact counted_abort { tx with lastSockErrno := err }

theorem counted_pollRound (tx : NtripTx) (ring : NtripRing) (nowMs staleMs : UInt32) (send : SendFn)
    (result : PollResult) :
    Counted tx (TxCore.pollRound tx ring nowMs staleMs send result).tx
      (TxCore.pollRound tx ring nowMs staleMs send result).evs := by
  have hjump : Counted tx (txJump tx ring).1 (txJump tx ring).2 := by
    rcases txJump_cases tx ring with ⟨_, h⟩ | ⟨_, h⟩
    · rw [h]
      exact (Counted.refl tx : tx.droppedFramesStale = _)
    · rw [h]
      exact Counted.refl tx
  have hcopy : Counted tx (txCopyNext tx ring nowMs staleMs).2.1
      (txCopyNext tx ring nowMs staleMs).2.2 := hjump.trans (counted_copyLoop _ _ _ _)
  rcases pollRound_cases tx ring nowMs staleMs send result with
    ⟨_, _, hround⟩ | ⟨_, hround⟩ | ⟨_, hround⟩
  · rw [hround]
    exact hcopy.trans (counted_pollSend _ _ _)
  · rw [hround]
    exact hcopy
  · rw [hround]
    exact counted_pollSend tx nowMs send

/-! ### The loop and `ntrip_tx_poll` -/

/-- **Two rounds without interleaving are one poll.**  So the loop polls with `NTRIP_TX_STALE_DROP_MS` and
at most `NTRIP_TX_MAX_SENDS_PER_POLL` sends. -/
theorem drain_rounds_poll (s : Drain) (now : ℕ) (send : ℕ → SendFn) :
    ntripTxPoll s.tx s.ring (UInt32.ofNat now) ntripTxMaxSendsPerPoll ntripTxStaleDropMs send =
      let r := s.pollRound now (send 0) .idle
      if r.again then
        let q := Drain.pollRound { s with tx := r.tx } now (send 1) r.result
        (q.result, q.tx, r.evs ++ q.evs)
      else (r.result, r.tx, r.evs) := by
  have hrounds : ((ntripTxMaxSendsPerPoll : ℕ) : ℤ).toNat = 2 := rfl
  rw [ntripTxPoll, hrounds, pollLoop]
  dsimp only [Drain.pollRound]
  split
  · rw [pollLoop]
    dsimp only [pollLoop]
    split <;> simp
  · rfl

/-! ### Old frames only -/

/-- The copy that a round makes with `now` is paced: a waiting frame stamped after `now` is not stale, or
a waiting frame before it is not.  Steps that copy nothing are free. -/
def Paced (s : Drain) : DrainEvent → Prop
  | .round _ =>
      match s.phase with
      | .polling now _ _ _ =>
          s.tx.currentOff ≥ s.tx.currentLen →
            ∀ seq, firstWaiting s.tx s.ring ≤ seq → seq < s.ring.nextSeq → now < s.stampOf seq →
              ∃ seq', firstWaiting s.tx s.ring ≤ seq' ∧ seq' ≤ seq ∧
                ¬ isStale (s.ring.slotOf seq') (UInt32.ofNat now) ntripTxStaleDropMs
      | _ => True
  | _ => True

/-- The stamps are what the slots carry, and the `now` in use was read before. -/
structure DrainOk (s : Drain) : Prop where
  stamped : ∀ seq, (s.ring.slotOf seq).receivedMs = UInt32.ofNat (s.stampOf seq)
  read : ∀ now spins round result, s.phase = .polling now spins round result → now ≤ s.clock

/-- A drop of a frame that was received before `now` was read and has waited too long. -/
def Drop.Old (d : Drop) : Prop := d.stamp ≤ d.now ∧ d.stamp + ntripTxStaleDropMs.toNat < d.clock

theorem mem_drops {s : Drain} {now : ℕ} {evs : List TxEvent} {d : Drop} :
    d ∈ s.drops now evs ↔
      ∃ seq receivedMs, TxEvent.stale seq receivedMs ∈ evs ∧ d = ⟨s.stampOf seq, now, s.clock⟩ := by
  rw [Drain.drops, List.mem_filterMap]
  constructor
  · intro h
    obtain ⟨e, he, hd⟩ := h
    cases e with
    | stale seq receivedMs => exact ⟨seq, receivedMs, he, (Option.some.inj hd).symm⟩
    | skipped start stop => cases hd
    | copied seq frame => cases hd
    | accepted bytes => cases hd
    | sent => cases hd
    | cut => cases hd
  · intro h
    obtain ⟨seq, receivedMs, he, rfl⟩ := h
    exact ⟨_, he, rfl⟩

/-- **One round.**  It drops only old frames exactly when it is paced. -/
theorem paced_iff {s : Drain} (hs : DrainOk s) {now spins round : ℕ} {result : PollResult}
    (hphase : s.phase = .polling now spins round result) (send : SendFn) :
    Paced s (.round send) ↔ ∀ d ∈ drain.out s (.round send), d.Old := by
  have hout : drain.out s (.round send) = s.drops now (s.pollRound now send result).evs := by
    simp only [drain, hphase]
  have hread := hs.read now spins round result hphase
  rw [hout]
  simp only [Paced, hphase]
  constructor
  · intro hpaced d hd
    obtain ⟨seq, receivedMs, hmem, rfl⟩ := mem_drops.mp hd
    obtain ⟨hidle, _, hfirst, hnext, hall⟩ := (pollRound_stale_iff _ _ _ _ _ _ _ _).mp hmem
    have hle : s.stampOf seq ≤ now := by
      by_contra hnew
      obtain ⟨seq', hge, hle, hfresh⟩ := hpaced hidle seq hfirst hnext (by omega)
      exact hfresh (hall seq' hge hle)
    refine ⟨hle, ?_⟩
    have hstale := (hall seq hfirst (UInt32.le_refl _)).2
    rw [hs.stamped, gt_iff_lt, UInt32.lt_iff_toNat_lt] at hstale
    have hage : (UInt32.ofNat now - UInt32.ofNat (s.stampOf seq)).toNat ≤ now - s.stampOf seq :=
      age32_le hle
    show s.stampOf seq + ntripTxStaleDropMs.toNat < s.clock
    omega
  · intro hold hidle seq hfirst hnext hnew
    by_contra hnone
    have hall : ∀ seq', firstWaiting s.tx s.ring ≤ seq' → seq' ≤ seq →
        isStale (s.ring.slotOf seq') (UInt32.ofNat now) ntripTxStaleDropMs := by
      intro seq' hge hle
      by_contra hfresh
      exact hnone ⟨seq', hge, hle, hfresh⟩
    have hmem := (pollRound_stale_iff s.tx s.ring (UInt32.ofNat now) ntripTxStaleDropMs send result
      seq _).mpr ⟨hidle, rfl, hfirst, hnext, hall⟩
    have hd := hold _ (mem_drops.mpr ⟨seq, _, hmem, rfl⟩)
    exact absurd hd.1 (Nat.not_le.mpr hnew)

theorem drainOk_init : DrainOk drainInit where
  stamped := by
    intro seq
    simp only [drainInit, ntripRingInit, NtripRing.slotOf, Drain.stampOf, get_replicate]
    rfl
  read := fun _ _ _ _ hphase => by cases hphase

/-- A push writes the slot and its stamp together. -/
theorem push_stamped {s : Drain} (hs : ∀ seq, (s.ring.slotOf seq).receivedMs =
    UInt32.ofNat (s.stampOf seq)) (stamp : ℕ) (frame : List UInt8) (seq : UInt32) :
    ((s.push stamp frame).ring.slotOf seq).receivedMs =
      UInt32.ofNat ((s.push stamp frame).stampOf seq) := by
  have hold := hs seq
  by_cases hlen : frame.length < 6 ∨ frame.length > rtcmMaxFrameB
  · simp only [Drain.stampOf, Drain.push, ntripRingPush_reject hlen, if_pos hlen] at hold ⊢
    exact hold
  · have hstamp : (s.push stamp frame).stampOf seq =
        if s.ring.nextSeq.toNat % rtcmRingSlots = seq.toNat % rtcmRingSlots then stamp
        else s.stampOf seq := by
      simp only [Drain.stampOf, Drain.push, if_neg hlen]
      exact get_set s.stamps _ (slotIndex_lt _) _ _ (slotIndex_lt _)
    rw [hstamp, Drain.push, slotOf_push _ _ hlen]
    split
    · rfl
    · exact hold

/-- **What the checks do.**  The connection is closed or the task waits, and a probe may have been made. -/
theorem check_cases (s : Drain) (now : ℕ) (result : PollResult) (alive : Bool) :
    ∃ probeMs, s.check now result alive = Drain.close { s with lastProbeMs := probeMs } ∨
      s.check now result alive = { s with lastProbeMs := probeMs, phase := .waiting } := by
  unfold Drain.check
  split
  · exact ⟨s.lastProbeMs, .inl rfl⟩
  · split
    · split
      · exact ⟨s.nowMs, .inr rfl⟩
      · exact ⟨s.nowMs, .inl rfl⟩
    · exact ⟨s.lastProbeMs, .inr rfl⟩

theorem nextPhase_now {now spins round now' spins' round' : ℕ} {r : Round} {result : PollResult}
    (h : nextPhase now spins round r = .polling now' spins' round' result) : now' = now := by
  unfold nextPhase at h
  split at h
  · cases h
    rfl
  · split at h
    · cases h
      rfl
    · cases h

/-- A state with the same ring and stamps that is in no poll. -/
theorem DrainOk.idle {s s' : Drain} (hs : DrainOk s) (hring : s'.ring = s.ring)
    (hstamps : s'.stamps = s.stamps) (hphase : s'.phase = .disconnected ∨ s'.phase = .waiting ∨
      ∃ now result, s'.phase = .checking now result) : DrainOk s' where
  stamped := by
    intro seq
    have hstamp : s'.stampOf seq = s.stampOf seq := by rw [Drain.stampOf, hstamps]; rfl
    rw [hring, hstamp]
    exact hs.stamped seq
  read := by
    intro now spins round result heq
    rcases hphase with h | h | ⟨_, _, h⟩ <;> rw [h] at heq <;> cases heq

theorem close_ok {s : Drain} (hs : DrainOk s) : DrainOk s.close :=
  hs.idle rfl rfl (.inl rfl)

/-- **Every step keeps the stamps and the reading.** -/
theorem drain_step_ok {s : Drain} (hs : DrainOk s) (e : DrainEvent) : DrainOk (drain.step s e) := by
  cases e with
  | elapse ms =>
      refine ⟨hs.stamped, ?_⟩
      intro now spins round result hphase
      exact (hs.read now spins round result hphase).trans (Nat.le_add_right _ _)
  | ingestBegin => exact ⟨hs.stamped, hs.read⟩
  | ingestEnd => exact ⟨hs.stamped, hs.read⟩
  | push frame =>
      show DrainOk (match s.ingest with | some stamp => s.push stamp frame | none => s)
      cases s.ingest with
      | none => exact hs
      | some stamp => exact ⟨push_stamped hs.stamped stamp frame, hs.read⟩
  | connect =>
      cases hphase : s.phase with
      | disconnected =>
          have hstep : (drain.step s .connect).phase = .waiting := by simp only [drain, hphase]
          refine hs.idle ?_ ?_ (.inr (.inl hstep)) <;> simp only [drain, hphase]
      | _ => simpa only [drain, hphase] using hs
  | wake =>
      cases hphase : s.phase with
      | waiting =>
          have hstep : drain.step s .wake = { s with phase := .polling s.clock 0 0 .idle } := by
            simp only [drain, hphase]
          rw [hstep]
          refine ⟨hs.stamped, ?_⟩
          intro now spins round result heq
          cases heq
          exact Nat.le_refl _
      | _ => simpa only [drain, hphase] using hs
  | round send =>
      cases hphase : s.phase with
      | polling now spins round result =>
          have hstep : drain.step s (.round send) =
              { s with
                tx := (s.pollRound now send result).tx
                phase := nextPhase now spins round (s.pollRound now send result) } := by
            simp only [drain, hphase]
          rw [hstep]
          refine ⟨hs.stamped, ?_⟩
          intro now' spins' round' result' heq
          rw [nextPhase_now heq]
          exact hs.read now spins round result hphase
      | _ => simpa only [drain, hphase] using hs
  | check alive =>
      cases hphase : s.phase with
      | checking now result =>
          have hstep : drain.step s (.check alive) = s.check now result alive := by
            simp only [drain, hphase]
          obtain ⟨probeMs, hcheck | hcheck⟩ := check_cases s now result alive
          · rw [hstep, hcheck]
            exact hs.idle rfl rfl (.inl rfl)
          · rw [hstep, hcheck]
            exact hs.idle rfl rfl (.inr (.inl rfl))
      | _ => simpa only [drain, hphase] using hs
  | leave =>
      cases hphase : s.phase with
      | waiting =>
          have hstep : drain.step s .leave = s.close := by simp only [drain, hphase]
          rw [hstep]
          exact close_ok hs
      | _ => simpa only [drain, hphase] using hs

/-! ### Every drop is counted -/

theorem length_drops (s : Drain) (now : ℕ) (evs : List TxEvent) :
    (s.drops now evs).length = staleCount evs := by
  induction evs with
  | nil => rfl
  | cons e evs ih =>
      have hcons : staleCount (e :: evs) = staleCount [e] + staleCount evs :=
        staleCount_append [e] evs
      rw [hcons, ← ih]
      cases e <;> simp [Drain.drops, staleCount, Nat.add_comm]

theorem dropped_abort (tx : NtripTx) :
    (ntripTxAbort tx).1.droppedFramesStale = tx.droppedFramesStale := by
  rcases ntripTxAbort_cases tx with ⟨_, h⟩ | ⟨_, h⟩ <;> rw [h]

theorem dropped_resetConn (tx : NtripTx) (ring : NtripRing) (nowMs : UInt32) :
    (ntripTxResetConn tx ring nowMs).1.droppedFramesStale = tx.droppedFramesStale := by
  rw [ntripTxResetConn, ← dropped_abort tx]
  rcases txSkipWaiting_cases (ntripTxAbort tx).1 ring with ⟨_, h⟩ | ⟨_, h⟩
  · rw [h]
    rfl
  · rw [h]

theorem dropped_close (s : Drain) : s.close.tx.droppedFramesStale = s.tx.droppedFramesStale :=
  dropped_abort s.tx

theorem dropped_check (s : Drain) (now : ℕ) (result : PollResult) (alive : Bool) :
    (s.check now result alive).tx.droppedFramesStale = s.tx.droppedFramesStale := by
  obtain ⟨probeMs, hcheck | hcheck⟩ := check_cases s now result alive
  · rw [hcheck]
    exact dropped_close { s with lastProbeMs := probeMs }
  · rw [hcheck]

theorem drain_step_dropped (s : Drain) (e : DrainEvent) :
    (drain.step s e).tx.droppedFramesStale =
      s.tx.droppedFramesStale + UInt32.ofNat (drain.out s e).length := by
  have hzero : s.tx.droppedFramesStale =
      s.tx.droppedFramesStale + UInt32.ofNat ([] : List Drop).length := by simp
  cases e with
  | elapse ms => exact hzero
  | ingestBegin => exact hzero
  | ingestEnd => exact hzero
  | push frame =>
      refine Eq.trans ?_ hzero
      show (match s.ingest with | some stamp => s.push stamp frame | none => s).tx.droppedFramesStale = _
      cases s.ingest <;> rfl
  | connect =>
      refine Eq.trans ?_ hzero
      cases hphase : s.phase <;> simp only [drain, hphase]
      exact dropped_resetConn s.tx s.ring s.nowMs
  | wake =>
      refine Eq.trans ?_ hzero
      cases hphase : s.phase <;> simp only [drain, hphase]
  | round send =>
      cases hphase : s.phase with
      | polling now spins round result =>
          have hcount := counted_pollRound s.tx s.ring (UInt32.ofNat now) ntripTxStaleDropMs send
            result
          simp only [drain, hphase, length_drops]
          exact hcount
      | _ =>
          simp only [drain, hphase]
          exact hzero
  | check alive =>
      refine Eq.trans ?_ hzero
      cases hphase : s.phase <;> simp only [drain, hphase]
      exact dropped_check s _ _ alive
  | leave =>
      refine Eq.trans ?_ hzero
      cases hphase : s.phase <;> simp only [drain, hphase]
      exact dropped_close s

/-! ### Runs -/

/-- `now` is read, then a frame comes in, then the loop polls with the `now` it has. -/
def raceRun : List DrainEvent :=
  [.connect, .wake, .elapse 1, .ingestBegin, .push (List.replicate 6 0xD3), .ingestEnd,
   .round fun buf => ⟨buf.length, 0⟩]

instance (d : Drop) : Decidable d.Old := inferInstanceAs (Decidable (_ ∧ _))

/-- **A fresh frame is dropped.**  It was received a millisecond after `now` was read, and is counted as
stale in the same millisecond. -/
theorem fresh_frame_dropped :
    drain.outputs drainInit raceRun = [⟨1, 0, 1⟩] ∧
      (drain.run drainInit raceRun).tx.droppedFramesStale = 1 ∧
      ¬ ∀ d ∈ drain.outputs drainInit raceRun, d.Old := by
  decide +kernel

/-- **Old frames only.**  In a run whose copies are all paced, every frame counted in
`dropped_frames_stale` was received before the `now` it was judged with and has waited for more than
`NTRIP_TX_STALE_DROP_MS` when it is dropped. -/
theorem stale_drops_are_old (es : List DrainEvent) (hes : drain.Admits Paced drainInit es) :
    (∀ d ∈ drain.outputs drainInit es, d.stamp ≤ d.now ∧
        d.stamp + ntripTxStaleDropMs.toNat < d.clock) ∧
      (drain.run drainInit es).tx.droppedFramesStale =
        UInt32.ofNat (drain.outputs drainInit es).length := by
  constructor
  · refine drain.forall_outputs (I := DrainOk) (fun s e hs _ => drain_step_ok hs e) ?_
      drainOk_init hes
    intro s e hs he
    cases e with
    | round send =>
        cases hphase : s.phase with
        | polling now spins round result => exact (paced_iff hs hphase send).mp he
        | _ => simp [drain, hphase]
    | _ => exact List.forall_mem_nil _
  · refine drain.history_nil (P := fun s os => s.tx.droppedFramesStale = UInt32.ofNat os.length)
      ?_ rfl hes
    intro s os e hs _
    rw [drain_step_dropped, hs, List.length_append, UInt32.ofNat_add]

/-- A frame waits for more than two seconds before the loop gets to it. -/
def agedRun : List DrainEvent :=
  [.connect, .ingestBegin, .push (List.replicate 6 0xD3), .ingestEnd, .elapse 2001, .wake,
   .round fun buf => ⟨buf.length, 0⟩]

theorem stale_drops_are_old_agedRun :
    drain.outputs drainInit agedRun = [⟨0, 2001, 2001⟩] ∧
      (drain.run drainInit agedRun).tx.droppedFramesStale = 1 ∧
      ∀ d ∈ drain.outputs drainInit agedRun, d.stamp + ntripTxStaleDropMs.toNat < d.clock := by
  have hout : drain.outputs drainInit agedRun = [⟨0, 2001, 2001⟩] := by decide +kernel
  have hpaced : drain.Admits Paced drainInit agedRun := by
    refine ⟨trivial, trivial, trivial, trivial, trivial, trivial, ?_, trivial⟩
    intro _ seq _ hlt hnew
    have hzero : seq = 0 := by
      rw [UInt32.lt_iff_toNat_lt] at hlt
      rw [← UInt32.toNat_inj]
      exact Nat.lt_one_iff.mp hlt
    subst hzero
    exact absurd hnew (by decide +kernel)
  obtain ⟨hold, hcount⟩ := stale_drops_are_old agedRun hpaced
  refine ⟨hout, ?_, fun d hd => (hold d hd).2⟩
  rw [hcount, hout]
  rfl

end RtkdataFw.NtripServer
