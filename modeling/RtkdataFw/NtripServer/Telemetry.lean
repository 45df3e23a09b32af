import RtkdataFw.NtripServer.Freshness
import RtkdataFw.TxCore.FrameIntegrity

/-!
# The ingest counters and their readers

`ntrip_server_ingest_uart` feeds the parser, `ntrip_server_ingest_stats` and `ntrip_server_tx_totals` read
its counters.  The counters live in the parser, and `ntrip_server_msg_epoch_reset` asks for a new parser.

* `feed_counts_le`, `feed_frames` — feeding only adds to the counters, and `frames_ok` by the frames emitted;
* `KeepsCounts` — no request for a new parser is honoured after the first byte was counted;
* `cumulative_of_keepsCounts` — then the reports never run backwards and `frames_ok` is `pushed_frames`;
* `lossy_ingest`, `lossy_frames` — a request honoured later takes back what was reported.
-/

namespace RtkdataFw.NtripServer

open RtkdataFw.Lib RtkdataFw.TxCore RtkdataFw.Lib.Resync

/-- The counters of the parser. -/
structure ParserCounts where
  framesOk : ℕ
  bytesOk : ℕ
  bytesDiscarded : ℕ
  crcErrors : ℕ
  deriving DecidableEq, Repr

/-- None of the counters is lower. -/
structure ParserCounts.Le (a b : ParserCounts) : Prop where
  framesOk : a.framesOk ≤ b.framesOk
  bytesOk : a.bytesOk ≤ b.bytesOk
  bytesDiscarded : a.bytesDiscarded ≤ b.bytesDiscarded
  crcErrors : a.crcErrors ≤ b.crcErrors

/-- `ntrip_ingest_stats_t`. -/
structure IngestStats extends ParserCounts where
  ringPushedFrames : ℕ
  ringCumBytes : ℕ
  deriving DecidableEq, Repr

/-- `ntrip_tx_totals_t`. -/
structure TxTotals extends ParserCounts where
  acceptedToLwip : ℕ
  sentFrames : ℕ
  droppedBytes : ℕ
  skippedBytes : ℕ
  droppedStaleBytes : ℕ
  eagainCount : ℕ
  reconnects : UInt32
  maxQueueAgeMs : UInt32
  instances : UInt32
  connected : UInt32
  reqFresh : Bool
  reqMissing : ℕ
  deriving DecidableEq, Repr

structure TelemetryState (ι : Type*) where
  /-- `g_ring_mutex` is published. -/
  ready : Bool
  /-- `s_ingest_reset_req`. -/
  ingestResetReq : Bool
  msgs : MsgStatics
  node : NodeState ι

inductive TelemetryEvent (ι : Type*) where
  /-- `ntrip_server_ingest_init`, with whether the mutex can be had. -/
  | ingestInit (created : Bool)
  | ingest (data : List UInt8) (now : ℕ)
  | epochReset (now : ℕ)
  | sender (i : ι) (op : TxOp)
  | stats
  /-- `ntrip_server_tx_totals` over the instances there are, each connected or not. -/
  | totals (now : ℕ) (insts : List (ι × Bool))

inductive TelemetryObs where
  | stats (o : IngestStats)
  | totals (o : TxTotals)
  /-- `frames_ok` and `pushed_frames` after a call of `ntrip_server_ingest_uart`. -/
  | ingested (framesOk ringPushedFrames : ℕ)
  deriving DecidableEq, Repr

variable {ι : Type*} [DecidableEq ι]

def parserCounts (p : RtcmParser) : ParserCounts := ⟨p.framesOk, p.bytesOk, p.bytesDiscarded, p.crcErrors⟩

def TelemetryState.counts (s : TelemetryState ι) : ParserCounts := parserCounts s.node.parser.1

/-- As the image is loaded. -/
def telemetryInit : TelemetryState ι := ⟨false, false, msgStaticsInit, nodeInit⟩

/-! ### The code -/

def ntripServerIngestInit (s : TelemetryState ι) (created : Bool) : TelemetryState ι :=
  if s.ready then s
  else if created then
    { s with
      ready := true
      node := { s.node with parser := Parser.init, core := { s.node.core with ring := ntripRingInit } } }
  else s

/-- The call does something: the ingest is up, and there are bytes. -/
def Ingests (s : TelemetryState ι) (data : List UInt8) : Prop := s.ready = true ∧ data ≠ []

instance (s : TelemetryState ι) (data : List UInt8) : Decidable (Ingests s data) :=
  inferInstanceAs (Decidable (_ ∧ _))

/-- The task that owns the parser honours a request for a new one. -/
def honourReset (s : TelemetryState ι) : TelemetryState ι :=
  if s.ingestResetReq then
    { s with ingestResetReq := false, node := { s.node with parser := Parser.init } }
  else s

/-- `rtcm_parser_feed` with `ntrip_server_on_frame`. -/
def feedFrames (s : TelemetryState ι) (data : List UInt8) (now : ℕ) : TelemetryState ι :=
  { s with
    msgs := (s.node.parser.feed data).2.foldl (fun m e => noteMessage m e.2 now) s.msgs
    node := node.step s.node (.ingest data (UInt32.ofNat now)) }

def ntripServerIngestUart (s : TelemetryState ι) (data : List UInt8) (now : ℕ) : TelemetryState ι :=
  if Ingests s data then feedFrames (honourReset s) data now else s

def ntripServerIngestStats (s : TelemetryState ι) : IngestStats where
  toParserCounts := s.counts
  ringPushedFrames := s.node.core.ring.pushedFrames
  ringCumBytes := s.node.core.ring.cumBytes

/-- One round over the instances. -/
def addInstance (out : TxTotals) (tx : NtripTx) (connected : Bool) : TxTotals :=
  { out with
    instances := out.instances + 1
    connected := if connected then out.connected + 1 else out.connected
    acceptedToLwip := out.acceptedToLwip + tx.acceptedToLwip
    sentFrames := out.sentFrames + tx.sentFrames
    droppedBytes := out.droppedBytes + tx.droppedBytes
    skippedBytes := out.skippedBytes + tx.skippedBytes
    droppedStaleBytes := out.droppedStaleBytes + tx.droppedStaleBytes
    eagainCount := out.eagainCount + tx.eagainCount
    reconnects := out.reconnects + tx.reconnects
    maxQueueAgeMs := if tx.maxQueueAgeMs > out.maxQueueAgeMs then tx.maxQueueAgeMs else out.maxQueueAgeMs }

def ntripServerTxTotals (s : TelemetryState ι) (now : ℕ) (insts : List (ι × Bool)) : TxTotals :=
  let fresh := ntripServerMsgFreshness s.msgs now
  let out : TxTotals :=
    { toParserCounts := (ntripServerIngestStats s).toParserCounts
      acceptedToLwip := 0, sentFrames := 0, droppedBytes := 0, skippedBytes := 0, droppedStaleBytes := 0
      eagainCount := 0, reconnects := 0, maxQueueAgeMs := 0, instances := 0, connected := 0
      reqFresh := fresh.allFresh
      reqMissing := ((List.finRange ntripRequiredMsgCount).filter fun i => !fresh.fresh i).length }
  insts.foldl (fun out inst => addInstance out (s.node.core.tx inst.1) inst.2) out

def telemetry : Machine (TelemetryState ι) (TelemetryEvent ι) TelemetryObs where
  step s
    | .ingestInit created => ntripServerIngestInit s created
    | .ingest data now => ntripServerIngestUart s data now
    | .epochReset now => { s with ingestResetReq := true, msgs := ntripServerMsgEpochReset s.msgs now }
    | .sender i op => { s with node := node.step s.node (.sender i op) }
    | .stats => s
    | .totals _ _ => s
  out s
    | .ingest data now =>
        let o := ntripServerIngestStats (ntripServerIngestUart s data now)
        [.ingested o.framesOk o.ringPushedFrames]
    | .stats => [.stats (ntripServerIngestStats s)]
    | .totals now insts => [.totals (ntripServerTxTotals s now insts)]
    | _ => []

/-! ### The promise -/

/-- The counters that a call returned. -/
def reported : TelemetryObs → Option ParserCounts
  | .stats o => some o.toParserCounts
  | .totals o => some o.toParserCounts
  | .ingested _ _ => none

/-- The reports never run backwards, and `frames_ok` is `pushed_frames` after every ingest. -/
structure Cumulative (os : List TelemetryObs) : Prop where
  forwards : (os.filterMap reported).Pairwise ParserCounts.Le
  pushed : ∀ f n, .ingested f n ∈ os → f = n

/-- A request for a new parser is honoured only while nothing is counted. -/
def KeepsCounts (s : TelemetryState ι) : TelemetryEvent ι → Prop
  | .ingest data _ => Ingests s data → s.ingestResetReq = true → s.counts = ⟨0, 0, 0, 0⟩
  | _ => True

/-! ### What feeding does to the counters -/

theorem ParserCounts.Le.refl (a : ParserCounts) : a.Le a :=
  ⟨Nat.le_refl _, Nat.le_refl _, Nat.le_refl _, Nat.le_refl _⟩

theorem ParserCounts.Le.trans {a b c : ParserCounts} (hab : a.Le b) (hbc : b.Le c) : a.Le c where
  framesOk := hab.framesOk.trans hbc.framesOk
  bytesOk := hab.bytesOk.trans hbc.bytesOk
  bytesDiscarded := hab.bytesDiscarded.trans hbc.bytesDiscarded
  crcErrors := hab.crcErrors.trans hbc.crcErrors

theorem ParserCounts.Le.eq_zero {a : ParserCounts} (h : a.Le ⟨0, 0, 0, 0⟩) : a = ⟨0, 0, 0, 0⟩ := by
  obtain ⟨h1, h2, h3, h4⟩ := h
  cases a
  simp only [Nat.le_zero] at h1 h2 h3 h4
  rw [h1, h2, h3, h4]

theorem credit_counts_le (p : RtcmParser) (t : Tok) : (parserCounts p).Le (parserCounts (credit p t)) := by
  cases t with
  | junk r b => exact ⟨Nat.le_refl _, Nat.le_refl _, Nat.le_succ _, Nat.le_add_right _ _⟩
  | frame f => exact ⟨Nat.le_succ _, Nat.le_add_right _ _, Nat.le_refl _, Nat.le_refl _⟩

theorem foldl_credit_counts_le (ts : List Tok) (p : RtcmParser) :
    (parserCounts p).Le (parserCounts (ts.foldl credit p)) := by
  induction ts generalizing p with
  | nil => exact .refl _
  | cons t ts ih => exact (credit_counts_le p t).trans (ih (credit p t))

/-- Feeding only adds. -/
theorem feed_counts_le (p : Parser) (data : List UInt8) :
    (parserCounts p.1).Le (parserCounts (p.feed data).1.1) := by
  rw [p.feed_val]
  exact foldl_credit_counts_le _ (p.1.over data)

/-- `frames_ok` goes up by the frames that are emitted. -/
theorem feed_frames (p : Parser) (data : List UInt8) :
    (p.feed data).1.1.framesOk = p.1.framesOk + (p.feed data).2.length := by
  rw [p.feed_val, p.feed_emissions]
  exact (foldl_credit_frames (scan rtcmFraming (p.1.over data).buf).1 (p.1.over data)
    (p.1.over data).offset).1

/-- The ring takes every frame of the parser. -/
theorem pushed_run (nowMs : UInt32) (c : CoreState ι) (es : List Emission)
    (hes : ∀ e ∈ es, IsRtcmFrame e.2) :
    (core.run c (es.map fun e => CoreEvent.push e.2 nowMs)).ring.pushedFrames =
      c.ring.pushedFrames + es.length := by
  induction es generalizing c with
  | nil => rfl
  | cons e es ih =>
      have hlen := (hes e List.mem_cons_self).length_bounds
      have hpush : (core.step c (.push e.2 nowMs)).ring.pushedFrames = c.ring.pushedFrames + 1 := by
        show (ntripRingPush c.ring e.2 nowMs).pushedFrames = _
        rw [ntripRingPush, if_neg (by omega)]
      rw [List.map_cons, Machine.run_cons, ih _ fun e' he' => hes e' (List.mem_cons_of_mem _ he'),
        hpush, List.length_cons, Nat.add_assoc, Nat.add_comm 1]

theorem feedFrames_pushed (s : TelemetryState ι) (data : List UInt8) (now : ℕ) :
    (feedFrames s data now).counts.framesOk = s.counts.framesOk + (s.node.parser.feed data).2.length ∧
      (feedFrames s data now).node.core.ring.pushedFrames =
        s.node.core.ring.pushedFrames + (s.node.parser.feed data).2.length := by
  refine ⟨feed_frames s.node.parser data, pushed_run (UInt32.ofNat now) s.node.core _ ?_⟩
  rw [s.node.parser.feed_emissions]
  exact fun e he => isRtcmFrame_of_mem_emissions he

/-! ### The promise along a run -/

/-- What the reports so far and the state have to do with each other. -/
structure TelemetryOk (s : TelemetryState ι) (os : List TelemetryObs) : Prop where
  promise : Cumulative os
  reported_le : ∀ c ∈ os.filterMap reported, ParserCounts.Le c s.counts
  pushed : s.counts.framesOk = s.node.core.ring.pushedFrames
  idle : s.ready = false → s.node.parser = Parser.init ∧ s.node.core.ring = ntripRingInit

omit [DecidableEq ι] in
theorem telemetryOk_init : TelemetryOk (telemetryInit : TelemetryState ι) [] where
  promise := ⟨List.Pairwise.nil, fun _ _ h => absurd h List.not_mem_nil⟩
  reported_le := fun _ h => absurd h List.not_mem_nil
  pushed := rfl
  idle := fun _ => ⟨rfl, rfl⟩

section

variable {s t : TelemetryState ι} {os : List TelemetryObs}

omit [DecidableEq ι] in
theorem TelemetryOk.advance (h : TelemetryOk s os) (hle : s.counts.Le t.counts)
    (hpushed : t.counts.framesOk = t.node.core.ring.pushedFrames)
    (hidle : t.ready = false → t.node.parser = Parser.init ∧ t.node.core.ring = ntripRingInit) :
    TelemetryOk t os where
  promise := h.promise
  reported_le := fun c hc => (h.reported_le c hc).trans hle
  pushed := hpushed
  idle := hidle

omit [DecidableEq ι] in
/-- A report of the counters as they stand. -/
theorem TelemetryOk.report (h : TelemetryOk s os) {o : TelemetryObs} (ho : reported o = some s.counts) :
    TelemetryOk s (os ++ [o]) := by
  have hmap : (os ++ [o]).filterMap reported = os.filterMap reported ++ [s.counts] := by
    rw [List.filterMap_append, List.filterMap_cons_some ho, List.filterMap_nil]
  refine ⟨⟨?_, ?_⟩, ?_, h.pushed, h.idle⟩
  · rw [hmap, List.pairwise_append]
    refine ⟨h.promise.forwards, List.pairwise_singleton _ _, ?_⟩
    intro c hc d hd
    rw [List.mem_singleton.mp hd]
    exact h.reported_le c hc
  · intro f n hmem
    rcases List.mem_append.mp hmem with hold | hnew
    · exact h.promise.pushed f n hold
    · rw [← List.mem_singleton.mp hnew] at ho
      simp [reported] at ho
  · intro c hc
    rw [hmap] at hc
    rcases List.mem_append.mp hc with hold | hnew
    · exact h.reported_le c hold
    · rw [List.mem_singleton.mp hnew]
      exact .refl _

omit [DecidableEq ι] in
theorem TelemetryOk.ingested (h : TelemetryOk s os) :
    TelemetryOk s (os ++ [.ingested s.counts.framesOk s.node.core.ring.pushedFrames]) := by
  have hmap : (os ++ [TelemetryObs.ingested s.counts.framesOk s.node.core.ring.pushedFrames]).filterMap
      reported = os.filterMap reported := by
    rw [List.filterMap_append, List.filterMap_cons_none rfl, List.filterMap_nil, List.append_nil]
  refine ⟨⟨?_, ?_⟩, ?_, h.pushed, h.idle⟩
  · rw [hmap]
    exact h.promise.forwards
  · intro f n hmem
    rcases List.mem_append.mp hmem with hold | hnew
    · exact h.promise.pushed f n hold
    · obtain ⟨rfl, rfl⟩ := TelemetryObs.ingested.inj (List.mem_singleton.mp hnew)
      exact h.pushed
  · rw [hmap]
    exact h.reported_le

theorem addInstance_counts (out : TxTotals) (tx : NtripTx) (connected : Bool) :
    (addInstance out tx connected).toParserCounts = out.toParserCounts := rfl

omit [DecidableEq ι] in
/-- The totals carry the counters of the parser, whatever the instances are. -/
theorem totals_counts (s : TelemetryState ι) (now : ℕ) (insts : List (ι × Bool)) :
    (ntripServerTxTotals s now insts).toParserCounts = s.counts := by
  unfold ntripServerTxTotals
  have hfold : ∀ out : TxTotals, (insts.foldl (fun out inst =>
      addInstance out (s.node.core.tx inst.1) inst.2) out).toParserCounts = out.toParserCounts := by
    induction insts with
    | nil => exact fun _ => rfl
    | cons inst insts ih => exact fun out => (ih _).trans (addInstance_counts out _ _)
  exact hfold _

/-- An ingest that does not throw counters away only adds to them. -/
theorem ingest_advance (h : TelemetryOk s os) (data : List UInt8) (now : ℕ)
    (hkeeps : KeepsCounts s (.ingest data now)) :
    TelemetryOk (ntripServerIngestUart s data now) os := by
  unfold ntripServerIngestUart
  by_cases hingests : Ingests s data
  · rw [if_pos hingests]
    have hcounts : (honourReset s).counts = s.counts := by
      unfold honourReset
      by_cases hreq : s.ingestResetReq = true
      · rw [if_pos hreq, hkeeps hingests hreq]
        rfl
      · rw [if_neg hreq]
    have hring : (honourReset s).node.core = s.node.core := by
      unfold honourReset
      split <;> rfl
    have hready : (honourReset s).ready = s.ready := by
      unfold honourReset
      split <;> rfl
    obtain ⟨hframes, hpushed⟩ := feedFrames_pushed (honourReset s) data now
    refine h.advance ?_ ?_ ?_
    · rw [← hcounts]
      exact feed_counts_le (honourReset s).node.parser data
    · rw [hframes, hpushed, hcounts, hring, h.pushed]
    · intro hidle
      exact absurd ((hready.symm.trans hidle).symm.trans hingests.1) (by decide)
  · rw [if_neg hingests]
    exact h

end

/-- **One event.** -/
theorem telemetryOk_step (s : TelemetryState ι) (os : List TelemetryObs) (e : TelemetryEvent ι)
    (h : TelemetryOk s os) (hkeeps : KeepsCounts s e) :
    TelemetryOk (telemetry.step s e) (os ++ telemetry.out s e) := by
  cases e with
  | ingestInit created =>
      show TelemetryOk (ntripServerIngestInit s created) (os ++ [])
      rw [List.append_nil]
      unfold ntripServerIngestInit
      by_cases hready : s.ready = true
      · rw [if_pos hready]
        exact h
      rw [if_neg hready]
      cases created with
      | false => exact h
      | true =>
          obtain ⟨hparser, _⟩ := h.idle (Bool.not_eq_true _ ▸ hready)
          refine h.advance ?_ rfl fun hidle => absurd hidle (by simp)
          show (parserCounts s.node.parser.1).Le _
          rw [hparser]
          exact .refl _
  | ingest data now =>
      exact (ingest_advance h data now hkeeps).ingested
  | epochReset now =>
      show TelemetryOk _ (os ++ [])
      rw [List.append_nil]
      exact h.advance (.refl _) h.pushed h.idle
  | sender i op =>
      show TelemetryOk _ (os ++ [])
      rw [List.append_nil]
      exact h.advance (.refl _) h.pushed h.idle
  | stats => exact h.report rfl
  | totals now insts => exact h.report (congrArg some (totals_counts s now insts))

/-- **The counters are cumulative** in every run in which no request for a new parser is honoured after the
first byte was counted. -/
theorem cumulative_of_keepsCounts (es : List (TelemetryEvent ι))
    (hkeeps : telemetry.Admits KeepsCounts telemetryInit es) :
    Cumulative (telemetry.outputs telemetryInit es) :=
  (telemetry.history_nil telemetryOk_step telemetryOk_init hkeeps).promise

/-- The heartbeat of a station whose receiver is reset before it says anything. -/
def heartbeatRun : List (TelemetryEvent Unit) :=
  [.ingestInit true, .epochReset 0, .ingest emptyFrame.bytes 1, .stats, .ingest [0xD3] 2, .totals 3 [((), true)]]

theorem cumulative_of_keepsCounts_heartbeatRun : Cumulative (telemetry.outputs telemetryInit heartbeatRun) :=
  cumulative_of_keepsCounts heartbeatRun
    ⟨trivial, trivial, fun _ _ => rfl, trivial, fun _ h => absurd h (by decide), trivial, trivial⟩

/-- A receiver reset after the first frame, and a first byte of the next one. -/
def resetRun : List (TelemetryEvent Unit) :=
  [.ingestInit true, .ingest emptyFrame.bytes 0, .stats, .epochReset 1, .ingest [0xD3] 2, .stats]

/-- **The counters run backwards** at a receiver reset. -/
theorem resetRun_backwards :
    telemetry.outputs telemetryInit resetRun =
        [.ingested 1 1, .stats ⟨⟨1, 6, 0, 0⟩, 1, 6⟩, .ingested 0 1, .stats ⟨⟨0, 0, 0, 0⟩, 1, 6⟩] ∧
      ¬ ∀ es : List (TelemetryEvent Unit), Cumulative (telemetry.outputs telemetryInit es) := by
  have hrun : telemetry.outputs telemetryInit resetRun =
      [.ingested 1 1, .stats ⟨⟨1, 6, 0, 0⟩, 1, 6⟩, .ingested 0 1, .stats ⟨⟨0, 0, 0, 0⟩, 1, 6⟩] := by
    decide +kernel
  refine ⟨hrun, ?_⟩
  intro h
  have hpushed := (h resetRun).pushed 0 1
  rw [hrun] at hpushed
  exact absurd (hpushed (by decide)) (by decide)

/-! ### Requests that are honoured late -/

/-- After a request is honoured the counters are those of the chunk alone. -/
theorem honoured_counts {s : TelemetryState ι} {data : List UInt8} (now : ℕ) (hingests : Ingests s data)
    (hreq : s.ingestResetReq = true) :
    ntripServerIngestUart s data now =
      feedFrames { s with ingestResetReq := false, node := { s.node with parser := Parser.init } } data now := by
  rw [ntripServerIngestUart, if_pos hingests, honourReset, if_pos hreq]

/-- **Frames are taken back.**  `frames_ok` falls behind `pushed_frames` for good. -/
theorem lossy_frames {s : TelemetryState ι} {data : List UInt8} (now : ℕ) (hingests : Ingests s data)
    (hreq : s.ingestResetReq = true) (hpushed : s.counts.framesOk = s.node.core.ring.pushedFrames)
    (hframes : s.counts.framesOk ≠ 0) :
    (ntripServerIngestUart s data now).counts.framesOk ≠
      (ntripServerIngestUart s data now).node.core.ring.pushedFrames := by
  rw [honoured_counts now hingests hreq]
  obtain ⟨hcount, hring⟩ := feedFrames_pushed
    { s with ingestResetReq := false, node := { s.node with parser := Parser.init } } data now
  rw [hcount, hring]
  show 0 + _ ≠ s.node.core.ring.pushedFrames + _
  omega

/-- **Any count is taken back**: a lone preamble is enough to see the reports run backwards. -/
theorem lossy_ingest {s : TelemetryState ι} (now : ℕ) (hready : s.ready = true)
    (hreq : s.ingestResetReq = true) (hcounts : s.counts ≠ ⟨0, 0, 0, 0⟩) :
    ¬ Cumulative (telemetry.outputs s [.stats, .ingest [preamble] now, .stats]) := by
  have hafter : (ntripServerIngestUart s [preamble] now).counts = ⟨0, 0, 0, 0⟩ := by
    rw [honoured_counts now ⟨hready, List.cons_ne_nil _ _⟩ hreq]
    show parserCounts (Parser.init.feed [preamble]).1.1 = _
    rw [Parser.init.feed_val]
    have hwait : rtcmFraming.judge (Parser.init.1.over [preamble]).buf = .wait := rfl
    rw [digest, scan_of_wait rtcmFraming hwait]
    rfl
  intro h
  have hback : s.counts.Le (ntripServerIngestUart s [preamble] now).counts := by
    have hpair := h.forwards
    change ([s.counts, (ntripServerIngestUart s [preamble] now).counts]).Pairwise ParserCounts.Le at hpair
    exact List.rel_of_pairwise_cons hpair List.mem_cons_self
  rw [hafter] at hback
  exact hcounts hback.eq_zero

end RtkdataFw.NtripServer
