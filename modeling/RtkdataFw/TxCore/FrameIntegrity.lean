import RtkdataFw.TxCore.Accounting
import RtkdataFw.TxCore.RtcmFrame

/-!
# From the UART to the casters

`node` is the parser, the ring and the senders together: UART chunks are fed to the parser and every
frame it emits is pushed, as `ntrip_server_on_frame` does; the owners of the senders call them.  `dead i`
remembers that sender `i` was aborted, or that its poll returned `ERROR`, and was not reset since.

* `node_lower` — a run of `node` is a run of `core` on the pushes and calls it stands for;
* `node_frames` — the frames in the ring's history are those the parser emits, in order;
* `Delivered` and `Tracks.delivered` — what a track of a sender that was cut at most at its end comes to;
* `frame_integrity` — what a connection carries.
-/

namespace RtkdataFw.TxCore

open RtkdataFw.Lib

structure NodeState (ι : Type*) where
  parser : Parser
  core : CoreState ι
  dead : ι → Bool

inductive NodeEvent (ι : Type*) where
  | ingest (chunk : List UInt8) (nowMs : UInt32)
  | sender (i : ι) (op : TxOp)

variable {ι : Type*} [DecidableEq ι]

def nodeInit : NodeState ι := ⟨Parser.init, coreInit, fun _ => false⟩

/-- Whether the connection of a sender is over after the call, when `dead` said so before. -/
def TxOp.leavesDead (tx : NtripTx) (ring : NtripRing) (dead : Bool) : TxOp → Bool
  | .poll nowMs maxSends staleMs send =>
      dead || (ntripTxPoll tx ring nowMs maxSends staleMs send).1 = .error
  | .abort => true
  | .resetConn _ => false

/-- The pushes and calls that an event stands for. -/
def lower (s : NodeState ι) : NodeEvent ι → List (CoreEvent ι)
  | .ingest chunk nowMs => (s.parser.feed chunk).2.map fun e => .push e.2 nowMs
  | .sender i op => [.sender i op]

def node : Machine (NodeState ι) (NodeEvent ι) (CoreObs ι) where
  step s
    | .ingest chunk nowMs =>
        { s with
          parser := (s.parser.feed chunk).1
          core := core.run s.core (lower s (.ingest chunk nowMs)) }
    | .sender i op =>
        { s with
          core := core.run s.core (lower s (.sender i op))
          dead := Function.update s.dead i
            (op.leavesDead (s.core.tx i) s.core.ring (s.dead i)) }
  out s e := core.outputs s.core (lower s e)

/-- The owner of a sender does not poll it again before the reset, and its callback keeps the
contract. -/
def NodeEvent.Ok (s : NodeState ι) : NodeEvent ι → Prop
  | .sender i (.poll _ _ _ send) => s.dead i = false ∧ ∀ k, (send k).Ok
  | _ => True

/-! ### The node is the core on what its events stand for -/

/-- The calls of a whole run. -/
def lowerRun : NodeState ι → List (NodeEvent ι) → List (CoreEvent ι)
  | _, [] => []
  | s, e :: es => lower s e ++ lowerRun (node.step s e) es

theorem node_step_core (s : NodeState ι) (e : NodeEvent ι) :
    (node.step s e).core = core.run s.core (lower s e) := by
  cases e <;> rfl

theorem lower_ok {s : NodeState ι} {e : NodeEvent ι} (he : e.Ok s) :
    core.Admits (fun _ e => e.Ok) s.core (lower s e) := by
  cases e with
  | ingest chunk nowMs =>
      show core.Admits (fun _ e => e.Ok) s.core ((s.parser.feed chunk).2.map _)
      generalize (s.parser.feed chunk).2 = es
      generalize s.core = c
      induction es generalizing c with
      | nil => trivial
      | cons e es ih => exact ⟨trivial, ih _⟩
  | sender i op =>
      cases op with
      | poll nowMs maxSends staleMs send => exact ⟨he.2, trivial⟩
      | abort => exact ⟨trivial, trivial⟩
      | resetConn nowMs => exact ⟨trivial, trivial⟩

/-- **Lowering.**  State, observations and discipline of a node run are those of its core run. -/
theorem node_lower (s : NodeState ι) (es : List (NodeEvent ι)) :
    (node.run s es).core = core.run s.core (lowerRun s es) ∧
      node.outputs s es = core.outputs s.core (lowerRun s es) ∧
      (node.Admits (fun s e => e.Ok s) s es →
        core.Admits (fun _ e => e.Ok) s.core (lowerRun s es)) := by
  induction es generalizing s with
  | nil => exact ⟨rfl, rfl, fun _ => trivial⟩
  | cons e es ih =>
      obtain ⟨hrun, hout, hok⟩ := ih (node.step s e)
      rw [node_step_core] at hrun hout hok
      refine ⟨?_, ?_, ?_⟩
      · rw [Machine.run_cons, hrun, lowerRun, Machine.run_append]
      · rw [Machine.outputs_cons, hout, lowerRun, Machine.outputs_append]
        rfl
      · intro h
        obtain ⟨he, hes⟩ := h
        rw [lowerRun, Machine.admits_append]
        exact ⟨lower_ok he, hok hes⟩

/-! ### The frames of the ring are those of the parser -/

/-- The chunks fed along a run. -/
def fedChunks (es : List (NodeEvent ι)) : List (List UInt8) :=
  es.filterMap fun
    | .ingest chunk _ => some chunk
    | _ => none

/-- Every emission of a digested parser is a frame that the ring takes. -/
theorem arrivals_pushes (nowMs : UInt32) (s : CoreState ι) (es : List Emission)
    (hes : ∀ e ∈ es, IsRtcmFrame e.2) :
    (arrivals (core.outputs s (es.map fun e => CoreEvent.push e.2 nowMs))).map Arrival.frame =
      es.map Prod.snd := by
  induction es generalizing s with
  | nil => rfl
  | cons e es ih =>
      have hlen := (hes e List.mem_cons_self).length_bounds
      have hout : core.out s (.push e.2 nowMs) = [.pushed ⟨e.2, nowMs⟩] :=
        if_neg (by omega)
      rw [List.map_cons, Machine.outputs_cons, hout, arrivals_append, List.map_append,
        ih _ fun e' he' => hes e' (List.mem_cons_of_mem _ he')]
      rfl

theorem arrivals_sender (s : CoreState ι) (i : ι) (op : TxOp) :
    arrivals (core.outputs s [.sender i op]) = [] := by
  rw [Machine.outputs_cons, Machine.outputs_nil, List.append_nil]
  exact arrivals_tx i _

/-- **The history of the ring.**  It holds what the parser emits on the chunks fed, all of it frames. -/
theorem node_frames (s : NodeState ι) (es : List (NodeEvent ι)) :
    ∃ emitted, feedChunks s.parser.1 (fedChunks es) = some ((node.run s es).parser.1, emitted) ∧
      (arrivals (node.outputs s es)).map Arrival.frame = emitted.map Prod.snd ∧
      ∀ e ∈ emitted, IsRtcmFrame e.2 := by
  induction es generalizing s with
  | nil => exact ⟨[], rfl, rfl, List.forall_mem_nil _⟩
  | cons e es ih =>
      obtain ⟨emitted, hfeed, harr, hframes⟩ := ih (node.step s e)
      cases e with
      | ingest chunk nowMs =>
          have hnew : ∀ e ∈ (s.parser.feed chunk).2, IsRtcmFrame e.2 := by
            rw [Parser.feed_emissions]
            exact fun e he => isRtcmFrame_of_mem_emissions he
          refine ⟨(s.parser.feed chunk).2 ++ emitted, ?_, ?_, ?_⟩
          · show feedChunks s.parser.1 (chunk :: fedChunks es) = _
            rw [feedChunks, Parser.feed_eq]
            have hparser : (node.step s (.ingest chunk nowMs)).parser = (s.parser.feed chunk).1 := rfl
            rw [hparser] at hfeed
            simp only [Option.bind_eq_bind, Option.bind_some, hfeed, Option.pure_def]
            rfl
          · rw [Machine.outputs_cons, arrivals_append, List.map_append, harr, List.map_append]
            exact congrArg (· ++ _) (arrivals_pushes nowMs s.core _ hnew)
          · intro e he
            exact (List.mem_append.mp he).elim (hnew e) (hframes e)
      | sender i op =>
          refine ⟨emitted, hfeed, ?_, hframes⟩
          have hnone : arrivals (node.out s (.sender i op)) = [] := arrivals_sender s.core i op
          rw [Machine.outputs_cons, arrivals_append, hnone, List.nil_append]
          exact harr

/-! ### What a connection carries -/

/-- The bytes are whole frames of the history from sequence number `b` on, with increasing sequence
numbers, and then at most one proper prefix of a later one. -/
def Delivered (frames : List (List UInt8)) (b : ℕ) (bytes : List UInt8) : Prop :=
  ∃ (whole : List (ℕ × List UInt8)) (part : List UInt8),
    bytes = (whole.map Prod.snd).flatten ++ part ∧
      whole.Pairwise (fun e e' => e.1 < e'.1) ∧
      (∀ e ∈ whole, b ≤ e.1 ∧ frames[e.1]? = some e.2) ∧
      (part = [] ∨ ∃ n f, part <+: f ∧ part ≠ f ∧ b ≤ n ∧ (∀ e ∈ whole, e.1 < n) ∧
        frames[n]? = some f)

/-- A ledger without cuts has only frames sent whole. -/
theorem settled_sent {evs : List TxEvent} (hcut : TxEvent.cut ∉ evs) :
    ∀ c ∈ (ledger evs).settled, c.2 = Fate.sent := by
  induction evs using List.reverseRecOn with
  | nil => exact List.forall_mem_nil _
  | append_singleton evs e ih =>
      rw [List.mem_append, not_or] at hcut
      rw [ledger_snoc]
      cases e with
      | cut => exact absurd List.mem_cons_self hcut.2
      | sent =>
          intro c hc
          rcases List.mem_append.mp hc with hc | hc
          · exact ih hcut.1 c hc
          · rw [Option.mem_toList, Option.map_eq_some_iff] at hc
            obtain ⟨_, _, rfl⟩ := hc
            rfl
      | skipped start stop => exact ih hcut.1
      | stale seq receivedMs => exact ih hcut.1
      | copied seq frame => exact ih hcut.1
      | accepted bytes => exact ih hcut.1

section Track

variable {h : List Arrival} {b : ℕ} {tx : NtripTx} {evs : List TxEvent}

/-- Copies taken whole, and perhaps a last one taken in part. -/
theorem Tracks.delivered_of_copies (ht : Tracks h b tx evs) {ws : List CopyRec}
    {last : Option CopyRec} (hcopies : (ledger evs).copies = ws ++ last.toList)
    (hws : ∀ c ∈ ws, c.got = c.frame) (hlast : ∀ c ∈ last, c.got <+: c.frame ∧ c.got ≠ c.frame) :
    Delivered (h.map Arrival.frame) b (acceptedBytes evs) := by
  have hordered := ht.ordered
  have hmem : ∀ c ∈ ws, c ∈ (ledger evs).copies := fun c hc => by
    rw [hcopies]
    exact List.mem_append_left _ hc
  rw [hcopies, List.pairwise_append] at hordered
  refine ⟨ws.map fun c => (c.seq.toNat, c.frame), (last.map CopyRec.got).getD [], ?_, ?_, ?_, ?_⟩
  · have hgot : ws.map CopyRec.got = ws.map CopyRec.frame := List.map_congr_left hws
    rw [ht.bytes_eq, hcopies, List.map_append, List.flatten_append, hgot, List.map_map]
    congr 1
    cases last <;> simp
  · rw [List.pairwise_map]
    exact hordered.1
  · intro e he
    obtain ⟨c, hc, rfl⟩ := List.mem_map.mp he
    exact ⟨(ht.within c (hmem c hc)).1, ht.known c (hmem c hc)⟩
  · cases last with
    | none => exact .inl rfl
    | some c =>
        have hc : c ∈ (ledger evs).copies := by
          rw [hcopies]
          exact List.mem_append_right _ List.mem_cons_self
        obtain ⟨hstart, hproper⟩ := hlast c rfl
        refine .inr ⟨c.seq.toNat, c.frame, hstart, hproper, (ht.within c hc).1, ?_, ht.known c hc⟩
        intro e he
        obtain ⟨d, hd, rfl⟩ := List.mem_map.mp he
        exact hordered.2.2 d hd c List.mem_cons_self

/-- **A track that was cut at most at its end.** -/
theorem Tracks.delivered (ht : Tracks h b tx evs)
    (hlen : tx.currentOff < tx.currentLen → tx.currentLen = tx.current.length) {failed : Prop}
    (hcut : EndsCut failed tx evs) : Delivered (h.map Arrival.frame) b (acceptedBytes evs) := by
  have hwhole : ∀ {es : List TxEvent}, TxEvent.cut ∉ es →
      (∀ c, (c, Fate.sent) ∈ (ledger es).settled → c.got = c.frame) →
        ∀ c ∈ (ledger es).settled.map Prod.fst, c.got = c.frame := by
    intro es hes hsent c hc
    obtain ⟨⟨c, fate⟩, hmem, rfl⟩ := List.mem_map.mp hc
    have hfate : fate = Fate.sent := settled_sent hes _ hmem
    subst hfate
    exact hsent c hmem
  rcases hcut with ⟨_, hcut⟩ | ⟨_, hidle, pre, hpre, rfl | rfl⟩
  · apply ht.delivered_of_copies rfl (hwhole hcut ht.sent_whole)
    intro c hc
    have hpending := ht.pending_eq
    rw [Option.mem_def] at hc
    rw [hc, Option.map_some] at hpending
    split at hpending
    · rename_i hopen
      cases c with
      | mk seq frame got =>
          cases hpending
          refine ⟨List.take_prefix _ _, ?_⟩
          intro heq
          have := congrArg List.length heq
          rw [List.length_take, ← hlen hopen] at this
          omega
    · cases hpending
  · have hnone : (ledger evs).pending = none := by
      have hpending := ht.pending_eq
      rw [if_neg hidle, Option.map_eq_none_iff] at hpending
      exact hpending
    apply ht.delivered_of_copies rfl (hwhole hpre ht.sent_whole)
    rw [hnone]
    exact fun c hc => by cases hc
  · -- the cut frame is the last copy
    have hcopies : (ledger (pre ++ [.cut])).copies = (ledger pre).copies := by
      rw [ledger_snoc, Ledger.post_cut, Ledger.copies_settle]
    have hsettled : (ledger (pre ++ [.cut])).settled =
        (ledger pre).settled ++ ((ledger pre).pending.map fun c => (c, Fate.cut)).toList := by
      rw [ledger_snoc]
      rfl
    refine ht.delivered_of_copies (hcopies.trans rfl) (hwhole hpre ?_) ?_
    · intro c hc
      apply ht.sent_whole c
      rw [hsettled]
      exact List.mem_append_left _ hc
    · intro c hc
      apply ht.cut_short c
      rw [hsettled, Option.mem_def.mp hc]
      exact List.mem_append_right _ List.mem_cons_self

end Track

/-! ### One connection -/

/-- An event that is not the reconnect of sender `i`. -/
def NodeEvent.KeepsConn (i : ι) : NodeEvent ι → Prop
  | .sender j (.resetConn _) => j ≠ i
  | _ => True

theorem core_run_pushes_tx (s : CoreState ι) (nowMs : UInt32) (es : List Emission) (i : ι) :
    (core.run s (es.map fun e => CoreEvent.push e.2 nowMs)).tx i = s.tx i ∧
      trace i (core.outputs s (es.map fun e => CoreEvent.push e.2 nowMs)) = [] := by
  induction es generalizing s with
  | nil => exact ⟨rfl, rfl⟩
  | cons e es ih =>
      obtain ⟨htx, htrace⟩ := ih (core.step s (.push e.2 nowMs))
      have hout : trace i (core.out s (.push e.2 nowMs)) = [] := by
        show trace i (if _ then _ else _) = []
        split <;> rfl
      refine ⟨htx, ?_⟩
      rw [List.map_cons, Machine.outputs_cons, trace_append, hout, htrace]
      rfl

theorem node_step_sender (s : NodeState ι) (i : ι) (op : TxOp) :
    (node.step s (.sender i op)).core.tx i = (op.run (s.core.tx i) s.core.ring).1 ∧
      trace i (node.out s (.sender i op)) = (op.run (s.core.tx i) s.core.ring).2 ∧
      (node.step s (.sender i op)).dead i =
        op.leavesDead (s.core.tx i) s.core.ring (s.dead i) := by
  refine ⟨Function.update_self i _ _, ?_, Function.update_self i _ _⟩
  show trace i (core.outputs s.core [.sender i op]) = _
  rw [Machine.outputs_cons, Machine.outputs_nil, List.append_nil]
  exact trace_tx_self i _

theorem node_step_other (s : NodeState ι) {i j : ι} (hne : j ≠ i) (op : TxOp) :
    (node.step s (.sender j op)).core.tx i = s.core.tx i ∧
      trace i (node.out s (.sender j op)) = [] ∧
      (node.step s (.sender j op)).dead i = s.dead i := by
  refine ⟨Function.update_of_ne hne.symm _ _, ?_, Function.update_of_ne hne.symm _ _⟩
  show trace i (core.outputs s.core [.sender j op]) = _
  rw [Machine.outputs_cons, Machine.outputs_nil, List.append_nil]
  exact trace_tx_of_ne hne _

/-- **A connection is cut at most once, at its end.** -/
theorem conn_endsCut_step {i : ι} {s : NodeState ι} {os : List (CoreObs ι)} {e : NodeEvent ι}
    (hs : EndsCut (s.dead i = true) (s.core.tx i) (trace i os)) (he : e.Ok s)
    (hkeep : e.KeepsConn i) :
    EndsCut ((node.step s e).dead i = true) ((node.step s e).core.tx i)
      (trace i (os ++ node.out s e)) := by
  rw [trace_append]
  cases e with
  | ingest chunk nowMs =>
      obtain ⟨htx, htrace⟩ := core_run_pushes_tx s.core nowMs (s.parser.feed chunk).2 i
      have htx' : (node.step s (.ingest chunk nowMs)).core.tx i = s.core.tx i := htx
      have htrace' : trace i (node.out s (.ingest chunk nowMs)) = [] := htrace
      rw [htx', htrace', List.append_nil]
      exact hs
  | sender j op =>
      by_cases hij : j = i
      · subst hij
        obtain ⟨htx, htrace, hdead⟩ := node_step_sender s j op
        rw [htx, htrace, hdead]
        cases op with
        | poll nowMs maxSends staleMs send =>
            rcases hs with ⟨_, hcut⟩ | ⟨hdead', _⟩
            · have hidle : PollResult.idle ≠ .error := PollResult.noConfusion
              have hpoll := pollLoop_endsCut s.core.ring nowMs staleMs send maxSends.toNat 0 hidle
                (s.core.tx j)
              simp only [TxOp.leavesDead, he.1, Bool.false_or, decide_eq_true_eq]
              exact hpoll.prepend hcut
            · rw [he.1] at hdead'
              cases hdead'
        | abort =>
            rcases hs with ⟨_, hcut⟩ | ⟨_, hidle, pre, hpre, hevs⟩
            · have habort := (ntripTxAbort_endsCut (s.core.tx j)).prepend hcut
              rcases habort with ⟨hfalse, _⟩ | ⟨_, hrest⟩
              · exact absurd trivial hfalse
              · exact .inr ⟨rfl, hrest⟩
            · have hnone : (TxOp.abort.run (s.core.tx j) s.core.ring).2 = [] :=
                ntripTxAbort_evs_of_idle hidle
              rw [hnone, List.append_nil]
              exact .inr ⟨rfl, ntripTxAbort_idle _, pre, hpre, hevs⟩
        | resetConn nowMs => exact absurd rfl hkeep
      · obtain ⟨htx, htrace, hdead⟩ := node_step_other s hij op
        rw [htx, htrace, hdead, List.append_nil]
        exact hs

/-- A new watch on a sender whose connection has just been reset. -/
theorem Watch.reset {i : ι} {s : CoreState ι} {os : List (CoreObs ι)} (hs : Watch i [] 0 s os)
    (nowMs : UInt32) :
    Watch i (os ++ core.out s (.sender i (.resetConn nowMs))) (arrivals os).length
      (core.step s (.sender i (.resetConn nowMs))) [] := by
  have harr : arrivals (os ++ core.out s (.sender i (.resetConn nowMs))) = arrivals os := by
    simp [core]
  have hstep := watch_step hs (e := .sender i (.resetConn nowMs)) trivial (by
    rw [List.nil_append, harr]
    exact hs.ring.length_lt)
  obtain ⟨_, hcursor, hidle⟩ := ntripTxResetConn_ok hs.ring nowMs hs.tx
  have htx : (core.step s (.sender i (.resetConn nowMs))).tx i =
      (ntripTxResetConn (s.tx i) s.ring nowMs).1 := Function.update_self i _ _
  have htracks := Tracks.start (h := arrivals os) hidle
  rw [hcursor, List.nil_append] at htracks
  have hbooks := hstep.tx.books
  rw [htx, List.nil_append, harr] at hbooks
  constructor
  · rw [List.append_nil]
    exact hstep.ring
  · rw [List.append_nil, htx, harr]
    refine ⟨?_, htracks⟩
    rw [show trace i ([] : List (CoreObs ι)) = [] from rfl, List.append_nil]
    exact hbooks

/-- Sender `i` is in order along its connection, watched from the reset on. -/
theorem watch_conn {i : ι} {before conn : List (NodeEvent ι)} {nowMs : UInt32}
    (hes : node.Admits (fun s e => e.Ok s) nodeInit
      (before ++ .sender i (.resetConn nowMs) :: conn))
    (hbound : (arrivals (node.outputs (nodeInit : NodeState ι)
      (before ++ .sender i (.resetConn nowMs) :: conn))).length < 2 ^ 32) :
    let s := node.run (nodeInit : NodeState ι) before
    let opened := node.step s (.sender i (.resetConn nowMs))
    Watch i (node.outputs nodeInit before ++ node.out s (.sender i (.resetConn nowMs)))
      (arrivals (node.outputs (nodeInit : NodeState ι) before)).length
      (node.run opened conn).core (node.outputs opened conn) := by
  intro s opened
  rw [Machine.admits_append] at hes
  obtain ⟨hbefore, _, hconn⟩ := hes
  rw [Machine.outputs_append, Machine.outputs_cons, arrivals_append, List.length_append] at hbound
  obtain ⟨hrun, hout, hok⟩ := node_lower (nodeInit : NodeState ι) before
  have hwatch := watch_run (watch_init i) (hok hbefore) (by
    have hout' : core.outputs coreInit (lowerRun nodeInit before) =
        node.outputs (nodeInit : NodeState ι) before := hout.symm
    rw [List.nil_append, List.nil_append, hout']
    omega)
  have hwatch' : Watch i [] 0 s.core (node.outputs nodeInit before) := by
    rw [List.nil_append] at hwatch
    rw [show s.core = core.run coreInit (lowerRun nodeInit before) from hrun, hout]
    exact hwatch
  have hreset := hwatch'.reset nowMs
  have hone : node.out s (.sender i (.resetConn nowMs)) =
      core.out s.core (.sender i (.resetConn nowMs)) := List.append_nil _
  obtain ⟨hrun', hout', hok'⟩ := node_lower opened conn
  rw [hrun', hout', hone]
  apply watch_run hreset (hok' hconn)
  have hlen : (arrivals (node.out s (.sender i (.resetConn nowMs)))).length = 0 := by
    rw [hone]
    simp [core]
  have hout'' : core.outputs (core.step s.core (.sender i (.resetConn nowMs)))
      (lowerRun opened conn) = node.outputs opened conn := hout'.symm
  rw [List.nil_append, hout'', ← hone, arrivals_append, arrivals_append, List.length_append,
    List.length_append]
  rw [arrivals_append, List.length_append] at hbound
  change _ + (_ + (arrivals (node.outputs opened conn)).length) < _ at hbound
  omega

/-- **Frame integrity.**  Whatever chunks come in and whatever the senders do, the bytes that the callback
of sender `i` accepts between a reset and the next one are whole well-formed frames, pushed after the
reset and in the order of their sequence numbers, and then at most one proper prefix of a further one. -/
theorem frame_integrity (i : ι) (before conn : List (NodeEvent ι)) (nowMs : UInt32)
    (hes : node.Admits (fun s e => e.Ok s) nodeInit
      (before ++ .sender i (.resetConn nowMs) :: conn))
    (hbound : (arrivals (node.outputs (nodeInit : NodeState ι)
      (before ++ .sender i (.resetConn nowMs) :: conn))).length < 2 ^ 32)
    (hconn : ∀ e ∈ conn, e.KeepsConn i) :
    let run := before ++ .sender i (.resetConn nowMs) :: conn
    let pushed := (arrivals (node.outputs (nodeInit : NodeState ι) run)).map Arrival.frame
    let opened := node.run (nodeInit : NodeState ι) (before ++ [.sender i (.resetConn nowMs)])
    (∃ p emitted, feedChunks rtcmParserInit (fedChunks run) = some (p, emitted) ∧
        pushed = emitted.map Prod.snd) ∧
      (∀ f ∈ pushed, IsRtcmFrame f) ∧
      Delivered pushed (arrivals (node.outputs (nodeInit : NodeState ι) before)).length
        (acceptedBytes (trace i (node.outputs opened conn))) := by
  intro run pushed opened
  obtain ⟨emitted, hfeed, hpushed, hframes⟩ := node_frames (nodeInit : NodeState ι) run
  refine ⟨⟨_, emitted, hfeed, hpushed⟩, ?_, ?_⟩
  · intro f hf
    rw [show pushed = emitted.map Prod.snd from hpushed] at hf
    obtain ⟨e, he, rfl⟩ := List.mem_map.mp hf
    exact hframes e he
  · have hwatch := watch_conn hes hbound
    have hopened : opened = node.step (node.run nodeInit before) (.sender i (.resetConn nowMs)) :=
      Machine.run_append _ _ _ _
    have hall : arrivals ((node.outputs nodeInit before ++
        node.out (node.run nodeInit before) (.sender i (.resetConn nowMs))) ++
          node.outputs opened conn) = arrivals (node.outputs (nodeInit : NodeState ι) run) := by
      rw [hopened, List.append_assoc, ← Machine.outputs_cons, ← Machine.outputs_append]
    rw [Machine.admits_append] at hes
    have hcut := node.history (P := fun s os => EndsCut (s.dead i = true) (s.core.tx i) (trace i os))
      (fun s os e hs he => conn_endsCut_step hs he.1 he.2)
      (show EndsCut (opened.dead i = true) (opened.core.tx i) (trace i []) from by
        refine .inl ⟨?_, List.not_mem_nil⟩
        rw [hopened, (node_step_sender _ i _).2.2]
        exact Bool.false_ne_true)
      (hopened ▸ node.admits_and hes.2.2 hconn)
    dsimp only at hwatch
    rw [← hopened] at hwatch
    have hdel := hwatch.tx.tracks.delivered hwatch.tx.books.len_eq hcut
    rw [hall] at hdel
    exact hdel

/-- Two frames arrive cut up between chunks; the first goes out whole, the second in part. -/
def demoConn : List (NodeEvent Unit) :=
  [.ingest [0x55, 0xD3, 0x00, 0x00, 0x47] 20,
   .ingest [0xEA, 0x4B, 0xD3, 0x00, 0x00, 0x47, 0xEA, 0x4B] 21,
   .sender () (.poll 22 1 2000 sendAll), .sender () (.poll 23 2 2000 sendTwo), .sender () .abort]

theorem frame_integrity_demoConn :
    Delivered [emptyFrame.bytes, emptyFrame.bytes] 0
      [0xD3, 0x00, 0x00, 0x47, 0xEA, 0x4B, 0xD3, 0x00] := by
  have h := frame_integrity () [] demoConn 10
    ⟨trivial, trivial, trivial, ⟨by decide +kernel, sendAll_ok⟩, ⟨by decide +kernel, sendTwo_ok⟩,
      trivial, trivial⟩
    (by decide +kernel) (by simp [demoConn, NodeEvent.KeepsConn])
  have hpushed : (arrivals (node.outputs (nodeInit : NodeState Unit)
      ([] ++ .sender () (.resetConn 10) :: demoConn))).map Arrival.frame =
        [emptyFrame.bytes, emptyFrame.bytes] := by decide +kernel
  have hbytes : acceptedBytes (trace () (node.outputs
      (node.run (nodeInit : NodeState Unit) ([] ++ [.sender () (.resetConn 10)])) demoConn)) =
        [0xD3, 0x00, 0x00, 0x47, 0xEA, 0x4B, 0xD3, 0x00] := by decide +kernel
  have hdel := h.2.2
  rw [hpushed, hbytes] at hdel
  exact hdel

end RtkdataFw.TxCore
