import RtkdataFw.NtripServer.Freshness

/-!
# A reset against the UART task and a reader

`ntrip_server_msg_epoch_reset`, `ntrip_server_ingest_uart` with `ntrip_server_on_frame`, and
`ntrip_server_msg_freshness` run in three tasks without a lock.  Each event is one load or one store of the
shared variables, or a wait.  Every byte is kept together with the number of start times that were published
when the call that handed it over began.

* `resetStep`, `uartStep`, `queryStep` — the three tasks, one access at a time;
* `reset_alone`, `callback_alone`, `query_alone` — uninterrupted, they are the functions of the freshness
  contract;
* `feed_origins` — the kept origins are those of the bytes that the parser holds and cuts out;
* `Grows` — what no event takes back;
* `Resets`, `Frames`, `Reads` — what holds of each task after every run;
* `discardsOld_of_admits` — old evidence is discarded while no call reads the clock in the window of a reset;
* `admits_of_apart` — calls that do not overlap a reset never do;
* `spliced_frame_reported` — a frame whose head came before a reset makes the reader report all fresh.
-/

namespace RtkdataFw.NtripServer

open RtkdataFw.Lib RtkdataFw.Lib.Resync RtkdataFw.TxCore

/-- `GNSS_RESET_MS`. -/
def gnssResetMs : ℕ := 500

/-- A byte with its origin: how many start times had been published when the call began that handed it
over. -/
abbrev OriginByte := UInt8 × ℕ

/-- A call of `ntrip_server_ingest_uart`. -/
structure UartCall where
  data : List UInt8
  origin : ℕ

/-- The bytes of a call with their origin. -/
def UartCall.bytes (c : UartCall) : List OriginByte := c.data.map fun b => (b, c.origin)

/-- A frame that the parser cut out. -/
structure CutFrame where
  frame : List UInt8
  /-- The clock value of the call; the code keeps its low 32 bits. -/
  stamp : ℕ
  /-- The bytes of the frame with their origins. -/
  bytes : List OriginByte
  /-- How many start times were published when the frame was cut out. -/
  published : ℕ

/-- What the resetting task does next. -/
inductive ResetPc where
  | idle
  /-- The reset line was pulled at `since`; next the clock is read. -/
  | pulse (since : ℕ)
  /-- The start time is stored. -/
  | storeStart (now : UInt32)
  | loadEpoch
  | storeEpoch (epoch : UInt32)
  /-- The epoch is loaded again to be compared with 0. -/
  | checkEpoch
  | storeOne
  | storeReq

/-- What the UART task does next. -/
inductive UartPc where
  | idle
  | loadReq (c : UartCall)
  /-- The request is cleared and the parser starts afresh. -/
  | honour (c : UartCall)
  /-- The clock is read and the parser is fed. -/
  | feed (c : UartCall)
  | callbacks (fs : List CutFrame)
  | loadEpoch (i : MsgIndex) (fs : List CutFrame)
  | storeTag (i : MsgIndex) (epoch : UInt32) (fs : List CutFrame)

/-- What a query has read. -/
structure Reading where
  now : UInt32
  epoch : UInt32
  since : UInt32
  last : MsgIndex → UInt32
  tag : MsgIndex → UInt32

/-- What the reader does next. -/
inductive QueryPc where
  | idle
  | loadEpoch (now : UInt32)
  | loadSince (now epoch : UInt32)
  | loadLast (i : MsgIndex) (r : Reading)
  | loadTag (i : MsgIndex) (r : Reading)
  /-- The epoch is loaded again. -/
  | loadAgain (r : Reading)

structure RaceState where
  clock : ℕ
  statics : MsgStatics
  ingestResetReq : Bool
  parser : Parser
  resetter : ResetPc
  uart : UartPc
  query : QueryPc
  /-- How many resets are complete. -/
  finished : ℕ
  /-- The clock value that a reset read, by its number. -/
  start : ℕ → ℕ
  /-- The bytes in the buffer of the parser. -/
  held : List OriginByte
  /-- The frames that `ntrip_server_on_frame` was called with. -/
  emitted : List CutFrame

def raceInit : RaceState :=
  ⟨0, msgStaticsInit, false, Parser.init, .idle, .idle, .idle, 0, fun _ => 0, [], []⟩

/-- How many resets read the clock: the complete ones and the one under way. -/
def RaceState.begun (s : RaceState) : ℕ :=
  match s.resetter with
  | .idle | .pulse _ => s.finished
  | _ => s.finished + 1

/-- How many resets published their start time. -/
def RaceState.published (s : RaceState) : ℕ :=
  match s.resetter with
  | .idle | .pulse _ | .storeStart _ => s.finished
  | _ => s.finished + 1

/-- How many resets moved the epoch on. -/
def RaceState.bumps (s : RaceState) : ℕ :=
  match s.resetter with
  | .checkEpoch | .storeOne | .storeReq => s.finished + 1
  | _ => s.finished

/-! ### The code -/

/-- `gnss_reset_pulse` and `ntrip_server_msg_epoch_reset`.  The two waits of the pulse take together at least
one `GNSS_RESET_MS`: each of them may end a tick early. -/
def resetStep (s : RaceState) : RaceState :=
  match s.resetter with
  | .idle => { s with resetter := .pulse s.clock }
  | .pulse since =>
      if since + gnssResetMs ≤ s.clock then
        { s with
          resetter := .storeStart (UInt32.ofNat s.clock)
          start := Function.update s.start (s.finished + 1) s.clock }
      else s
  | .storeStart now =>
      { s with resetter := .loadEpoch, statics := { s.statics with epochStartedMs := now } }
  | .loadEpoch => { s with resetter := .storeEpoch s.statics.epoch }
  | .storeEpoch epoch =>
      { s with resetter := .checkEpoch, statics := { s.statics with epoch := epoch + 1 } }
  | .checkEpoch => { s with resetter := if s.statics.epoch = 0 then .storeOne else .storeReq }
  | .storeOne => { s with resetter := .storeReq, statics := { s.statics with epoch := 1 } }
  | .storeReq => { s with resetter := .idle, ingestResetReq := true, finished := s.finished + 1 }

/-- The frames of a call, with the bytes that they were cut from. -/
def cutFrames (s : RaceState) (c : UartCall) : List CutFrame :=
  (s.parser.feed c.data).2.map fun e =>
    ⟨e.2, s.clock, ((s.held ++ c.bytes).drop (e.1 - s.parser.1.offset)).take e.2.length, s.published⟩

/-- The slot that `ntrip_server_on_frame` writes. -/
def frameSlot (frame : List UInt8) : Option MsgIndex :=
  if 6 ≤ frame.length then requiredIndex (messageType frame) else none

/-- `ntrip_server_ingest_uart` and `ntrip_server_on_frame`. -/
def uartStep (s : RaceState) : RaceState :=
  match s.uart with
  | .idle => s
  | .loadReq c => { s with uart := if s.ingestResetReq then .honour c else .feed c }
  | .honour c => { s with uart := .feed c, ingestResetReq := false, parser := Parser.init, held := [] }
  | .feed c =>
      { s with
        uart := .callbacks (cutFrames s c)
        parser := (s.parser.feed c.data).1
        held := (s.held ++ c.bytes).drop
          ((s.held ++ c.bytes).length - (s.parser.feed c.data).1.1.buf.length) }
  | .callbacks [] => { s with uart := .idle }
  | .callbacks (w :: fs) =>
      match frameSlot w.frame with
      | some i =>
          { s with
            uart := .loadEpoch i fs
            statics := { s.statics with
              msgLastMs := Function.update s.statics.msgLastMs i (UInt32.ofNat w.stamp) }
            emitted := s.emitted ++ [w] }
      | none => { s with uart := .callbacks fs, emitted := s.emitted ++ [w] }
  | .loadEpoch i fs => { s with uart := .storeTag i s.statics.epoch fs }
  | .storeTag i epoch fs =>
      { s with
        uart := .callbacks fs
        statics := { s.statics with msgEpoch := Function.update s.statics.msgEpoch i epoch } }

/-- `ntrip_server_msg_freshness`. -/
def queryStep (s : RaceState) : RaceState :=
  match s.query with
  | .idle => { s with query := .loadEpoch (UInt32.ofNat s.clock) }
  | .loadEpoch now => { s with query := .loadSince now s.statics.epoch }
  | .loadSince now epoch =>
      { s with query := .loadLast 0 ⟨now, epoch, s.statics.epochStartedMs, fun _ => 0, fun _ => 0⟩ }
  | .loadLast i r =>
      { s with query := .loadTag i { r with last := Function.update r.last i (s.statics.msgLastMs i) } }
  | .loadTag i r =>
      let r := { r with tag := Function.update r.tag i (s.statics.msgEpoch i) }
      { s with query := if h : i.val + 1 < ntripRequiredMsgCount then .loadLast ⟨i.val + 1, h⟩ r
                        else .loadAgain r }
  | .loadAgain _ => { s with query := .idle }

/-- The report that the last load of a query completes. -/
def queryReport (s : RaceState) : List MsgFreshness :=
  match s.query with
  | .loadAgain r => [msgFreshnessOf r.now r.epoch r.since r.last r.tag s.statics.epoch]
  | _ => []

inductive RaceEvent where
  /-- Time goes by. -/
  | wait (ms : ℕ)
  /-- The UART task calls `ntrip_server_ingest_uart`, unless it is in a call. -/
  | call (data : List UInt8)
  | uart
  | reset
  | query

/-- A call of `ntrip_server_ingest_uart` begins. -/
def callStep (s : RaceState) (data : List UInt8) : RaceState :=
  match s.uart with
  | .idle => if data = [] then s else { s with uart := .loadReq ⟨data, s.published⟩ }
  | _ => s

def raceStep (s : RaceState) : RaceEvent → RaceState
  | .wait ms => { s with clock := s.clock + ms }
  | .call data => callStep s data
  | .uart => uartStep s
  | .reset => resetStep s
  | .query => queryStep s

def race : Machine RaceState RaceEvent MsgFreshness where
  step := raceStep
  out
    | s, .query => queryReport s
    | _, _ => []

/-- A frame of type `i` was emitted in the current epoch, and all its bytes came by calls that began after the
start time of this epoch was published. -/
def Proven (s : RaceState) (i : MsgIndex) : Prop :=
  ∃ w ∈ s.emitted, ∃ f : RtcmFrame, Carries f (ntripRequiredMsgs i) ∧ w.bytes.map Prod.fst = f.bytes ∧
    s.bumps ≤ w.published ∧ ∀ b ∈ w.bytes, s.bumps ≤ b.2

/-- Whenever a query of the run reports all fresh, every type is proven. -/
def DiscardsOld (es : List RaceEvent) : Prop :=
  ∀ before e after, es = before ++ e :: after →
    ∀ report ∈ race.out (race.run raceInit before) e, report.allFresh = true →
      ∀ i, Proven (race.run raceInit before) i

/-! ### One task alone -/

/-- A reset that nothing interrupts is `ntripServerMsgEpochReset`. -/
theorem reset_alone {s : RaceState} {since : ℕ} (hpc : s.resetter = .pulse since)
    (hwait : since + gnssResetMs ≤ s.clock) :
    ∃ n, (race.run s (List.replicate n .reset)).statics = ntripServerMsgEpochReset s.statics s.clock ∧
      (race.run s (List.replicate n .reset)).ingestResetReq = true ∧
      (race.run s (List.replicate n .reset)).resetter = .idle := by
  obtain ⟨clock, statics, req, parser, resetter, uart, query, finished, start, held, emitted⟩ := s
  cases hpc
  have hwait' : since + gnssResetMs ≤ clock := hwait
  by_cases hzero : statics.epoch + 1 = 0
  · refine ⟨7, ?_⟩
    simp [List.replicate, race, raceStep, resetStep, hwait', hzero, ntripServerMsgEpochReset, epochNext]
  · refine ⟨6, ?_⟩
    simp [List.replicate, race, raceStep, resetStep, hwait', hzero, ntripServerMsgEpochReset, epochNext]

/-- `noteMessage` by the slot of the frame. -/
theorem noteMessage_of_frameSlot (m : MsgStatics) (frame : List UInt8) (stamp : ℕ) :
    noteMessage m frame stamp =
      match frameSlot frame with
      | none => m
      | some i =>
          { m with
            msgLastMs := Function.update m.msgLastMs i (UInt32.ofNat stamp)
            msgEpoch := Function.update m.msgEpoch i m.epoch } := by
  unfold noteMessage frameSlot
  by_cases hlen : 6 ≤ frame.length
  · rw [if_pos hlen, if_pos hlen]
    cases requiredIndex (messageType frame) <;> rfl
  · rw [if_neg hlen, if_neg hlen]

/-- A call of `ntrip_server_on_frame` that nothing interrupts is `noteMessage`. -/
theorem callback_alone {s : RaceState} {w : CutFrame} {fs : List CutFrame}
    (hpc : s.uart = .callbacks (w :: fs)) :
    ∃ n, (race.run s (List.replicate n .uart)).statics = noteMessage s.statics w.frame w.stamp ∧
      (race.run s (List.replicate n .uart)).uart = .callbacks fs := by
  obtain ⟨clock, statics, req, parser, resetter, uart, query, finished, start, held, emitted⟩ := s
  cases hpc
  rw [noteMessage_of_frameSlot]
  cases hslot : frameSlot w.frame with
  | none =>
      refine ⟨1, ?_⟩
      simp [List.replicate, race, raceStep, uartStep, hslot]
  | some i =>
      refine ⟨3, ?_⟩
      simp [List.replicate, race, raceStep, uartStep, hslot]

/-- A query that nothing interrupts is `ntripServerMsgFreshness`. -/
theorem query_alone {s : RaceState} (hpc : s.query = .idle) :
    race.outputs s (List.replicate 12 .query) = [ntripServerMsgFreshness s.statics s.clock] := by
  obtain ⟨clock, statics, req, parser, resetter, uart, query, finished, start, held, emitted⟩ := s
  cases hpc
  have hall : ∀ f : MsgIndex → UInt32, Function.update (Function.update (Function.update (Function.update
      (fun _ => 0) 0 (f 0)) 1 (f 1)) 2 (f 2)) 3 (f 3) = f := by
    intro f
    funext i
    match i with
    | 0 => rfl
    | 1 => rfl
    | 2 => rfl
    | 3 => rfl
  have hlast := hall statics.msgLastMs
  have htag := hall statics.msgEpoch
  rw [ntripServerMsgFreshness]
  rw [← hlast, ← htag]
  rfl

/-! ### The parser and the origins -/

/-- **The origins follow the bytes** through the parser: into its buffer, and into the frames. -/
theorem feed_origins (p : Parser) (data : List UInt8) {bs : List OriginByte}
    (h : bs.map Prod.fst = p.1.buf ++ data) :
    (bs.drop (bs.length - (p.feed data).1.1.buf.length)).map Prod.fst = (p.feed data).1.1.buf ∧
      ∀ e ∈ (p.feed data).2, IsRtcmFrame e.2 ∧
        ((bs.drop (e.1 - p.1.offset)).take e.2.length).map Prod.fst = e.2 := by
  have hlen : bs.length = (p.1.buf ++ data).length := by rw [← h, List.length_map]
  constructor
  · have hsuffix : (p.feed data).1.1.buf <:+ p.1.buf ++ data := by
      rw [Parser.feed_val]
      exact rest_suffix rtcmFraming (p.1.buf ++ data)
    rw [List.map_drop, h, hlen]
    exact (List.suffix_iff_eq_drop.mp hsuffix).symm
  · intro e he
    rw [Parser.feed_emissions] at he
    refine ⟨isRtcmFrame_of_mem_emissions he, ?_⟩
    rw [List.map_take, List.map_drop, h]
    exact scan_place_sound_from rtcmFraming he

/-! ### What is not taken back -/

theorem bumps_le_published (s : RaceState) : s.bumps ≤ s.published := by
  cases hpc : s.resetter <;> simp [RaceState.bumps, RaceState.published, hpc]

theorem published_le_begun (s : RaceState) : s.published ≤ s.begun := by
  cases hpc : s.resetter <;> simp [RaceState.published, RaceState.begun, hpc]

/-- What stays true from `s` on. -/
structure Grows (s s' : RaceState) : Prop where
  clock : s.clock ≤ s'.clock
  begun : s.begun ≤ s'.begun
  published : s.published ≤ s'.published
  bumps : s.bumps ≤ s'.bumps
  old : ∀ k ≤ s.begun, s'.start k = s.start k
  new : ∀ k, s.begun < k → k ≤ s'.begun → s.clock ≤ s'.start k
  emitted : s.emitted ⊆ s'.emitted

/-- No reset reads the clock. -/
theorem Grows.of_start {s s' : RaceState} (hclock : s.clock ≤ s'.clock) (hbegun : s'.begun = s.begun)
    (hpublished : s.published ≤ s'.published) (hbumps : s.bumps ≤ s'.bumps)
    (hstart : s'.start = s.start) (hemitted : s.emitted ⊆ s'.emitted) : Grows s s' := by
  refine ⟨hclock, hbegun.ge, hpublished, hbumps, fun k _ => by rw [hstart], ?_, hemitted⟩
  intro k hlt hle
  rw [hbegun] at hle
  exact absurd hle (Nat.not_le.mpr hlt)

/-- The resetting task and its variables are left alone. -/
structure KeepsResets (s s' : RaceState) : Prop where
  clock : s.clock ≤ s'.clock
  resetter : s'.resetter = s.resetter
  finished : s'.finished = s.finished
  start : s'.start = s.start
  epoch : s'.statics.epoch = s.statics.epoch
  started : s'.statics.epochStartedMs = s.statics.epochStartedMs

theorem KeepsResets.begun {s s' : RaceState} (h : KeepsResets s s') : s'.begun = s.begun := by
  rw [RaceState.begun, RaceState.begun, h.resetter, h.finished]

theorem KeepsResets.published {s s' : RaceState} (h : KeepsResets s s') : s'.published = s.published := by
  rw [RaceState.published, RaceState.published, h.resetter, h.finished]

theorem KeepsResets.bumps {s s' : RaceState} (h : KeepsResets s s') : s'.bumps = s.bumps := by
  rw [RaceState.bumps, RaceState.bumps, h.resetter, h.finished]

theorem KeepsResets.refl (s : RaceState) : KeepsResets s s := ⟨Nat.le_refl _, rfl, rfl, rfl, rfl, rfl⟩

theorem uartStep_keepsResets (s : RaceState) : KeepsResets s (uartStep s) := by
  unfold uartStep
  split
  case h_6 w fs hpc =>
    split
    · exact ⟨Nat.le_refl _, rfl, rfl, rfl, rfl, rfl⟩
    · exact ⟨Nat.le_refl _, rfl, rfl, rfl, rfl, rfl⟩
  all_goals exact ⟨Nat.le_refl _, rfl, rfl, rfl, rfl, rfl⟩

theorem queryStep_keepsResets (s : RaceState) : KeepsResets s (queryStep s) := by
  unfold queryStep
  split
  all_goals exact ⟨Nat.le_refl _, rfl, rfl, rfl, rfl, rfl⟩

theorem callStep_keepsResets (s : RaceState) (data : List UInt8) : KeepsResets s (callStep s data) := by
  unfold callStep
  split
  · split
    · exact KeepsResets.refl s
    · exact ⟨Nat.le_refl _, rfl, rfl, rfl, rfl, rfl⟩
  · exact KeepsResets.refl s

/-- Only the resetting task touches its variables. -/
theorem step_keepsResets (s : RaceState) {e : RaceEvent} (he : e ≠ .reset) :
    KeepsResets s (race.step s e) := by
  cases e with
  | wait ms => exact ⟨Nat.le_add_right _ _, rfl, rfl, rfl, rfl, rfl⟩
  | call data => exact callStep_keepsResets s data
  | uart => exact uartStep_keepsResets s
  | reset => exact absurd rfl he
  | query => exact queryStep_keepsResets s

/-- The variables of the UART task are left alone. -/
structure KeepsUart (s s' : RaceState) : Prop where
  uart : s'.uart = s.uart
  parser : s'.parser = s.parser
  held : s'.held = s.held
  emitted : s'.emitted = s.emitted
  last : s'.statics.msgLastMs = s.statics.msgLastMs

theorem resetStep_keepsUart (s : RaceState) : KeepsUart s (resetStep s) := by
  unfold resetStep
  split
  case h_2 since hpc =>
    split
    · exact ⟨rfl, rfl, rfl, rfl, rfl⟩
    · exact ⟨rfl, rfl, rfl, rfl, rfl⟩
  all_goals exact ⟨rfl, rfl, rfl, rfl, rfl⟩

theorem queryStep_keepsUart (s : RaceState) : KeepsUart s (queryStep s) := by
  unfold queryStep
  split
  all_goals exact ⟨rfl, rfl, rfl, rfl, rfl⟩

/-- The resetting task does nothing. -/
theorem Grows.of_keeps {s s' : RaceState} (h : KeepsResets s s') (hemitted : s.emitted ⊆ s'.emitted) :
    Grows s s' :=
  Grows.of_start h.clock h.begun h.published.ge h.bumps.ge h.start hemitted

theorem update_start_old (start : ℕ → ℕ) {n k : ℕ} (t : ℕ) (hk : k ≤ n) :
    Function.update start (n + 1) t k = start k :=
  Function.update_of_ne (Nat.ne_of_lt (Nat.lt_succ_of_le hk)) _ _

theorem update_start_new (start : ℕ → ℕ) (n t : ℕ) : Function.update start (n + 1) t (n + 1) = t :=
  Function.update_self _ _ _

/-- Starts that are in order and have gone by stay so when the clock value is added. -/
theorem update_start_past {start : ℕ → ℕ} {n t : ℕ} (hpast : ∀ k ≤ n, start k ≤ t) :
    ∀ k ≤ n + 1, Function.update start (n + 1) t k ≤ t := by
  intro k hk
  rcases Nat.le_or_eq_of_le_succ hk with hk | rfl
  · rw [update_start_old start t hk]
    exact hpast k hk
  · rw [update_start_new]

theorem update_start_ordered {start : ℕ → ℕ} {n t : ℕ}
    (hordered : ∀ j k, j ≤ k → k ≤ n → start j ≤ start k) (hpast : ∀ k ≤ n, start k ≤ t) :
    ∀ j k, j ≤ k → k ≤ n + 1 → Function.update start (n + 1) t j ≤ Function.update start (n + 1) t k := by
  intro j k hjk hk
  rcases Nat.le_or_eq_of_le_succ hk with hk | rfl
  · rw [update_start_old start t hk, update_start_old start t (hjk.trans hk)]
    exact hordered j k hjk hk
  · rw [update_start_new]
    exact update_start_past hpast j hjk

theorem resetStep_grows (s : RaceState) : Grows s (resetStep s) := by
  unfold resetStep
  split
  case h_2 since hpc =>
    split
    · -- a reset reads the clock
      refine ⟨Nat.le_refl _, ?_, ?_, ?_, ?_, ?_, List.Subset.refl _⟩
      · simp [RaceState.begun, hpc]
      · simp [RaceState.published, hpc]
      · simp [RaceState.bumps, hpc]
      · intro k hk
        rw [RaceState.begun, hpc] at hk
        exact update_start_old s.start s.clock hk
      · intro k hlt hle
        -- the new start is the clock value
        have heq : k = s.finished + 1 := by
          rw [RaceState.begun, hpc] at hlt
          exact Nat.le_antisymm hle hlt
        have hnew := update_start_new s.start s.finished s.clock
        rw [heq]
        exact Nat.le_of_eq hnew.symm
    · exact Grows.of_keeps (KeepsResets.refl s) (List.Subset.refl _)
  case h_6 hpc =>
    split
    all_goals
      refine Grows.of_start (Nat.le_refl _) ?_ ?_ ?_ rfl (List.Subset.refl _)
      · simp [RaceState.begun, hpc]
      · simp [RaceState.published, hpc]
      · simp [RaceState.bumps, hpc]
  all_goals
    rename_i hpc
    refine Grows.of_start (Nat.le_refl _) ?_ ?_ ?_ rfl (List.Subset.refl _)
    · simp [RaceState.begun, hpc]
    · simp [RaceState.published, hpc]
    · simp [RaceState.bumps, hpc]

theorem uartStep_emitted (s : RaceState) : s.emitted ⊆ (uartStep s).emitted := by
  unfold uartStep
  split
  case h_6 w fs hpc =>
    split
    · exact List.subset_append_left _ _
    · exact List.subset_append_left _ _
  all_goals exact List.Subset.refl _

theorem callStep_emitted (s : RaceState) (data : List UInt8) : (callStep s data).emitted = s.emitted := by
  unfold callStep
  split
  · split <;> rfl
  · rfl

theorem step_grows (s : RaceState) (e : RaceEvent) : Grows s (race.step s e) := by
  cases e with
  | wait ms => exact Grows.of_keeps (step_keepsResets s nofun) (List.Subset.refl _)
  | call data =>
      refine Grows.of_keeps (step_keepsResets s nofun) ?_
      show s.emitted ⊆ (callStep s data).emitted
      rw [callStep_emitted]
      exact List.Subset.refl _
  | uart => exact Grows.of_keeps (uartStep_keepsResets s) (uartStep_emitted s)
  | reset => exact resetStep_grows s
  | query =>
      apply Grows.of_keeps (queryStep_keepsResets s)
      show s.emitted ⊆ (queryStep s).emitted
      rw [(queryStep_keepsUart s).emitted]
      exact List.Subset.refl _

/-! ### The resetting task -/

/-- What the resetting task has in its hands. -/
def ResetterOk (s : RaceState) : Prop :=
  match s.resetter with
  | .pulse since => s.finished ≤ since ∧ since ≤ s.clock
  | .storeStart now => now = UInt32.ofNat (s.start (s.finished + 1))
  | .storeEpoch epoch => epoch = epochOf s.finished
  | .storeOne => False
  | _ => True

/-- The statics of the epoch, and the clock values that the resets read. -/
structure Resets (s : RaceState) : Prop where
  epoch : s.statics.epoch = epochOf s.bumps
  started : s.statics.epochStartedMs = UInt32.ofNat (s.start s.published)
  ordered : ∀ j k, j ≤ k → k ≤ s.begun → s.start j ≤ s.start k
  past : ∀ k ≤ s.begun, s.start k ≤ s.clock
  few : s.begun ≤ s.clock
  pc : ResetterOk s

theorem resets_init : Resets raceInit :=
  ⟨by decide, rfl, fun _ _ _ _ => Nat.le_refl _, fun _ _ => Nat.le_refl _, Nat.le_refl _, trivial⟩

/-- The other tasks leave all this as it is, and time goes by. -/
theorem Resets.of_keeps {s s' : RaceState} (h : Resets s) (hk : KeepsResets s s') : Resets s' := by
  refine ⟨?_, ?_, ?_, ?_, ?_, ?_⟩
  · rw [hk.epoch, hk.bumps]
    exact h.epoch
  · rw [hk.started, hk.start, hk.published]
    exact h.started
  · rw [hk.begun, hk.start]
    exact h.ordered
  · intro k hle
    rw [hk.begun] at hle
    rw [hk.start]
    exact (h.past k hle).trans hk.clock
  · rw [hk.begun]
    exact h.few.trans hk.clock
  · have hold := h.pc
    rw [ResetterOk] at hold ⊢
    rw [hk.resetter, hk.finished, hk.start]
    cases hcase : s.resetter with
    | pulse since =>
        rw [hcase] at hold
        exact ⟨hold.1, hold.2.trans hk.clock⟩
    | _ =>
        rw [hcase] at hold
        exact hold

/-- The epoch number after a reset, before it has come round. -/
theorem epochOf_add_one {n : ℕ} (h : n + 2 < 2 ^ 32) : epochOf n + 1 = epochOf (n + 1) := by
  have hone : (1 : UInt32).toNat = 1 := rfl
  have hsucc : (epochOf n + 1).toNat = n + 2 := by
    rw [UInt32.toNat_add, epochOf_toNat, hone]
    omega
  have hne : epochOf n + 1 ≠ 0 := by
    intro hzero
    rw [hzero] at hsucc
    exact absurd hsucc (by simp)
  rw [← epochNext_epochOf, epochNext, if_neg hne]

theorem epochOf_inj {k n : ℕ} (hle : k ≤ n) (hn : n < 2 ^ 32 - 1) (h : epochOf k = epochOf n) : k = n := by
  have hdvd := (epochOf_eq_iff hle).mp h
  have hzero : n - k = 0 := Nat.eq_zero_of_dvd_of_lt hdvd (by omega)
  omega

/-- **One access of the resetting task.** -/
theorem Resets.reset {s : RaceState} (h : Resets s) (hshort : s.clock < 2 ^ 31) : Resets (resetStep s) := by
  have hepoch := h.epoch
  have hstarted := h.started
  have hordered := h.ordered
  have hpast := h.past
  have hfew := h.few
  have hpc := h.pc
  rw [ResetterOk] at hpc
  rw [RaceState.bumps] at hepoch
  rw [RaceState.published] at hstarted
  rw [RaceState.begun] at hordered hpast hfew
  unfold resetStep
  cases hcase : s.resetter with
  | idle =>
      rw [hcase] at hepoch hstarted hordered hpast hfew
      exact ⟨hepoch, hstarted, hordered, hpast, hfew, hfew, Nat.le_refl _⟩
  | pulse since =>
      rw [hcase] at hepoch hstarted hordered hpast hfew hpc
      dsimp only at hepoch hstarted hordered hpast hfew hpc ⊢
      by_cases hwait : since + gnssResetMs ≤ s.clock
      · rw [if_pos hwait]
        refine ⟨hepoch, ?_, update_start_ordered hordered hpast, update_start_past hpast, ?_, ?_⟩
        · exact hstarted.trans (congrArg UInt32.ofNat (update_start_old s.start s.clock (Nat.le_refl _)).symm)
        · show s.finished + 1 ≤ s.clock
          rw [gnssResetMs] at hwait
          omega
        · exact congrArg UInt32.ofNat (update_start_new s.start s.finished s.clock).symm
      · rw [if_neg hwait]
        exact h
  | storeStart now =>
      rw [hcase] at hepoch hstarted hordered hpast hfew hpc
      exact ⟨hepoch, hpc, hordered, hpast, hfew, trivial⟩
  | loadEpoch =>
      rw [hcase] at hepoch hstarted hordered hpast hfew
      exact ⟨hepoch, hstarted, hordered, hpast, hfew, hepoch⟩
  | storeEpoch epoch =>
      rw [hcase] at hepoch hstarted hordered hpast hfew hpc
      have hnext : epoch + 1 = epochOf (s.finished + 1) := by
        rw [show epoch = epochOf s.finished from hpc]
        exact epochOf_add_one (by dsimp only at hfew; omega)
      exact ⟨hnext, hstarted, hordered, hpast, hfew, trivial⟩
  | checkEpoch =>
      rw [hcase] at hepoch hstarted hordered hpast hfew
      have hne : s.statics.epoch ≠ 0 := by
        rw [hepoch]
        exact epochOf_ne_zero _
      dsimp only
      rw [if_neg hne]
      exact ⟨hepoch, hstarted, hordered, hpast, hfew, trivial⟩
  | storeOne =>
      rw [hcase] at hpc
      exact absurd hpc id
  | storeReq =>
      rw [hcase] at hepoch hstarted hordered hpast hfew
      exact ⟨hepoch, hstarted, hordered, hpast, hfew, trivial⟩

/-! ### The UART task -/

/-- A cut frame has a right checksum, and it is not stamped later than the start of a reset that has an origin
of its bytes before its publication. -/
structure Genuine (s : RaceState) (w : CutFrame) : Prop where
  frame : IsRtcmFrame w.frame
  bytes : w.bytes.map Prod.fst = w.frame
  stamp : w.stamp ≤ s.clock
  published : ∀ b ∈ w.bytes, b.2 ≤ w.published
  current : ∀ k ≤ s.begun, s.start k < w.stamp → ∀ b ∈ w.bytes, k ≤ b.2

theorem Genuine.grow {s s' : RaceState} {w : CutFrame} (h : Genuine s w) (hg : Grows s s') :
    Genuine s' w := by
  refine ⟨h.frame, h.bytes, h.stamp.trans hg.clock, h.published, ?_⟩
  intro k hk hlt
  by_cases hold : k ≤ s.begun
  · rw [hg.old k hold] at hlt
    exact h.current k hold hlt
  · -- a reset that began since read the clock after the stamp
    have hlate := hg.new k (Nat.lt_of_not_le hold) hk
    have hstamp := h.stamp
    omega

/-- A stored time is that of an emitted frame of the type, if there was one. -/
def Stamped (ws : List CutFrame) (i : MsgIndex) (v : UInt32) : Prop :=
  v = 0 ∨ ∃ w ∈ ws, v = UInt32.ofNat w.stamp ∧ frameSlot w.frame = some i

theorem Stamped.mono {ws ws' : List CutFrame} {i : MsgIndex} {v : UInt32} (h : Stamped ws i v)
    (hsub : ws ⊆ ws') : Stamped ws' i v :=
  h.imp_right fun ⟨w, hw, hv⟩ => ⟨w, hsub hw, hv⟩

/-- The call that the UART task is in, before the parser is fed. -/
def UartPc.calls : UartPc → List UartCall
  | .loadReq c | .honour c | .feed c => [c]
  | _ => []

/-- The frames that are still to be handed to `ntrip_server_on_frame`. -/
def UartPc.pending : UartPc → List CutFrame
  | .callbacks fs | .loadEpoch _ fs | .storeTag _ _ fs => fs
  | _ => []

/-- What the UART task has in its hands, and what it left. -/
structure Frames (s : RaceState) : Prop where
  held : s.held.map Prod.fst = s.parser.1.buf
  origin : ∀ b ∈ s.held, b.2 ≤ s.published
  calls : ∀ c ∈ s.uart.calls, c.origin ≤ s.published
  pending : ∀ w ∈ s.uart.pending, Genuine s w
  emitted : ∀ w ∈ s.emitted, Genuine s w
  last : ∀ i, Stamped s.emitted i (s.statics.msgLastMs i)

theorem frames_init : Frames raceInit := by
  refine ⟨rfl, ?_, ?_, ?_, ?_, fun i => Or.inl rfl⟩
  · exact List.forall_mem_nil _
  · exact List.forall_mem_nil _
  · exact List.forall_mem_nil _
  · exact List.forall_mem_nil _

/-- Nothing of this changes but what the UART task does next. -/
theorem Frames.of_same {s s' : RaceState} (h : Frames s) (hg : Grows s s') (hparser : s'.parser = s.parser)
    (hheld : s'.held = s.held) (hemitted : s'.emitted = s.emitted)
    (hlast : s'.statics.msgLastMs = s.statics.msgLastMs)
    (hcalls : ∀ c ∈ s'.uart.calls, c.origin ≤ s'.published)
    (hpending : s'.uart.pending ⊆ s.uart.pending) : Frames s' := by
  refine ⟨?_, ?_, hcalls, ?_, ?_, ?_⟩
  · rw [hheld, hparser]
    exact h.held
  · intro b hb
    rw [hheld] at hb
    exact (h.origin b hb).trans hg.published
  · intro w hw
    exact (h.pending w (hpending hw)).grow hg
  · intro w hw
    rw [hemitted] at hw
    exact (h.emitted w hw).grow hg
  · intro i
    rw [hemitted, hlast]
    exact h.last i

/-- The other tasks leave all this as it is. -/
theorem Frames.of_keeps {s s' : RaceState} (h : Frames s) (hk : KeepsUart s s') (hg : Grows s s') :
    Frames s' := by
  refine h.of_same hg hk.parser hk.held hk.emitted hk.last ?_ ?_
  · intro c hc
    rw [hk.uart] at hc
    exact (h.calls c hc).trans hg.published
  · rw [hk.uart]
    exact List.Subset.refl _

/-- The call that is about to read the clock. -/
def UartPc.feeding : UartPc → List UartCall
  | .feed c => [c]
  | _ => []

/-- What reset `k` published its start before: the bytes of the call, and the bytes that the parser holds. -/
def HandedSince (s : RaceState) (c : UartCall) (k : ℕ) : Prop := k ≤ c.origin ∧ ∀ b ∈ s.held, k ≤ b.2

instance (s : RaceState) (c : UartCall) (k : ℕ) : Decidable (HandedSince s c k) :=
  inferInstanceAs (Decidable (_ ∧ _))

/-- No call reads a clock value later than that of a reset while it has bytes from before its publication. -/
def OutsideWindow (s : RaceState) : RaceEvent → Prop
  | .uart => ∀ c ∈ s.uart.feeding, ∀ k ≤ s.begun, s.start k < s.clock → HandedSince s c k
  | _ => True

instance (s : RaceState) : (e : RaceEvent) → Decidable (OutsideWindow s e)
  | .uart => inferInstanceAs (Decidable (∀ c ∈ s.uart.feeding, ∀ k ≤ s.begun,
      s.start k < s.clock → HandedSince s c k))
  | .wait _ | .call _ | .reset | .query => isTrue trivial

theorem UartCall.origin_of_mem {c : UartCall} {b : OriginByte} (h : b ∈ c.bytes) : b.2 = c.origin := by
  obtain ⟨a, _, rfl⟩ := List.mem_map.mp h
  rfl

theorem UartCall.bytes_fst (c : UartCall) : c.bytes.map Prod.fst = c.data := by
  rw [UartCall.bytes, List.map_map]
  exact List.map_id _

/-- The bytes that a call feeds came by calls that began before now. -/
theorem Frames.origin_le {s : RaceState} (h : Frames s) {c : UartCall} (hpc : s.uart = .feed c)
    {b : OriginByte} (hb : b ∈ s.held ++ c.bytes) : b.2 ≤ s.published := by
  rcases List.mem_append.mp hb with hb | hb
  · exact h.origin b hb
  · rw [UartCall.origin_of_mem hb]
    exact h.calls c (by rw [hpc]; exact List.mem_singleton.mpr rfl)

/-- A call cuts out frames that are genuine, if it reads the clock outside the window. -/
theorem Frames.cut {s : RaceState} (h : Frames s) {c : UartCall} (hpc : s.uart = .feed c)
    (hwindow : OutsideWindow s .uart) : ∀ w ∈ cutFrames s c, Genuine s w := by
  have hfeed : c ∈ s.uart.feeding := by
    rw [hpc]
    exact List.mem_singleton.mpr rfl
  have hbytes : (s.held ++ c.bytes).map Prod.fst = s.parser.1.buf ++ c.data := by
    rw [List.map_append, h.held, c.bytes_fst]
  obtain ⟨_, hcut⟩ := feed_origins s.parser c.data hbytes
  intro w hw
  obtain ⟨e, he, rfl⟩ := List.mem_map.mp hw
  obtain ⟨hframe, hmap⟩ := hcut e he
  have hsub : ∀ b ∈ ((s.held ++ c.bytes).drop (e.1 - s.parser.1.offset)).take e.2.length,
      b ∈ s.held ++ c.bytes := fun b hb => List.mem_of_mem_drop (List.mem_of_mem_take hb)
  refine ⟨hframe, hmap, Nat.le_refl _, fun b hb => h.origin_le hpc (hsub b hb), ?_⟩
  intro k hk hlt b hb
  obtain ⟨hcall, hheld⟩ := hwindow c hfeed k hk hlt
  rcases List.mem_append.mp (hsub b hb) with hb | hb
  · exact hheld b hb
  · rw [UartCall.origin_of_mem hb]
    exact hcall

/-- A call of `ntrip_server_on_frame` for a frame of a required type. -/
theorem Frames.stamp {s : RaceState} (h : Frames s) {w : CutFrame} {i : MsgIndex}
    (hslot : frameSlot w.frame = some i) (j : MsgIndex) :
    Stamped (s.emitted ++ [w]) j
      (Function.update s.statics.msgLastMs i (UInt32.ofNat w.stamp) j) := by
  by_cases hj : j = i
  · rw [hj, Function.update_self]
    exact Or.inr ⟨w, List.mem_append_right _ (List.mem_singleton.mpr rfl), rfl, hslot⟩
  · rw [Function.update_of_ne hj]
    exact (h.last j).mono (List.subset_append_left _ _)

/-- **One access of the UART task.** -/
theorem Frames.uart {s : RaceState} (h : Frames s) (hwindow : OutsideWindow s .uart) :
    Frames (uartStep s) := by
  have hg : Grows s (uartStep s) := step_grows s .uart
  have hcalls := h.calls
  have hpending := h.pending
  have hcut := fun c hpc => h.cut (c := c) hpc hwindow
  have horigin := fun c hpc b => h.origin_le (c := c) (b := b) hpc
  unfold uartStep at hg ⊢
  cases hcase : s.uart with
  | idle => exact h
  | loadReq c =>
      rw [hcase] at hcalls hg
      dsimp only at hg ⊢
      have hc : c.origin ≤ s.published := hcalls c (List.mem_singleton.mpr rfl)
      refine h.of_same hg rfl rfl rfl rfl ?_ ?_
      · intro c' hc'
        have hcall : c' = c := by
          dsimp only at hc'
          split at hc'
          · exact List.mem_singleton.mp hc'
          · exact List.mem_singleton.mp hc'
        rw [hcall]
        exact hc.trans hg.published
      · dsimp only
        split
        · exact List.nil_subset _
        · exact List.nil_subset _
  | honour c =>
      rw [hcase] at hcalls hg
      dsimp only at hg ⊢
      refine ⟨rfl, List.forall_mem_nil _, ?_,
        List.forall_mem_nil _, fun w hw => (h.emitted w hw).grow hg, h.last⟩
      intro c' hc'
      exact (hcalls c' hc').trans hg.published
  | feed c =>
      rw [hcase] at hg
      dsimp only at hg ⊢
      have hbytes : (s.held ++ c.bytes).map Prod.fst = s.parser.1.buf ++ c.data := by
        rw [List.map_append, h.held, c.bytes_fst]
      refine ⟨(feed_origins s.parser c.data hbytes).1, ?_,
        fun c' hc' => absurd hc' List.not_mem_nil, fun w hw => (hcut c hcase w hw).grow hg,
        fun w hw => (h.emitted w hw).grow hg, h.last⟩
      intro b hb
      exact (horigin c hcase b (List.mem_of_mem_drop hb)).trans hg.published
  | callbacks fs =>
      rw [hcase] at hpending hg
      cases fs with
      | nil => exact h.of_same hg rfl rfl rfl rfl (List.forall_mem_nil _) (List.nil_subset _)
      | cons w fs =>
          have hw : Genuine s w := hpending w List.mem_cons_self
          have hemitted : ∀ v ∈ s.emitted ++ [w], Genuine s v := by
            intro v hv
            rcases List.mem_append.mp hv with hv | hv
            · exact h.emitted v hv
            · rw [List.mem_singleton.mp hv]
              exact hw
          have hrest : ∀ v ∈ fs, Genuine s v := fun v hv => hpending v (List.mem_cons_of_mem _ hv)
          dsimp only at hg ⊢
          cases hslot : frameSlot w.frame with
          | none =>
              rw [hslot] at hg
              exact ⟨h.held, fun b hb => (h.origin b hb).trans hg.published,
                List.forall_mem_nil _, fun v hv => (hrest v hv).grow hg,
                fun v hv => (hemitted v hv).grow hg,
                fun i => (h.last i).mono (List.subset_append_left _ _)⟩
          | some i =>
              rw [hslot] at hg
              exact ⟨h.held, fun b hb => (h.origin b hb).trans hg.published,
                List.forall_mem_nil _, fun v hv => (hrest v hv).grow hg,
                fun v hv => (hemitted v hv).grow hg, h.stamp hslot⟩
  | loadEpoch i fs =>
      rw [hcase] at hg
      apply h.of_same hg rfl rfl rfl rfl (List.forall_mem_nil _)
      rw [hcase]
      exact List.Subset.refl _
  | storeTag i epoch fs =>
      rw [hcase] at hg
      apply h.of_same hg rfl rfl rfl rfl (List.forall_mem_nil _)
      rw [hcase]
      exact List.Subset.refl _

/-! ### The reader -/

/-- What a query has read: an epoch that is current or past, a start time that is not older than it, and
times of emitted frames. -/
structure Coherent (s : RaceState) (r : Reading) (k j : ℕ) : Prop where
  reached : k ≤ s.bumps
  newer : k ≤ j
  published : j ≤ s.published
  epoch : r.epoch = epochOf k
  since : r.since = UInt32.ofNat (s.start j)
  last : ∀ i, Stamped s.emitted i (r.last i)

/-- What the reader has in its hands. -/
def Reads (s : RaceState) : QueryPc → Prop
  | .idle | .loadEpoch _ => True
  | .loadSince _ epoch => ∃ k ≤ s.bumps, epoch = epochOf k
  | .loadLast _ r | .loadTag _ r | .loadAgain r => ∃ k j, Coherent s r k j

theorem Coherent.grow {s s' : RaceState} {r : Reading} {k j : ℕ} (h : Coherent s r k j) (hg : Grows s s') :
    Coherent s' r k j := by
  refine ⟨h.reached.trans hg.bumps, h.newer, h.published.trans hg.published, h.epoch, ?_,
    fun i => (h.last i).mono hg.emitted⟩
  rw [hg.old j (h.published.trans (published_le_begun s))]
  exact h.since

theorem Reads.grow {s s' : RaceState} {pc : QueryPc} (h : Reads s pc) (hg : Grows s s') : Reads s' pc := by
  cases pc with
  | idle => trivial
  | loadEpoch now => trivial
  | loadSince now epoch =>
      obtain ⟨k, hk, hepoch⟩ := h
      exact ⟨k, hk.trans hg.bumps, hepoch⟩
  | loadLast i r =>
      obtain ⟨k, j, hr⟩ := h
      exact ⟨k, j, hr.grow hg⟩
  | loadTag i r =>
      obtain ⟨k, j, hr⟩ := h
      exact ⟨k, j, hr.grow hg⟩
  | loadAgain r =>
      obtain ⟨k, j, hr⟩ := h
      exact ⟨k, j, hr.grow hg⟩

/-- **One access of the reader.** -/
theorem Reads.query {s : RaceState} (h : Reads s s.query) (hresets : Resets s) (hframes : Frames s) :
    Reads s (queryStep s).query := by
  unfold queryStep
  cases hcase : s.query with
  | idle => trivial
  | loadEpoch now => exact ⟨s.bumps, Nat.le_refl _, hresets.epoch⟩
  | loadSince now epoch =>
      rw [hcase] at h
      obtain ⟨k, hk, hepoch⟩ := h
      -- the start time is published before the epoch moves on
      exact ⟨k, s.published, hk, hk.trans (bumps_le_published s), Nat.le_refl _, hepoch, hresets.started,
        fun i => Or.inl rfl⟩
  | loadLast i r =>
      rw [hcase] at h
      obtain ⟨k, j, hr⟩ := h
      refine ⟨k, j, hr.reached, hr.newer, hr.published, hr.epoch, hr.since, ?_⟩
      intro i'
      show Stamped s.emitted i' (Function.update r.last i (s.statics.msgLastMs i) i')
      by_cases hi : i' = i
      · rw [hi, Function.update_self]
        exact hframes.last i
      · rw [Function.update_of_ne hi]
        exact hr.last i'
  | loadTag i r =>
      rw [hcase] at h
      obtain ⟨k, j, hr⟩ := h
      dsimp only
      split
      · exact ⟨k, j, hr.reached, hr.newer, hr.published, hr.epoch, hr.since, hr.last⟩
      · exact ⟨k, j, hr.reached, hr.newer, hr.published, hr.epoch, hr.since, hr.last⟩
  | loadAgain r => trivial

/-! ### Whole runs -/

structure RaceInv (s : RaceState) : Prop where
  resets : Resets s
  frames : Frames s
  reads : Reads s s.query

theorem raceInv_init : RaceInv raceInit := ⟨resets_init, frames_init, trivial⟩

theorem Frames.call {s : RaceState} (h : Frames s) (data : List UInt8) : Frames (callStep s data) := by
  have hg : Grows s (callStep s data) := step_grows s (.call data)
  unfold callStep at hg ⊢
  split
  · split
    · exact h
    · refine h.of_same (Grows.of_keeps ⟨Nat.le_refl _, rfl, rfl, rfl, rfl, rfl⟩ (List.Subset.refl _)) rfl rfl
        rfl rfl ?_ (List.nil_subset _)
      intro c hc
      rw [List.mem_singleton.mp hc]
      exact Nat.le_refl _
  · exact h

theorem callStep_query (s : RaceState) (data : List UInt8) : (callStep s data).query = s.query := by
  unfold callStep
  split
  · split <;> rfl
  · rfl

theorem uartStep_query (s : RaceState) : (uartStep s).query = s.query := by
  unfold uartStep
  split
  case h_6 w fs hpc => split <;> rfl
  all_goals rfl

theorem resetStep_query (s : RaceState) : (resetStep s).query = s.query := by
  unfold resetStep
  split
  case h_2 since hpc => split <;> rfl
  all_goals rfl

/-- **One event.** -/
theorem raceInv_step {s : RaceState} (h : RaceInv s) {e : RaceEvent} (hshort : s.clock < 2 ^ 31)
    (hwindow : OutsideWindow s e) : RaceInv (race.step s e) := by
  have hg := step_grows s e
  have hreads := h.reads.grow hg
  cases e with
  | wait ms =>
      exact ⟨h.resets.of_keeps (step_keepsResets s nofun), h.frames.of_keeps ⟨rfl, rfl, rfl, rfl, rfl⟩ hg,
        hreads⟩
  | call data =>
      refine ⟨h.resets.of_keeps (step_keepsResets s nofun), h.frames.call data, ?_⟩
      show Reads (race.step s (.call data)) (callStep s data).query
      rw [callStep_query]
      exact hreads
  | uart =>
      refine ⟨h.resets.of_keeps (step_keepsResets s nofun), h.frames.uart hwindow, ?_⟩
      show Reads (race.step s .uart) (uartStep s).query
      rw [uartStep_query]
      exact hreads
  | reset =>
      refine ⟨h.resets.reset hshort, h.frames.of_keeps (resetStep_keepsUart s) hg, ?_⟩
      show Reads (race.step s .reset) (resetStep s).query
      rw [resetStep_query]
      exact hreads
  | query =>
      exact ⟨h.resets.of_keeps (step_keepsResets s nofun), h.frames.of_keeps (queryStep_keepsUart s) hg,
        (h.reads.query h.resets h.frames).grow hg⟩

theorem run_clock_le (s : RaceState) (es : List RaceEvent) : s.clock ≤ (race.run s es).clock := by
  induction es generalizing s with
  | nil => exact Nat.le_refl _
  | cons e es ih => exact (step_grows s e).clock.trans (ih (race.step s e))

theorem run_raceInv {s : RaceState} {es : List RaceEvent} (h : RaceInv s)
    (hwindow : race.Admits OutsideWindow s es) (hshort : (race.run s es).clock < 2 ^ 31) :
    RaceInv (race.run s es) := by
  induction es generalizing s with
  | nil => exact h
  | cons e es ih =>
      have hclock : s.clock < 2 ^ 31 := Nat.lt_of_le_of_lt (run_clock_le s (e :: es)) hshort
      exact ih (raceInv_step h hclock hwindow.1) hwindow.2 hshort

/-- In a short run the sign of a difference tells which reading is later. -/
theorem lt_of_after32 {now stamp : ℕ} (h : after32 now stamp) (hstamp : stamp < 2 ^ 31) : stamp < now := by
  by_contra hge
  have hle : now ≤ stamp := Nat.le_of_not_lt hge
  have hfar := (after32_of_ge hle).mp h
  rw [Nat.mod_eq_of_lt (by omega)] at hfar
  omega

theorem carries_of_frameSlot {f : RtcmFrame} {i : MsgIndex} (h : frameSlot f.bytes = some i) :
    Carries f (ntripRequiredMsgs i) := by
  have hlen : 6 ≤ f.bytes.length := (IsRtcmFrame.length_bounds ⟨f, rfl⟩).1
  rw [frameSlot, if_pos hlen] at h
  exact (messageType_carries f i).mp (requiredIndex_eq_some_iff.mp h)

/-- **A report that all is fresh** is proven by the frames that the reader saw the times of. -/
theorem RaceInv.proven {s : RaceState} (h : RaceInv s) (hshort : s.clock < 2 ^ 31) {report : MsgFreshness}
    (hreport : report ∈ queryReport s) (hfresh : report.allFresh = true) (i : MsgIndex) : Proven s i := by
  have hreads := h.reads
  unfold queryReport at hreport
  cases hcase : s.query with
  | loadAgain r =>
      rw [hcase] at hreport hreads
      obtain ⟨k, j, hr⟩ := hreads
      rw [List.mem_singleton.mp hreport, allFresh_eq_true_iff] at hfresh
      obtain ⟨hall, hagain⟩ := hfresh
      obtain ⟨_, hlater, _⟩ := fresh_eq_true_iff.mp (hall i)
      have hbegun : s.bumps ≤ s.begun := (bumps_le_published s).trans (published_le_begun s)
      have hfew := h.resets.few
      -- the epoch did not move on while the reader was reading
      have hk : k = s.bumps := by
        apply epochOf_inj hr.reached (by omega)
        rw [← hr.epoch, ← hagain]
        exact h.resets.epoch
      have hj : j ≤ s.begun := hr.published.trans (published_le_begun s)
      have hpast := h.resets.past j hj
      rw [hr.since] at hlater
      rcases hr.last i with hzero | ⟨w, hw, hlast, hslot⟩
      · rw [hzero] at hlater
        have hnever : after32 0 (s.start j) := hlater
        exact absurd (lt_of_after32 hnever (by omega)) (Nat.not_lt_zero _)
      · rw [hlast] at hlater
        have hstamp := lt_of_after32 hlater (by omega)
        have hgenuine := h.frames.emitted w hw
        obtain ⟨f, hf⟩ := hgenuine.frame
        have hcurrent : ∀ b ∈ w.bytes, s.bumps ≤ b.2 := fun b hb =>
          hk ▸ hr.newer.trans (hgenuine.current j hj hstamp b hb)
        refine ⟨w, hw, f, carries_of_frameSlot (hf ▸ hslot), hgenuine.bytes.trans hf.symm, ?_, hcurrent⟩
        have hne : w.bytes ≠ [] := by
          intro hnil
          have hempty : w.frame = [] := by rw [← hgenuine.bytes, hnil, List.map_nil]
          exact absurd (hf.trans hempty) (List.cons_ne_nil _ _)
        obtain ⟨b, hb⟩ := List.exists_mem_of_ne_nil w.bytes hne
        exact (hcurrent b hb).trans (hgenuine.published b hb)
  | _ =>
      rw [hcase] at hreport
      exact absurd hreport List.not_mem_nil

/-- **A reset discards the old evidence** in every run of less than `2 ^ 31` ms in which no call reads the clock
in the window of a reset. -/
theorem discardsOld_of_admits (es : List RaceEvent) (hwindow : race.Admits OutsideWindow raceInit es)
    (hshort : (race.run raceInit es).clock < 2 ^ 31) : DiscardsOld es := by
  intro before e after hes report hreport hfresh i
  rw [hes] at hwindow hshort
  have hbefore := ((race.admits_append OutsideWindow raceInit before (e :: after)).mp hwindow).1
  rw [Machine.run_append] at hshort
  have hclock : (race.run raceInit before).clock < 2 ^ 31 :=
    Nat.lt_of_le_of_lt (run_clock_le _ _) hshort
  have hinv := run_raceInv raceInv_init hbefore hclock
  cases e with
  | query => exact hinv.proven hclock hreport hfresh i
  | _ => exact absurd hreport List.not_mem_nil

/-! ### Calls that do not overlap a reset -/

/-- A call begins while no reset is under way, and a reset goes on while the UART task is in no call. -/
def Apart (s : RaceState) : RaceEvent → Prop
  | .call _ => s.begun = s.finished
  | .reset => s.resetter = .idle ∨ s.uart = .idle
  | _ => True

/-- Between calls the request flag stands for what the parser holds. -/
structure ApartInv (s : RaceState) : Prop where
  busy : s.uart = .idle ∨ s.begun = s.finished
  flag : s.ingestResetReq = true ∨ ∀ b ∈ s.held, s.finished ≤ b.2
  calls : ∀ c ∈ s.uart.calls, s.finished ≤ c.origin
  feeding : ∀ c ∈ s.uart.feeding, ∀ b ∈ s.held, s.finished ≤ b.2

theorem finished_le_published (s : RaceState) : s.finished ≤ s.published := by
  cases hpc : s.resetter <;> simp [RaceState.published, hpc]

/-- The UART task is in no call, or past its clock reading. -/
theorem ApartInv.past {s s' : RaceState} (h : ApartInv s) (hreq : s'.ingestResetReq = s.ingestResetReq)
    (hheld : s'.held = s.held) (hfinished : s'.finished = s.finished)
    (hbusy : s'.uart = .idle ∨ s'.begun = s'.finished) (hcalls : s'.uart.calls = [])
    (hfeeding : s'.uart.feeding = []) : ApartInv s' := by
  refine ⟨hbusy, ?_, ?_, ?_⟩
  · rw [hreq, hheld, hfinished]
    exact h.flag
  · intro c hc
    rw [hcalls] at hc
    exact absurd hc List.not_mem_nil
  · intro c hc
    rw [hfeeding] at hc
    exact absurd hc List.not_mem_nil

theorem ApartInv.uart {s : RaceState} (h : ApartInv s) : ApartInv (uartStep s) := by
  have hbegun : (uartStep s).begun = (uartStep s).finished ∨ s.uart = .idle := by
    rw [(uartStep_keepsResets s).begun, (uartStep_keepsResets s).finished]
    exact h.busy.symm
  have hcalls := h.calls
  have hfeeding := h.feeding
  unfold uartStep at hbegun ⊢
  cases hcase : s.uart with
  | idle => exact h
  | loadReq c =>
      rw [hcase] at hcalls hbegun
      have hbusy := hbegun.resolve_right nofun
      cases hreq : s.ingestResetReq with
      | true =>
          rw [hreq] at hbusy
          exact ⟨Or.inr hbusy, Or.inl rfl, hcalls, List.forall_mem_nil _⟩
      | false =>
          rw [hreq] at hbusy
          have hheld := h.flag.resolve_left (by rw [hreq]; nofun)
          exact ⟨Or.inr hbusy, Or.inr hheld, hcalls, fun _ _ => hheld⟩
  | honour c =>
      rw [hcase] at hcalls hbegun
      exact ⟨Or.inr (hbegun.resolve_right nofun), Or.inr (List.forall_mem_nil _), hcalls,
        fun _ _ b hb => absurd hb List.not_mem_nil⟩
  | feed c =>
      rw [hcase] at hcalls hfeeding hbegun
      refine ⟨Or.inr (hbegun.resolve_right nofun), Or.inr ?_,
        List.forall_mem_nil _, List.forall_mem_nil _⟩
      intro b hb
      rcases List.mem_append.mp (List.mem_of_mem_drop hb) with hb | hb
      · exact hfeeding c (List.mem_singleton.mpr rfl) b hb
      · rw [UartCall.origin_of_mem hb]
        exact hcalls c (List.mem_singleton.mpr rfl)
  | callbacks fs =>
      rw [hcase] at hbegun
      cases fs with
      | nil => exact h.past rfl rfl rfl (Or.inl rfl) rfl rfl
      | cons w fs =>
          dsimp only at hbegun ⊢
          cases hslot : frameSlot w.frame with
          | none =>
              rw [hslot] at hbegun
              exact h.past rfl rfl rfl (Or.inr (hbegun.resolve_right nofun)) rfl rfl
          | some i =>
              rw [hslot] at hbegun
              exact h.past rfl rfl rfl (Or.inr (hbegun.resolve_right nofun)) rfl rfl
  | loadEpoch i fs =>
      rw [hcase] at hbegun
      exact h.past rfl rfl rfl (Or.inr (hbegun.resolve_right nofun)) rfl rfl
  | storeTag i epoch fs =>
      rw [hcase] at hbegun
      exact h.past rfl rfl rfl (Or.inr (hbegun.resolve_right nofun)) rfl rfl

theorem ApartInv.call {s : RaceState} (h : ApartInv s) (data : List UInt8) (hapart : s.begun = s.finished) :
    ApartInv (callStep s data) := by
  unfold callStep
  split
  · split
    · exact h
    · refine ⟨Or.inr hapart, h.flag, ?_, List.forall_mem_nil _⟩
      intro c hc
      rw [List.mem_singleton.mp hc]
      exact finished_le_published s
  · exact h

/-- The reset that completes raises the flag. -/
theorem resetStep_flag (s : RaceState) :
    (resetStep s).ingestResetReq = true ∨
      (resetStep s).ingestResetReq = s.ingestResetReq ∧ (resetStep s).finished = s.finished := by
  unfold resetStep
  split
  case h_2 since hpc =>
    split
    · exact Or.inr ⟨rfl, rfl⟩
    · exact Or.inr ⟨rfl, rfl⟩
  case h_8 => exact Or.inl rfl
  all_goals exact Or.inr ⟨rfl, rfl⟩

theorem ApartInv.reset {s : RaceState} (h : ApartInv s) (hapart : s.resetter = .idle ∨ s.uart = .idle) :
    ApartInv (resetStep s) := by
  rcases hapart with hidle | huart
  · rw [resetStep, hidle]
    exact ⟨Or.inr rfl, h.flag, h.calls, h.feeding⟩
  · have hkeep := resetStep_keepsUart s
    have huart' : (resetStep s).uart = .idle := hkeep.uart.trans huart
    refine ⟨Or.inl huart', ?_, ?_, ?_⟩
    · rcases resetStep_flag s with hreq | ⟨hreq, hfinished⟩
      · exact Or.inl hreq
      · rw [hreq, hfinished, hkeep.held]
        exact h.flag
    · intro c hc
      rw [huart'] at hc
      exact absurd hc List.not_mem_nil
    · intro c hc
      rw [huart'] at hc
      exact absurd hc List.not_mem_nil

theorem apartInv_step (s : RaceState) (e : RaceEvent) (h : ApartInv s) (hapart : Apart s e) :
    ApartInv (race.step s e) := by
  cases e with
  | wait ms => exact ⟨h.busy, h.flag, h.calls, h.feeding⟩
  | call data => exact h.call data hapart
  | uart => exact h.uart
  | reset => exact h.reset hapart
  | query =>
      have hkeep := queryStep_keepsUart s
      have hresets := queryStep_keepsResets s
      have hreq : (queryStep s).ingestResetReq = s.ingestResetReq := by
        unfold queryStep
        split
        all_goals rfl
      show ApartInv (queryStep s)
      refine ⟨?_, ?_, ?_, ?_⟩
      · rw [hkeep.uart, hresets.begun, hresets.finished]
        exact h.busy
      · rw [hreq, hkeep.held, hresets.finished]
        exact h.flag
      · rw [hkeep.uart, hresets.finished]
        exact h.calls
      · rw [hkeep.uart, hkeep.held, hresets.finished]
        exact h.feeding

/-- **The request flag does its work** while calls and resets do not overlap. -/
theorem admits_of_apart {es : List RaceEvent} (h : race.Admits Apart raceInit es) :
    race.Admits OutsideWindow raceInit es := by
  have hinit : ApartInv raceInit := ⟨Or.inl rfl, Or.inr (List.forall_mem_nil _),
    List.forall_mem_nil _, List.forall_mem_nil _⟩
  refine race.admits_of_invariant apartInv_step ?_ hinit h
  intro s e hs _
  cases e with
  | uart =>
      intro c hc k hk _
      have hbegun : s.begun = s.finished := by
        apply hs.busy.resolve_left
        intro hidle
        rw [hidle] at hc
        exact absurd hc List.not_mem_nil
      rw [hbegun] at hk
      have hcall : c ∈ s.uart.calls := by
        cases hcase : s.uart with
        | feed c' =>
            rw [hcase] at hc
            exact hc
        | _ =>
            rw [hcase] at hc
            exact absurd hc List.not_mem_nil
      exact ⟨hk.trans (hs.calls c hcall), fun b hb => hk.trans (hs.feeding c hc b hb)⟩
  | _ => trivial

/-! ### A frame from before the reset -/

/-- A frame of each required type. -/
def productionSet : List (List UInt8) :=
  [[0xD3, 0, 2, 62, 208, 164, 224, 0], [0xD3, 0, 2, 64, 144, 135, 215, 208],
    [0xD3, 0, 2, 67, 80, 6, 162, 126], [0xD3, 0, 2, 67, 240, 57, 52, 51]]

/-- The head of a frame is in the parser when the receiver is reset.  The reset stores its start time, the
clock moves on, the UART task enters a call that ends this frame, and only then the reset asks for a fresh
parser. -/
def splicedRun : List RaceEvent :=
  [RaceEvent.call [0xD3], .uart, .uart, .uart] ++
  [RaceEvent.reset, .wait 500, .reset, .reset] ++
  [RaceEvent.wait 1, .call (productionSet.flatten.drop 1), .uart] ++
  List.replicate 5 RaceEvent.reset ++
  List.replicate 14 RaceEvent.uart ++
  List.replicate 11 RaceEvent.query

/-- **Old evidence counts.**  The reader reports all fresh, with a frame whose head came before the reset. -/
theorem spliced_frame_reported :
    (race.run raceInit splicedRun).clock < 2 ^ 31 ∧ ¬ DiscardsOld (splicedRun ++ [.query]) := by
  refine ⟨by decide +kernel, ?_⟩
  intro h
  have hreport : ∃ report ∈ race.out (race.run raceInit splicedRun) .query, report.allFresh = true := by
    decide +kernel
  have hold : ∀ w ∈ (race.run raceInit splicedRun).emitted,
      messageType (w.bytes.map Prod.fst) = ntripRequiredMsgs 0 →
        ¬ ∀ b ∈ w.bytes, (race.run raceInit splicedRun).bumps ≤ b.2 := by
    decide +kernel
  obtain ⟨report, hmem, hfresh⟩ := hreport
  obtain ⟨w, hw, f, hcarries, hbytes, _, horigin⟩ := h splicedRun .query [] rfl report hmem hfresh 0
  refine hold w hw ?_ horigin
  rw [hbytes]
  exact (messageType_carries f 0).mpr hcarries

/-- The same head, and a reset that is complete before the next call. -/
def apartRun : List RaceEvent :=
  [RaceEvent.call [0xD3], .uart, .uart, .uart] ++
  [RaceEvent.reset, .wait 500] ++ List.replicate 6 RaceEvent.reset ++
  [RaceEvent.wait 1, .call productionSet.flatten] ++ List.replicate 16 RaceEvent.uart ++
  List.replicate 12 RaceEvent.query

theorem discardsOld_apartRun :
    (race.outputs raceInit apartRun).map MsgFreshness.allFresh = [true] ∧ DiscardsOld apartRun :=
  ⟨by decide +kernel, discardsOld_of_admits apartRun (by decide +kernel) (by decide +kernel)⟩

end RtkdataFw.NtripServer
