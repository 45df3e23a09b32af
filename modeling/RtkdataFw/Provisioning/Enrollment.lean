import RtkdataFw.Lib.Journal
import RtkdataFw.Lib.Since
import RtkdataFw.Lib.Strtol
import RtkdataFw.Provisioning.CasterCreds
import RtkdataFw.WebServer.ConfigPostBack

/-!
# Enrolling, across power cuts

`provisioning_task` over the store, one NVS write or commit at a time, with a power cut between any two of them
that keeps any number of the writes since the last commit.  The others that use the store write between them.

* `enrollSteps`, `replySteps` — what `enroll` and `apply_reply` do, as a list of such steps;
* `replySteps_writes` — together the steps of a reply are the store's `apply_reply`;
* `TaskOk`, `prov_step_ok` — what the task relies on, place by place;
* `token_survives_cuts` — whatever is cut off, a store that says enrolled has the last token that was issued, and
  every heartbeat is keyed with it;
* `identity_kept` — the device keeps its id and its enroll key.
-/

namespace RtkdataFw.Provisioning

open RtkdataFw.Lib RtkdataFw.Config

/-! ### The store -/

inductive NvsWrite where
  | set (key : String) (entry : NvsEntry)
  | erase (key : String)

def NvsWrite.key : NvsWrite → String
  | .set key _ => key
  | .erase key => key

def applyWrite (nvs : Nvs) : NvsWrite → Nvs
  | .set key entry => nvs.set key entry
  | .erase key => nvs.eraseKey key

theorem applyWrite_other (nvs : Nvs) {w : NvsWrite} {key : String} (h : w.key ≠ key) :
    applyWrite nvs w key = nvs key := by
  cases w with
  | set k entry => exact Nvs.set_other nvs entry (Ne.symm h)
  | erase k => exact Function.update_of_ne (Ne.symm h) _ nvs

/-- `strlcpy` into a buffer of `size` bytes. -/
def strlcpy (size : ℕ) (s : CStr) : CStr := ⟨s.bytes.take (size - 1), fun h => s.noNul (List.mem_of_mem_take h)⟩

theorem strlcpy_strlcpy (size : ℕ) (s : CStr) : strlcpy size (strlcpy size s) = strlcpy size s := by
  apply CStr.bytes_inj
  show (s.bytes.take (size - 1)).take (size - 1) = _
  rw [List.take_take, Nat.min_self]
  rfl

/-! ### The task -/

def ieHostItem : ConfigItem := stringItem "rtk_ie_host" false "integrity-engine.onrender.com"

def deviceIdItem : ConfigItem := stringItem "rtk_dev_id" false ""

def stationTokItem : ConfigItem := stringItem "rtk_sta_tok" true ""

def rtkStateItem : ConfigItem := numberItem "rtk_state" .uint8 false 0

def enrollKeyItem : ConfigItem := stringItem "rtk_enr_key" true ""

def keyVerItem : ConfigItem := numberItem "rtk_key_ver" .uint8 false 1

def minPollS : ℤ := 10

/-- The statics of the task, and its `state`. -/
structure ProvRam where
  deviceId : CStr
  ieHost : CStr
  token : CStr
  enrollKey : CStr
  keyVer : ℕ
  pollS : ℤ
  state : ℕ
  /-- No memory to read the token into when the task started. -/
  tokenLost : Bool

def ProvRam.init : ProvRam := ⟨CStr.empty, CStr.empty, CStr.empty, CStr.empty, 1, 30, 0, false⟩

inductive ProvStep where
  | nvs (w : NvsWrite)
  | commit
  /-- `strlcpy (s_token, ...)`. -/
  | token (tok : CStr)
  /-- `config_set_str (KEY_RTK_STATION_TOK, s_token)`. -/
  | storeToken
  | poll (s : ℤ)

/-- What the task was called for. -/
inductive ProvCall where
  | loadIdentity
  | enroll
  | heartbeat

inductive ProvPhase where
  | off
  /-- At the head of its loop. -/
  | top
  | busy (todo : List ProvStep) (call : ProvCall)

structure Prov where
  nvs : Journal Nvs NvsWrite
  ram : ProvRam
  phase : ProvPhase

/-- What a reader of the store sees. -/
abbrev Prov.store (s : Prov) : Nvs := s.nvs.now applyWrite

/-! ### What the functions do -/

/-- `if (tok) strlcpy (buffer, tok, size)`, over a buffer of zeros. -/
def loadStr (mem : ConfigItem → Bool) (nvs : Nvs) (item : ConfigItem) (size : ℕ) : CStr :=
  match (configGetStrBlobAlloc (mem item) nvs item).2 with
  | some bytes => strlcpy size (CStr.ofBytes bytes)
  | none => CStr.empty

/-- The same where an empty string counts as none. -/
def loadNonempty (mem : ConfigItem → Bool) (nvs : Nvs) (item : ConfigItem) : Option CStr :=
  match (configGetStrBlobAlloc (mem item) nvs item).2 with
  | some (c :: bytes) => some (CStr.ofBytes (c :: bytes))
  | _ => none

/-- `rtk-%02x%02x%02x%02x%02x%02x`. -/
def macId (mac : List UInt8) : CStr :=
  strlcpy 40 (CStr.ofBytes (ascii "rtk-" ++ mac.flatMap fun b => hexByte b.toNat))

/-- The statics after `load_identity`. -/
def loadIdentity (mem : ConfigItem → Bool) (mac : List UInt8) (nvs : Nvs) : ProvRam :=
  { ProvRam.init with
    deviceId :=
      match loadNonempty mem nvs deviceIdItem with
      | some dev => strlcpy 40 dev
      | none => macId mac
    ieHost := strlcpy 96 ((loadNonempty mem nvs ieHostItem).getD ieHostItem.default.str)
    token := loadStr mem nvs stationTokItem 96
    enrollKey := loadStr mem nvs enrollKeyItem 80
    keyVer := if configGetU8 nvs keyVerItem = 0 then 1 else configGetU8 nvs keyVerItem
    tokenLost := !mem stationTokItem }

/-- The id is stored when there was none. -/
def identitySteps (mem : ConfigItem → Bool) (mac : List UInt8) (nvs : Nvs) : List ProvStep :=
  match loadNonempty mem nvs deviceIdItem with
  | some _ => []
  | none => [.nvs (.set deviceIdItem.key (.str (macId mac))), .commit]

/-- The sets of `write_caster_creds`. -/
def casterWrites (caster : JsonNode) : List NvsWrite :=
  let str (name : String) (item : ConfigItem) :=
    ((isString (caster.getObjectItem name)).map fun s => NvsWrite.set item.key (.str s)).toList
  str "host" casterHost ++
    ((isNumber (caster.getObjectItem "port")).map fun n =>
      NvsWrite.set casterPort.key (.number .u16 (lowBits .u16 n))).toList ++
    str "mountpoint" casterMountpoint ++ str "username" casterUsername ++ str "password" casterPassword ++
    [.set "ntr_srv_actv" (.number .i8 (lowBits .i8 1))]

/-- The keys of `write_caster_creds`. -/
def casterKeys : List String :=
  [casterHost.key, casterPort.key, casterMountpoint.key, casterUsername.key, casterPassword.key, "ntr_srv_actv"]

theorem casterWrites_key (caster : JsonNode) : ∀ w ∈ casterWrites caster, w.key ∈ casterKeys := by
  have hstr : ∀ (name : String) (item : ConfigItem) (w : NvsWrite),
      w ∈ ((isString (caster.getObjectItem name)).map fun s => NvsWrite.set item.key (.str s)).toList →
        w.key = item.key := by
    intro name item w hw
    obtain ⟨s, _, rfl⟩ := Option.map_eq_some_iff.mp (Option.mem_toList.mp hw)
    rfl
  intro w hw
  simp only [casterWrites, List.mem_append, List.mem_singleton] at hw
  rw [casterKeys]
  rcases hw with ((((hw | hw) | hw) | hw) | hw) | rfl
  · simp [hstr _ _ w hw]
  · obtain ⟨n, _, rfl⟩ := Option.map_eq_some_iff.mp (Option.mem_toList.mp hw)
    simp [NvsWrite.key]
  · simp [hstr _ _ w hw]
  · simp [hstr _ _ w hw]
  · simp [hstr _ _ w hw]
  · simp [NvsWrite.key]

def stateWrite (value : ℤ) : NvsWrite := .set rtkStateItem.key (.number .u8 (lowBits .u8 value))

/-- `if (cJSON_IsNumber(poll) && poll->valueint >= MIN_POLL_S) s_poll_s = poll->valueint;`. -/
def pollSteps (root : JsonNode) : List ProvStep :=
  ((isNumber (root.getObjectItem "ie_poll_s")).filter fun n => minPollS ≤ n).toList.map .poll

/-- `enroll` after a reply with a caster and a token. -/
def enrollSteps (root caster : JsonNode) (tok : CStr) : List ProvStep :=
  (casterWrites caster).map .nvs ++ [.commit] ++ .token tok :: .storeToken ::
    (pollSteps root ++ .nvs (stateWrite 1) :: [.commit])

/-- `apply_reply`, as far as it is about the store. -/
def replySteps (mem : ConfigItem → Bool) (nvs : Nvs) (root : JsonNode) : List ProvStep :=
  (match repointedTo mem nvs root with
    | none => []
    | some caster => (casterWrites caster).map .nvs ++ [.commit]) ++
  match isString (root.getObjectItem "state") with
  | none => []
  | some state => [.nvs (stateWrite (rtkState state)), .commit]

/-! ### The machine -/

inductive ProvEvent where
  /-- The task starts, once the station is online, with what can be allocated. -/
  | boot (mem : ConfigItem → Bool)
  /-- The next write or commit, or the return to the loop. -/
  | step
  /-- `enroll`, with the parsed reply of the server if there is one. -/
  | enroll (reply : Option JsonNode)
  /-- `heartbeat`, with whether its body fits. -/
  | heartbeat (mem : ConfigItem → Bool) (fits : Bool) (reply : Option JsonNode)
  | cut (kept : ℕ)
  /-- A write of another task. -/
  | other (w : NvsWrite)
  | otherCommit

inductive ProvObs where
  /-- An enroll request goes out, signed with the key. -/
  | enrolling (deviceId enrollKey : CStr) (keyVer : ℕ)
  /-- A reply with a caster and a token was received. -/
  | issued (token : CStr)
  /-- A heartbeat goes out, keyed with the token. -/
  | heartbeat (deviceId token : CStr) (tokenLost : Bool)

/-- One step of the task. -/
def ProvStep.run (s : Prov) : ProvStep → Prov
  | .nvs w => { s with nvs := s.nvs.write w }
  | .commit => { s with nvs := s.nvs.commit applyWrite }
  | .token tok => { s with ram := { s.ram with token := strlcpy 96 tok, tokenLost := false } }
  | .storeToken => { s with nvs := s.nvs.write (.set stationTokItem.key (.str s.ram.token)) }
  | .poll n => { s with ram := { s.ram with pollS := n } }

/-- The state after a call. -/
def ProvCall.finish (s : Prov) : ProvCall → Prov
  | .enroll => { s with ram := { s.ram with state := 1 }, phase := .top }
  | _ => { s with ram := { s.ram with state := configGetU8 s.store rtkStateItem }, phase := .top }

/-- The caster and the token of a reply, if it has both. -/
def enrollReply (root : JsonNode) : Option (JsonNode × CStr) :=
  (isObject (root.getObjectItem "caster")).bind fun caster =>
    (isString (root.getObjectItem "station_token")).map fun tok => (caster, tok)

/-- The task may enroll: it is not enrolled and has a key. -/
def Prov.mayEnroll (s : Prov) : Bool :=
  match s.phase with
  | .top => s.ram.state < 1 && !s.ram.enrollKey.bytes.isEmpty
  | _ => false

def Prov.mayBeat (s : Prov) : Bool :=
  match s.phase with
  | .top => 1 ≤ s.ram.state
  | _ => false

def prov (mac : List UInt8) : Machine Prov ProvEvent ProvObs where
  step s
    | .boot mem =>
        match s.phase with
        | .off =>
            { s with
              ram := loadIdentity mem mac s.store
              phase := .busy (identitySteps mem mac s.store) .loadIdentity }
        | _ => s
    | .step =>
        match s.phase with
        | .busy [] call => call.finish s
        | .busy (st :: todo) call => { st.run s with phase := .busy todo call }
        | _ => s
    | .enroll reply =>
        if s.mayEnroll then
          match reply.bind fun root => (enrollReply root).map fun r => (root, r) with
          | some (root, caster, tok) => { s with phase := .busy (enrollSteps root caster tok) .enroll }
          | none => s
        else s
    | .heartbeat mem fits reply =>
        if s.mayBeat then
          match if fits then reply else none with
          | some root => { s with phase := .busy (replySteps mem s.store root) .heartbeat }
          | none => { s with phase := .busy [] .heartbeat }
        else s
    | .cut kept => ⟨s.nvs.cut applyWrite kept, .init, .off⟩
    | .other w => { s with nvs := s.nvs.write w }
    | .otherCommit => { s with nvs := s.nvs.commit applyWrite }
  out s
    | .enroll reply =>
        if s.mayEnroll then
          .enrolling s.ram.deviceId s.ram.enrollKey s.ram.keyVer ::
            ((reply.bind enrollReply).map fun r => .issued r.2).toList
        else []
    | .heartbeat _ fits _ =>
        if s.mayBeat && fits then [.heartbeat s.ram.deviceId s.ram.token s.ram.tokenLost] else []
    | _ => []

/-! ### The steps of a reply are `apply_reply` -/

/-- The writes among some steps. -/
def stepWrites (steps : List ProvStep) : List NvsWrite :=
  steps.filterMap fun
    | .nvs w => some w
    | _ => none

theorem stepWrites_nvs (ws : List NvsWrite) : stepWrites (ws.map .nvs) = ws := by
  simp [stepWrites, List.filterMap_map]

theorem casterWrites_run (nvs : Nvs) (caster : JsonNode) :
    (casterWrites caster).foldl applyWrite nvs = writeCasterCreds nvs caster := by
  have hstr : ∀ (nvs : Nvs) (name : String) (item : ConfigItem),
      (((isString (caster.getObjectItem name)).map fun s => NvsWrite.set item.key (.str s)).toList).foldl
        applyWrite nvs = setStr nvs caster name item := by
    intro nvs name item
    unfold setStr
    cases isString (caster.getObjectItem name) <;> rfl
  have hport : ∀ nvs : Nvs,
      (((isNumber (caster.getObjectItem "port")).map fun n =>
        NvsWrite.set casterPort.key (.number .u16 (lowBits .u16 n))).toList).foldl applyWrite nvs =
        setPort nvs caster := by
    intro nvs
    unfold setPort
    cases isNumber (caster.getObjectItem "port") <;> rfl
  simp only [casterWrites, List.foldl_append, hstr, hport]
  rfl

/-- **The steps of a reply** do to the store what `apply_reply` does. -/
theorem replySteps_writes (mem : ConfigItem → Bool) (nvs : Nvs) (root : JsonNode) :
    (stepWrites (replySteps mem nvs root)).foldl applyWrite nvs = applyReply mem nvs root := by
  have happend : ∀ ss ts : List ProvStep, stepWrites (ss ++ ts) = stepWrites ss ++ stepWrites ts :=
    fun ss ts => List.filterMap_append
  have hcommit : stepWrites [.commit] = [] := rfl
  rw [replySteps, applyReply, happend, List.foldl_append]
  have hcaster : (stepWrites (match repointedTo mem nvs root with
      | none => []
      | some caster => (casterWrites caster).map .nvs ++ [.commit])).foldl applyWrite nvs =
        match repointedTo mem nvs root with
        | none => nvs
        | some caster => writeCasterCreds nvs caster := by
    cases repointedTo mem nvs root with
    | none => rfl
    | some caster =>
        dsimp only
        rw [happend, stepWrites_nvs, hcommit, List.append_nil, casterWrites_run]
  rw [hcaster]
  cases isString (root.getObjectItem "state") <;> rfl

/-! ### What a write leaves alone -/

def Enrolled (nvs : Nvs) : Prop := 1 ≤ configGetU8 nvs rtkStateItem

/-- The write is for neither the state nor the token. -/
def NvsWrite.Spares (w : NvsWrite) : Prop := w.key ≠ rtkStateItem.key ∧ w.key ≠ stationTokItem.key

/-- The token of the last reply that was accepted. -/
def lastIssued (os : List ProvObs) : Option CStr :=
  (os.filterMap fun
    | .issued tok => some tok
    | _ => none).getLast?

/-- The last token that was issued is stored. -/
def HasToken (last : Option CStr) (nvs : Nvs) : Prop :=
  ∃ tok, last = some tok ∧ nvs stationTokItem.key = some (.str (strlcpy 96 tok))

theorem enrolled_congr {nvs nvs' : Nvs} (h : nvs' rtkStateItem.key = nvs rtkStateItem.key) :
    Enrolled nvs' ↔ Enrolled nvs := by
  unfold Enrolled configGetU8 configGetBits nvsGetNumber
  rw [h]

theorem hasToken_congr {last : Option CStr} {nvs nvs' : Nvs}
    (h : nvs' stationTokItem.key = nvs stationTokItem.key) : HasToken last nvs' ↔ HasToken last nvs := by
  unfold HasToken
  rw [h]

theorem rtkState_range (state : CStr) : 1 ≤ rtkState state ∧ rtkState state ≤ 3 := by
  unfold rtkState
  split
  · decide
  · split <;> decide

theorem enrolled_stateWrite (nvs : Nvs) {v : ℤ} (h : 1 ≤ v ∧ v ≤ 3) : Enrolled (applyWrite nvs (stateWrite v)) := by
  have hentry : applyWrite nvs (stateWrite v) rtkStateItem.key = some (.number .u8 (lowBits .u8 v)) :=
    Nvs.set_same _ _ _
  have hread : configGetU8 (applyWrite nvs (stateWrite v)) rtkStateItem = lowBits .u8 v := by
    rw [configGetU8, configGetBits, nvsGetNumber, hentry]
    rfl
  unfold Enrolled
  rw [hread]
  show 1 ≤ (v % (256 : ℕ)).toNat
  omega

theorem stateWrite_tok (nvs : Nvs) (v : ℤ) :
    applyWrite nvs (stateWrite v) stationTokItem.key = nvs stationTokItem.key :=
  have hne : rtkStateItem.key ≠ stationTokItem.key := by decide
  applyWrite_other nvs hne

/-! ### What the task relies on -/

/-- The step changes neither the state nor the token, stored or not. -/
def ProvStep.Quiet : ProvStep → Prop
  | .nvs w => w.Spares
  | .commit => True
  | .poll _ => True
  | _ => False

/-- A cut would not change the state. -/
def Settled (nvs : Journal Nvs NvsWrite) : Prop :=
  ∃ entry, nvs.Always applyWrite fun s => s rtkStateItem.key = entry

/-- The task has the last token that was issued, unless it had no memory for it. -/
def Holds (last : Option CStr) (ram : ProvRam) : Prop :=
  ∃ tok, last = some tok ∧ ram.token = if ram.tokenLost then CStr.empty else strlcpy 96 tok

/-- An enrolled task. -/
structure InSession (last : Option CStr) (s : Prov) : Prop where
  enrolled : Enrolled s.store
  stored : HasToken last s.store
  held : Holds last s.ram

/-- **Places in `enroll`**: before the token is copied, before it is stored, before the state is, and after. -/
inductive EnrollAt (last : Option CStr) (tok : CStr) (s : Prov) : List ProvStep → Prop where
  | caster (qs rest : List ProvStep) (hqs : ∀ st ∈ qs, st.Quiet) (hrest : ∀ st ∈ rest, st.Quiet)
      (hnone : s.nvs.Always applyWrite fun n => ¬ Enrolled n) :
      EnrollAt last tok s (qs ++ .token tok :: .storeToken :: (rest ++ .nvs (stateWrite 1) :: [.commit]))
  | copied (rest : List ProvStep) (hrest : ∀ st ∈ rest, st.Quiet)
      (hnone : s.nvs.Always applyWrite fun n => ¬ Enrolled n) (hheld : Holds last s.ram)
      (hram : s.ram.token = strlcpy 96 tok) :
      EnrollAt last tok s (.storeToken :: (rest ++ .nvs (stateWrite 1) :: [.commit]))
  | stored (rest : List ProvStep) (hrest : ∀ st ∈ rest, st.Quiet)
      (hnone : s.nvs.Always applyWrite fun n => ¬ Enrolled n) (hheld : Holds last s.ram)
      (hstored : HasToken last s.store) :
      EnrollAt last tok s (rest ++ .nvs (stateWrite 1) :: [.commit])
  | done (todo : List ProvStep) (htodo : ∀ st ∈ todo, st.Quiet) (hsession : InSession last s) :
      EnrollAt last tok s todo

def TaskOk (last : Option CStr) (s : Prov) : ProvPhase → Prop
  | .off => Settled s.nvs
  | .top => (1 ≤ s.ram.state → InSession last s) ∧
      (s.ram.state < 1 → s.nvs.Always applyWrite fun n => ¬ Enrolled n)
  | .busy todo .loadIdentity => (∀ st ∈ todo, st.Quiet) ∧ Settled s.nvs ∧ (HasToken last s.store → Holds last s.ram)
  | .busy todo .enroll => ∃ tok, last = some tok ∧ EnrollAt last tok s todo
  | .busy todo .heartbeat => (∀ st ∈ todo, st.Quiet ∨ ∃ v, st = .nvs (stateWrite v) ∧ 1 ≤ v ∧ v ≤ 3) ∧ InSession last s

/-- Whatever a cut would leave, a store that says enrolled has the token; and the task is in order. -/
structure ProvOk (last : Option CStr) (s : Prov) : Prop where
  stored : s.nvs.Always applyWrite fun n => Enrolled n → HasToken last n
  task : TaskOk last s s.phase

section Invariant

variable {last : Option CStr} {s s' : Prov}

/-- What a write or a commit of others changes. -/
structure Frame (s s' : Prov) : Prop where
  ram : s'.ram = { s.ram with pollS := s'.ram.pollS }
  state : s'.store rtkStateItem.key = s.store rtkStateItem.key
  token : s'.store stationTokItem.key = s.store stationTokItem.key
  always : ∀ P : Nvs → Prop, (∀ n n' : Nvs, n' rtkStateItem.key = n rtkStateItem.key →
    n' stationTokItem.key = n stationTokItem.key → P n → P n') →
      s.nvs.Always applyWrite P → s'.nvs.Always applyWrite P

theorem frame_write {w : NvsWrite} (hw : w.Spares) (hnvs : s'.nvs = s.nvs.write w)
    (hram : s'.ram = { s.ram with pollS := s'.ram.pollS }) : Frame s s' := by
  have hother : ∀ {key : String}, w.key ≠ key → ∀ n : Nvs, applyWrite n w key = n key :=
    fun hne n => applyWrite_other n hne
  refine ⟨hram, ?_, ?_, ?_⟩
  · rw [Prov.store, hnvs, Journal.now_write]
    exact hother hw.1 _
  · rw [Prov.store, hnvs, Journal.now_write]
    exact hother hw.2 _
  · intro P hP h
    rw [hnvs]
    exact (Journal.always_write w).mpr ⟨h, hP _ _ (hother hw.1 _) (hother hw.2 _) h.now⟩

theorem frame_commit (hnvs : s'.nvs = s.nvs.commit applyWrite)
    (hram : s'.ram = { s.ram with pollS := s'.ram.pollS }) : Frame s s' := by
  refine ⟨hram, ?_, ?_, ?_⟩
  · rw [Prov.store, hnvs, Journal.now_commit]
  · rw [Prov.store, hnvs, Journal.now_commit]
  · intro P _ h
    rw [hnvs]
    exact h.commit

theorem Frame.stored (h : Frame s s') (hs : s.nvs.Always applyWrite fun n => Enrolled n → HasToken last n) :
    s'.nvs.Always applyWrite fun n => Enrolled n → HasToken last n :=
  h.always _ (fun _ _ hstate htok hn he => (hasToken_congr htok).mpr (hn ((enrolled_congr hstate).mp he))) hs

theorem Frame.none (h : Frame s s') (hs : s.nvs.Always applyWrite fun n => ¬ Enrolled n) :
    s'.nvs.Always applyWrite fun n => ¬ Enrolled n :=
  h.always _ (fun _ _ hstate _ hn he => hn ((enrolled_congr hstate).mp he)) hs

theorem Frame.settled (h : Frame s s') (hs : Settled s.nvs) : Settled s'.nvs := by
  obtain ⟨entry, hentry⟩ := hs
  exact ⟨entry, h.always _ (fun _ _ hstate _ hn => hstate.trans hn) hentry⟩

theorem Frame.holds (h : Frame s s') (hs : Holds last s.ram) : Holds last s'.ram := by
  rw [h.ram]
  exact hs

theorem Frame.ram_eq (h : Frame s s') : s'.ram.state = s.ram.state ∧ s'.ram.token = s.ram.token := by
  rw [h.ram]
  exact ⟨rfl, rfl⟩

theorem Frame.session (h : Frame s s') (hs : InSession last s) : InSession last s' where
  enrolled := (enrolled_congr h.state).mpr hs.enrolled
  stored := (hasToken_congr h.token).mpr hs.stored
  held := h.holds hs.held

/-- **Steps of the others** keep every place of the task. -/
theorem Frame.taskOk (h : Frame s s') {phase : ProvPhase} (hs : TaskOk last s phase) : TaskOk last s' phase := by
  cases phase with
  | off => exact h.settled hs
  | top =>
      obtain ⟨hstate, _⟩ := h.ram_eq
      exact ⟨fun hs' => h.session (hs.1 (hstate ▸ hs')), fun hs' => h.none (hs.2 (hstate ▸ hs'))⟩
  | busy todo call =>
      cases call with
      | loadIdentity =>
          obtain ⟨hquiet, hsettled, hload⟩ := hs
          exact ⟨hquiet, h.settled hsettled, fun htok => h.holds (hload ((hasToken_congr h.token).mp htok))⟩
      | heartbeat => exact ⟨hs.1, h.session hs.2⟩
      | enroll =>
          obtain ⟨tok, hlast, hat⟩ := hs
          refine ⟨tok, hlast, ?_⟩
          cases hat with
          | caster qs rest hqs hrest hnone => exact .caster qs rest hqs hrest (h.none hnone)
          | copied rest hrest hnone hheld hram =>
              exact .copied rest hrest (h.none hnone) (h.holds hheld) (h.ram_eq.2.trans hram)
          | stored rest hrest hnone hheld hstored =>
              exact .stored rest hrest (h.none hnone) (h.holds hheld) ((hasToken_congr h.token).mpr hstored)
          | done _ htodo hsession => exact .done _ htodo (h.session hsession)

theorem quiet_frame {st : ProvStep} (h : st.Quiet) (s : Prov) : Frame s (st.run s) := by
  cases st with
  | nvs w => exact frame_write h rfl rfl
  | commit => exact frame_commit rfl rfl
  | poll n => exact ⟨rfl, rfl, rfl, fun _ _ hs => hs⟩
  | token tok => exact h.elim
  | storeToken => exact h.elim

theorem Frame.phase (h : Frame s s') (phase : ProvPhase) : Frame s { s' with phase := phase } :=
  ⟨h.ram, h.state, h.token, h.always⟩

theorem casterWrites_spare (caster : JsonNode) : ∀ w ∈ casterWrites caster, w.Spares := by
  have hkeys : ∀ key ∈ casterKeys, key ≠ rtkStateItem.key ∧ key ≠ stationTokItem.key := by decide
  exact fun w hw => hkeys w.key (casterWrites_key caster w hw)

theorem casterSteps_quiet (caster : JsonNode) :
    ∀ st ∈ (casterWrites caster).map ProvStep.nvs ++ [.commit], st.Quiet := by
  intro st hst
  rcases List.mem_append.mp hst with hst | hst
  · obtain ⟨w, hw, rfl⟩ := List.mem_map.mp hst
    exact casterWrites_spare caster w hw
  · rw [List.mem_singleton.mp hst]
    trivial

theorem pollSteps_quiet (root : JsonNode) : ∀ st ∈ pollSteps root, st.Quiet := by
  intro st hst
  obtain ⟨n, _, rfl⟩ := List.mem_map.mp hst
  trivial

theorem identitySteps_quiet (mem : ConfigItem → Bool) (mac : List UInt8) (nvs : Nvs) :
    ∀ st ∈ identitySteps mem mac nvs, st.Quiet := by
  have hkey : deviceIdItem.key ≠ rtkStateItem.key ∧ deviceIdItem.key ≠ stationTokItem.key := by decide
  unfold identitySteps
  split
  · exact fun _ hst => nomatch hst
  · exact List.forall_mem_cons.mpr ⟨hkey, List.forall_mem_singleton.mpr trivial⟩

theorem replySteps_cases (mem : ConfigItem → Bool) (nvs : Nvs) (root : JsonNode) :
    ∀ st ∈ replySteps mem nvs root, st.Quiet ∨ ∃ v, st = .nvs (stateWrite v) ∧ 1 ≤ v ∧ v ≤ 3 := by
  intro st hst
  rw [replySteps, List.mem_append] at hst
  rcases hst with hst | hst
  · split at hst
    · cases hst
    · rename_i caster _
      exact .inl (casterSteps_quiet caster st hst)
  · split at hst
    · cases hst
    · rename_i state _
      rcases List.mem_cons.mp hst with rfl | hst
      · exact .inr ⟨_, rfl, rtkState_range state⟩
      · rw [List.mem_singleton.mp hst]
        exact .inl trivial

/-- A state that is written over a stored token. -/
theorem session_stateWrite (hstored : HasToken last s.store) (hheld : Holds last s.ram) {v : ℤ} (hv : 1 ≤ v ∧ v ≤ 3) :
    InSession last { s with nvs := s.nvs.write (stateWrite v) } where
  enrolled := by
    rw [Prov.store, Journal.now_write]
    exact enrolled_stateWrite _ hv
  stored := by
    rw [Prov.store, Journal.now_write]
    exact (hasToken_congr (stateWrite_tok _ v)).mpr hstored
  held := hheld

theorem stored_stateWrite (h : s.nvs.Always applyWrite fun n => Enrolled n → HasToken last n)
    (hstored : HasToken last s.store) (v : ℤ) :
    (s.nvs.write (stateWrite v)).Always applyWrite fun n => Enrolled n → HasToken last n :=
  (Journal.always_write _).mpr ⟨h, fun _ => (hasToken_congr (stateWrite_tok _ v)).mpr hstored⟩

/-- **A step of the task**, call by call. -/
theorem busy_step_ok {st : ProvStep} {todo : List ProvStep} {call : ProvCall}
    (hstored : s.nvs.Always applyWrite fun n => Enrolled n → HasToken last n)
    (htask : TaskOk last s (.busy (st :: todo) call)) : ProvOk last { st.run s with phase := .busy todo call } := by
  have hquiet : st.Quiet → Frame s { st.run s with phase := .busy todo call } :=
    fun hq => (quiet_frame hq s).phase _
  cases call with
  | loadIdentity =>
      obtain ⟨hqs, hsettled, hload⟩ := htask
      obtain ⟨hq, hqs⟩ := List.forall_mem_cons.mp hqs
      have hf := hquiet hq
      exact ⟨hf.stored hstored, hqs, hf.settled hsettled,
        fun htok => hf.holds (hload ((hasToken_congr hf.token).mp htok))⟩
  | heartbeat =>
      obtain ⟨hsts, hsession⟩ := htask
      obtain ⟨hst, hrest⟩ := List.forall_mem_cons.mp hsts
      rcases hst with hq | ⟨v, rfl, hv⟩
      · have hf := hquiet hq
        exact ⟨hf.stored hstored, hrest, hf.session hsession⟩
      · have hnext := session_stateWrite hsession.stored hsession.held hv
        exact ⟨stored_stateWrite hstored hsession.stored v, hrest, hnext.enrolled, hnext.stored, hnext.held⟩
  | enroll =>
      obtain ⟨tok, hlast, hat⟩ := htask
      generalize hall : st :: todo = all at hat
      cases hat with
      | caster qs rest hqs hrest hnone =>
          cases qs with
          | nil =>
              cases hall
              exact ⟨hstored, tok, hlast, .copied rest hrest hnone ⟨tok, hlast, rfl⟩ rfl⟩
          | cons q qs =>
              cases hall
              obtain ⟨hq, hqs⟩ := List.forall_mem_cons.mp hqs
              have hf := hquiet hq
              exact ⟨hf.stored hstored, tok, hlast, .caster qs rest hqs hrest (hf.none hnone)⟩
      | copied rest hrest hnone hheld hram =>
          cases hall
          have hne : stationTokItem.key ≠ rtkStateItem.key := by decide
          have hstate : applyWrite s.store (.set stationTokItem.key (.str s.ram.token)) rtkStateItem.key =
              s.store rtkStateItem.key := applyWrite_other _ hne
          have hnone' : (s.nvs.write (.set stationTokItem.key (.str s.ram.token))).Always applyWrite
              fun n => ¬ Enrolled n :=
            (Journal.always_write _).mpr ⟨hnone, fun he => hnone.now ((enrolled_congr hstate).mp he)⟩
          refine ⟨hnone'.imp fun _ hn he => absurd he hn, tok, hlast, .stored rest hrest hnone' hheld ?_⟩
          refine ⟨tok, hlast, ?_⟩
          show (s.nvs.write (.set stationTokItem.key (.str s.ram.token))).now applyWrite stationTokItem.key = _
          rw [Journal.now_write, hram]
          exact Nvs.set_same _ _ _
      | stored rest hrest hnone hheld htok =>
          cases rest with
          | nil =>
              cases hall
              have hnext := session_stateWrite htok hheld (v := 1) (by decide)
              exact ⟨stored_stateWrite hstored htok 1, tok, hlast,
                .done _ (List.forall_mem_singleton.mpr trivial) ⟨hnext.enrolled, hnext.stored, hnext.held⟩⟩
          | cons q rest =>
              cases hall
              obtain ⟨hq, hrest⟩ := List.forall_mem_cons.mp hrest
              have hf := hquiet hq
              exact ⟨hf.stored hstored, tok, hlast,
                .stored rest hrest (hf.none hnone) (hf.holds hheld) ((hasToken_congr hf.token).mpr htok)⟩
      | done _ htodo hsession =>
          cases hall
          obtain ⟨hq, htodo⟩ := List.forall_mem_cons.mp htodo
          have hf := hquiet hq
          exact ⟨hf.stored hstored, tok, hlast, .done _ htodo (hf.session hsession)⟩

/-- **The return to the loop.** -/
theorem finish_ok {call : ProvCall} (hstored : s.nvs.Always applyWrite fun n => Enrolled n → HasToken last n)
    (htask : TaskOk last s (.busy [] call)) : ProvOk last (call.finish s) := by
  cases call with
  | loadIdentity =>
      obtain ⟨_, ⟨entry, hsettled⟩, hload⟩ := htask
      refine ⟨hstored, ?_, ?_⟩
      · intro henrolled
        have htok := hstored.now henrolled
        exact ⟨henrolled, htok, hload htok⟩
      · intro hzero
        refine hsettled.imp fun n hn henrolled => ?_
        have hnow : Enrolled s.store := (enrolled_congr (hsettled.now.trans hn.symm)).mpr henrolled
        exact absurd hnow (Nat.not_le.mpr hzero)
  | heartbeat =>
      obtain ⟨_, hsession⟩ := htask
      exact ⟨hstored, fun _ => ⟨hsession.enrolled, hsession.stored, hsession.held⟩,
        fun hzero => absurd hsession.enrolled (Nat.not_le.mpr hzero)⟩
  | enroll =>
      obtain ⟨tok, hlast, hat⟩ := htask
      generalize hall : ([] : List ProvStep) = all at hat
      cases hat with
      | caster qs rest => exact absurd hall (by simp)
      | copied rest => cases hall
      | stored rest => exact absurd hall (by simp)
      | done _ _ hsession =>
          exact ⟨hstored, fun _ => ⟨hsession.enrolled, hsession.stored, hsession.held⟩,
            fun hzero => absurd hzero (Nat.lt_irrefl 1)⟩

end Invariant

/-! ### Events -/

/-- The other tasks leave the state and the token alone. -/
def ProvEvent.Spares : ProvEvent → Prop
  | .other w => w.Spares
  | _ => True

/-- A heartbeat is keyed with the last token that was issued before it. -/
def Keyed (before : List ProvObs) (o : ProvObs) : Prop :=
  ∀ deviceId token tokenLost, o = .heartbeat deviceId token tokenLost →
    ∃ tok, lastIssued before = some tok ∧ token = if tokenLost then CStr.empty else strlcpy 96 tok

theorem lastIssued_append (os us : List ProvObs) (h : lastIssued us = none) :
    lastIssued (os ++ us) = lastIssued os := by
  unfold lastIssued at h ⊢
  rw [List.filterMap_append, List.getLast?_append, h]
  rfl

theorem lastIssued_issued (os us : List ProvObs) (tok : CStr) : lastIssued (os ++ (us ++ [.issued tok])) = some tok := by
  unfold lastIssued
  rw [List.filterMap_append, List.filterMap_append, List.getLast?_append, List.getLast?_append]
  rfl

theorem mayEnroll_phase {s : Prov} (h : s.mayEnroll = true) : s.phase = .top ∧ s.ram.state < 1 := by
  unfold Prov.mayEnroll at h
  split at h
  · rename_i hphase
    simp only [Bool.and_eq_true, decide_eq_true_eq] at h
    exact ⟨hphase, h.1⟩
  · cases h

theorem mayBeat_phase {s : Prov} (h : s.mayBeat = true) : s.phase = .top ∧ 1 ≤ s.ram.state := by
  unfold Prov.mayBeat at h
  split at h
  · rename_i hphase
    exact ⟨hphase, of_decide_eq_true h⟩
  · cases h

theorem configGetStrBlobAlloc_none {nvs : Nvs} {item : ConfigItem} :
    (configGetStrBlobAlloc false nvs item).2 = none := by
  unfold configGetStrBlobAlloc
  dsimp only
  split <;> rfl

/-- **What the task reads at its start** is the token that is stored. -/
theorem loadIdentity_holds {last : Option CStr} {nvs : Nvs} (mem : ConfigItem → Bool) (mac : List UInt8)
    (h : HasToken last nvs) : Holds last (loadIdentity mem mac nvs) := by
  obtain ⟨tok, hlast, hstored⟩ := h
  refine ⟨tok, hlast, ?_⟩
  show loadStr mem nvs stationTokItem 96 = if !mem stationTokItem then CStr.empty else strlcpy 96 tok
  unfold loadStr
  cases mem stationTokItem with
  | false =>
      rw [configGetStrBlobAlloc_none]
      rfl
  | true =>
      rw [configGetStrBlobAlloc_str rfl hstored]
      show strlcpy 96 (CStr.ofBytes (strlcpy 96 tok).bytes) = strlcpy 96 tok
      rw [CStr.ofBytes_self, strlcpy_strlcpy]

/-- **One event** keeps the store and the task in order, and what goes out is keyed. -/
theorem prov_step_ok {mac : List UInt8} {s : Prov} {os : List ProvObs} {e : ProvEvent}
    (h : ProvOk (lastIssued os) s) (he : e.Spares) :
    ProvOk (lastIssued (os ++ (prov mac).out s e)) ((prov mac).step s e) := by
  have hsilent : (prov mac).out s e = [] → ProvOk (lastIssued os) ((prov mac).step s e) →
      ProvOk (lastIssued (os ++ (prov mac).out s e)) ((prov mac).step s e) := by
    intro hout hs
    rw [hout, List.append_nil]
    exact hs
  obtain ⟨hstored, htask⟩ := h
  cases e with
  | boot mem =>
      refine hsilent rfl ?_
      show ProvOk _ (match s.phase with | .off => _ | _ => s)
      split
      · rename_i hphase
        rw [hphase] at htask
        exact ⟨hstored, identitySteps_quiet mem mac s.store, htask, loadIdentity_holds mem mac⟩
      · exact ⟨hstored, htask⟩
  | step =>
      refine hsilent rfl ?_
      show ProvOk _ (match s.phase with | .busy [] call => _ | .busy (st :: todo) call => _ | _ => s)
      split
      · rename_i hphase
        rw [hphase] at htask
        exact finish_ok hstored htask
      · rename_i hphase
        rw [hphase] at htask
        exact busy_step_ok hstored htask
      · exact ⟨hstored, htask⟩
  | enroll reply =>
      show ProvOk (lastIssued (os ++ if s.mayEnroll then _ else _)) (if s.mayEnroll then _ else s)
      cases hmay : s.mayEnroll with
      | false =>
          rw [if_neg Bool.false_ne_true, if_neg Bool.false_ne_true, List.append_nil]
          exact ⟨hstored, htask⟩
      | true =>
          obtain ⟨hphase, hzero⟩ := mayEnroll_phase hmay
          rw [hphase] at htask
          have hnone := htask.2 hzero
          rw [if_pos rfl, if_pos rfl]
          cases hreply : reply.bind enrollReply with
          | none =>
              have hfail : (reply.bind fun root => (enrollReply root).map fun r => (root, r)) = none := by
                cases reply with
                | none => rfl
                | some root =>
                    have hroot : enrollReply root = none := hreply
                    show (enrollReply root).map _ = none
                    rw [hroot]
                    rfl
              rw [hfail]
              show ProvOk (lastIssued (os ++ [_])) s
              rw [lastIssued_append _ _ rfl]
              exact ⟨hstored, hphase ▸ htask⟩
          | some r =>
              obtain ⟨root, rfl, hroot⟩ := Option.bind_eq_some_iff.mp hreply
              have hgot : ((some root).bind fun root => (enrollReply root).map fun r => (root, r)) = some (root, r) := by
                show (enrollReply root).map _ = _
                rw [hroot]
                rfl
              rw [hgot]
              obtain ⟨caster, tok⟩ := r
              show ProvOk (lastIssued (os ++ ([_] ++ [.issued tok]))) _
              rw [lastIssued_issued]
              exact ⟨hnone.imp fun _ hn he => absurd he hn, tok, rfl,
                .caster _ _ (casterSteps_quiet caster) (pollSteps_quiet root) hnone⟩
  | heartbeat mem fits reply =>
      show ProvOk (lastIssued (os ++ if s.mayBeat && fits then _ else _)) (if s.mayBeat then _ else s)
      have hlast : ∀ o : ProvObs, lastIssued [o] = none →
          lastIssued (os ++ if s.mayBeat && fits then [o] else []) = lastIssued os := by
        intro o ho
        split
        · exact lastIssued_append _ _ ho
        · rw [List.append_nil]
      rw [hlast _ rfl]
      cases hmay : s.mayBeat with
      | false => exact ⟨hstored, htask⟩
      | true =>
          obtain ⟨hphase, hone⟩ := mayBeat_phase hmay
          rw [hphase] at htask
          have hsession := htask.1 hone
          rw [if_pos rfl]
          split
          · exact ⟨hstored, replySteps_cases _ _ _, hsession.enrolled, hsession.stored, hsession.held⟩
          · have hnil : TaskOk (lastIssued os) { s with phase := .busy [] .heartbeat } (.busy [] .heartbeat) :=
              ⟨List.forall_mem_nil _, hsession.enrolled, hsession.stored, hsession.held⟩
            exact ⟨hstored, hnil⟩
  | cut kept => exact hsilent rfl ⟨hstored.cut kept, _, (Journal.always_clean _).mpr rfl⟩
  | other w =>
      have hf : Frame s { s with nvs := s.nvs.write w } := frame_write he rfl rfl
      exact hsilent rfl ⟨hf.stored hstored, hf.taskOk htask⟩
  | otherCommit =>
      have hf : Frame s { s with nvs := s.nvs.commit applyWrite } := frame_commit rfl rfl
      exact hsilent rfl ⟨hf.stored hstored, hf.taskOk htask⟩

theorem prov_out_keyed {mac : List UInt8} {s : Prov} {os : List ProvObs} (h : ProvOk (lastIssued os) s) (e : ProvEvent) :
    InPlace (fun pre o => Keyed (os ++ pre) o) ((prov mac).out s e) := by
  cases e with
  | heartbeat mem fits reply =>
      show InPlace _ (if s.mayBeat && fits then _ else _)
      split
      · rename_i hgo
        obtain ⟨hphase, hone⟩ := mayBeat_phase (Bool.and_eq_true_iff.mp hgo).1
        have htask := h.task
        rw [hphase] at htask
        refine inPlace_singleton ?_
        intro deviceId token tokenLost heq
        cases heq
        rw [List.append_nil]
        exact (htask.1 hone).held
      · exact inPlace_nil _
  | enroll reply =>
      show InPlace _ (if s.mayEnroll then _ else _)
      refine inPlace_of_forall fun o ho pre deviceId token tokenLost heq => ?_
      subst heq
      split at ho
      · rcases List.mem_cons.mp ho with ho | ho
        · cases ho
        · obtain ⟨r, _, hr⟩ := Option.map_eq_some_iff.mp (Option.mem_toList.mp ho)
          cases hr
      · cases ho
  | boot mem => exact inPlace_nil _
  | step => exact inPlace_nil _
  | cut kept => exact inPlace_nil _
  | other w => exact inPlace_nil _
  | otherCommit => exact inPlace_nil _

/-- A reply with a caster and a token. -/
def demoEnrollReply (tok : CStr) : JsonNode := .object [
  (CStr.ofBytes (ascii "caster"), sampleCaster), (CStr.ofBytes (ascii "station_token"), .string tok)]

def demoMac : List UInt8 := [0x24, 0x0A, 0xC4, 0x00, 0x01, 0x02]

/-- An unclaimed device with an enroll key. -/
def demoStore : Nvs := Nvs.set (fun _ => none) enrollKeyItem.key (.str ⟨ascii "5eed", by decide⟩)

/-- The power goes when the first token is written but not committed; the second enrollment goes through. -/
def demoEnroll : List ProvEvent :=
  [.boot fun _ => true] ++ List.replicate 3 .step ++ [.enroll (some (demoEnrollReply ⟨ascii "one", by decide⟩))] ++
    List.replicate 7 .step ++ [.cut 0, .boot fun _ => true, .step,
      .enroll (some (demoEnrollReply ⟨ascii "two", by decide⟩))] ++ List.replicate 10 .step ++
    [.heartbeat (fun _ => true) true none]

def identityKeys : List String := [deviceIdItem.key, enrollKeyItem.key, keyVerItem.key]

/-- What `config_reset` erases. -/
def configResetWrites : List NvsWrite := WebServer.resetKeys.map .erase

theorem configResetWrites_run (nvs : Nvs) : configResetWrites.foldl applyWrite nvs = WebServer.configReset nvs :=
  List.foldl_map

/-- **The reset button** is for the Wi-Fi only. -/
theorem configReset_spares : ∀ w ∈ configResetWrites, w.Spares ∧ w.key ∉ identityKeys := by
  have hkeys : ∀ key ∈ WebServer.resetKeys,
      (key ≠ rtkStateItem.key ∧ key ≠ stationTokItem.key) ∧ key ∉ identityKeys := by decide
  intro w hw
  obtain ⟨key, hkey, rfl⟩ := List.mem_map.mp hw
  exact hkeys key hkey

/-- The others leave the identity alone, and there is memory to read the device id when the task starts. -/
def ProvEvent.KeepsIdentity : ProvEvent → Prop
  | .other w => w.key ∉ identityKeys
  | .boot mem => mem deviceIdItem = true
  | _ => True

section Identity

variable (mac : List UInt8) (nvs₀ : Nvs)

/-- The identity that a task has when it starts over this store. -/
def identityOf : ProvRam := loadIdentity (fun _ => true) mac nvs₀

/-- A store with the identity of `nvs₀`. -/
structure SameIdentity (nvs : Nvs) : Prop where
  deviceId : (identityOf mac nvs).deviceId = (identityOf mac nvs₀).deviceId
  enrollKey : nvs enrollKeyItem.key = nvs₀ enrollKeyItem.key
  keyVer : nvs keyVerItem.key = nvs₀ keyVerItem.key

/-- The step leaves the identity alone, or stores the id where there was none. -/
def ProvStep.KeepsIdentity : ProvStep → Prop
  | .nvs w => w.key ∉ identityKeys ∨
      w = .set deviceIdItem.key (.str (macId mac)) ∧ (identityOf mac nvs₀).deviceId = macId mac
  | _ => True

/-- What goes out carries the identity of `nvs₀`. -/
def CarriesIdentity : ProvObs → Prop
  | .enrolling deviceId enrollKey keyVer =>
      deviceId = (identityOf mac nvs₀).deviceId ∧ enrollKey = (identityOf mac nvs₀).enrollKey ∧
        keyVer = (identityOf mac nvs₀).keyVer
  | .heartbeat deviceId _ _ => deviceId = (identityOf mac nvs₀).deviceId
  | .issued _ => True

structure IdentityOk (s : Prov) : Prop where
  stored : s.nvs.Always applyWrite (SameIdentity mac nvs₀)
  todo : ∀ todo call, s.phase = .busy todo call → ∀ st ∈ todo, st.KeepsIdentity mac nvs₀
  ram : s.phase = .off ∨ s.ram.deviceId = (identityOf mac nvs₀).deviceId ∧
    (s.ram.enrollKey = (identityOf mac nvs₀).enrollKey ∨ s.ram.enrollKey = CStr.empty) ∧
      s.ram.keyVer = (identityOf mac nvs₀).keyVer

variable {mac nvs₀}

theorem loadNonempty_congr {mem : ConfigItem → Bool} {nvs nvs' : Nvs} {item : ConfigItem}
    (h : nvs' item.key = nvs item.key) : loadNonempty mem nvs' item = loadNonempty mem nvs item := by
  have hread : configGetStrBlob nvs' item = configGetStrBlob nvs item := congrArg Readings.strBlob (readings_congr h)
  unfold loadNonempty configGetStrBlobAlloc
  rw [hread]

theorem loadStr_congr {mem : ConfigItem → Bool} {nvs nvs' : Nvs} {item : ConfigItem} {size : ℕ}
    (h : nvs' item.key = nvs item.key) : loadStr mem nvs' item size = loadStr mem nvs item size := by
  have hread : configGetStrBlob nvs' item = configGetStrBlob nvs item := congrArg Readings.strBlob (readings_congr h)
  unfold loadStr configGetStrBlobAlloc
  rw [hread]

/-- An id that was made from the address is read back. -/
theorem deviceId_stored {nvs : Nvs} (h : nvs deviceIdItem.key = some (.str (macId mac))) :
    (identityOf mac nvs).deviceId = macId mac := by
  have hread : configGetStrBlobAlloc true nvs deviceIdItem = (.espOk, some (macId mac).bytes) :=
    configGetStrBlobAlloc_str rfl h
  have hsome : loadNonempty (fun _ => true) nvs deviceIdItem = some (CStr.ofBytes (macId mac).bytes) := by
    unfold loadNonempty
    rw [hread]
    rfl
  show (match loadNonempty (fun _ => true) nvs deviceIdItem with
    | some dev => strlcpy 40 dev
    | none => macId mac) = macId mac
  rw [hsome, CStr.ofBytes_self]
  exact strlcpy_strlcpy 40 _

/-- A write that keeps the identity. -/
theorem SameIdentity.write {nvs : Nvs} (h : SameIdentity mac nvs₀ nvs) {w : NvsWrite}
    (hw : (ProvStep.nvs w).KeepsIdentity mac nvs₀) : SameIdentity mac nvs₀ (applyWrite nvs w) := by
  rcases hw with hw | ⟨rfl, hid⟩
  · have hkeys : w.key ≠ deviceIdItem.key ∧ w.key ≠ enrollKeyItem.key ∧ w.key ≠ keyVerItem.key := by
      simpa [identityKeys] using hw
    obtain ⟨hdev, henr, hver⟩ := hkeys
    refine ⟨?_, (applyWrite_other nvs henr).trans h.enrollKey, (applyWrite_other nvs hver).trans h.keyVer⟩
    rw [← h.deviceId]
    show (match loadNonempty (fun _ => true) (applyWrite nvs w) deviceIdItem with
      | some dev => strlcpy 40 dev
      | none => macId mac) = _
    rw [loadNonempty_congr (applyWrite_other nvs hdev)]
    rfl
  · have henr : deviceIdItem.key ≠ enrollKeyItem.key := by decide
    have hver : deviceIdItem.key ≠ keyVerItem.key := by decide
    refine ⟨?_, ?_, ?_⟩
    · rw [hid]
      exact deviceId_stored (Nvs.set_same _ _ _)
    · exact (Nvs.set_other nvs _ (Ne.symm henr)).trans h.enrollKey
    · exact (Nvs.set_other nvs _ (Ne.symm hver)).trans h.keyVer

theorem keepsIdentity_of_key {w : NvsWrite} (h : w.key ∉ identityKeys) :
    (ProvStep.nvs w).KeepsIdentity mac nvs₀ := .inl h

theorem casterSteps_keep (caster : JsonNode) :
    ∀ st ∈ (casterWrites caster).map ProvStep.nvs ++ [.commit], st.KeepsIdentity mac nvs₀ := by
  have hkeys : ∀ key ∈ casterKeys, key ∉ identityKeys := by decide
  intro st hst
  rcases List.mem_append.mp hst with hst | hst
  · obtain ⟨w, hw, rfl⟩ := List.mem_map.mp hst
    exact .inl (hkeys w.key (casterWrites_key caster w hw))
  · rw [List.mem_singleton.mp hst]
    trivial

theorem stateStep_keep (v : ℤ) : (ProvStep.nvs (stateWrite v)).KeepsIdentity mac nvs₀ := by
  have hkey : rtkStateItem.key ∉ identityKeys := by decide
  exact .inl hkey

theorem enrollSteps_keep (root caster : JsonNode) (tok : CStr) :
    ∀ st ∈ enrollSteps root caster tok, st.KeepsIdentity mac nvs₀ := by
  have hpoll : ∀ st ∈ pollSteps root, st.KeepsIdentity mac nvs₀ := by
    intro st hst
    obtain ⟨n, _, rfl⟩ := List.mem_map.mp hst
    trivial
  unfold enrollSteps
  refine List.forall_mem_append.mpr ⟨casterSteps_keep caster, ?_⟩
  refine List.forall_mem_cons.mpr ⟨trivial, List.forall_mem_cons.mpr ⟨trivial, ?_⟩⟩
  exact List.forall_mem_append.mpr ⟨hpoll,
    List.forall_mem_cons.mpr ⟨stateStep_keep 1, List.forall_mem_singleton.mpr trivial⟩⟩

theorem replySteps_keep (mem : ConfigItem → Bool) (nvs : Nvs) (root : JsonNode) :
    ∀ st ∈ replySteps mem nvs root, st.KeepsIdentity mac nvs₀ := by
  unfold replySteps
  refine List.forall_mem_append.mpr ⟨?_, ?_⟩
  · split
    · exact List.forall_mem_nil _
    · exact casterSteps_keep _
  · split
    · exact List.forall_mem_nil _
    · exact List.forall_mem_cons.mpr ⟨stateStep_keep _, List.forall_mem_singleton.mpr trivial⟩

/-- **What the task reads at its start** is the identity. -/
theorem loadIdentity_same {mem : ConfigItem → Bool} {nvs : Nvs} (hmem : mem deviceIdItem = true)
    (h : SameIdentity mac nvs₀ nvs) :
    (loadIdentity mem mac nvs).deviceId = (identityOf mac nvs₀).deviceId ∧
      ((loadIdentity mem mac nvs).enrollKey = (identityOf mac nvs₀).enrollKey ∨
        (loadIdentity mem mac nvs).enrollKey = CStr.empty) ∧
      (loadIdentity mem mac nvs).keyVer = (identityOf mac nvs₀).keyVer := by
  refine ⟨?_, ?_, ?_⟩
  · rw [← h.deviceId]
    show (match loadNonempty mem nvs deviceIdItem with
      | some dev => strlcpy 40 dev
      | none => macId mac) = _
    have hload : loadNonempty mem nvs deviceIdItem = loadNonempty (fun _ => true) nvs deviceIdItem := by
      unfold loadNonempty
      rw [hmem]
    rw [hload]
    rfl
  · show loadStr mem nvs enrollKeyItem 80 = loadStr (fun _ => true) nvs₀ enrollKeyItem 80 ∨ _ = _
    rw [← loadStr_congr h.enrollKey]
    cases henr : mem enrollKeyItem with
    | true =>
        left
        unfold loadStr
        rw [henr]
    | false =>
        right
        show loadStr mem nvs enrollKeyItem 80 = CStr.empty
        unfold loadStr
        rw [henr, configGetStrBlobAlloc_none]
  · have hread : configGetU8 nvs keyVerItem = configGetU8 nvs₀ keyVerItem :=
      congrArg Readings.u8 (readings_congr h.keyVer)
    show (if configGetU8 nvs keyVerItem = 0 then 1 else configGetU8 nvs keyVerItem) = _
    rw [hread]
    rfl

theorem identitySteps_keep {mem : ConfigItem → Bool} {nvs : Nvs} (hmem : mem deviceIdItem = true)
    (h : SameIdentity mac nvs₀ nvs) : ∀ st ∈ identitySteps mem mac nvs, st.KeepsIdentity mac nvs₀ := by
  obtain ⟨hid, _⟩ := loadIdentity_same hmem h
  unfold identitySteps
  split
  · exact List.forall_mem_nil _
  · rename_i hnone
    refine List.forall_mem_cons.mpr ⟨.inr ⟨rfl, ?_⟩, List.forall_mem_singleton.mpr trivial⟩
    rw [← hid]
    show (match loadNonempty mem nvs deviceIdItem with
      | some dev => strlcpy 40 dev
      | none => macId mac) = _
    rw [hnone]

/-- A step of the task. -/
theorem IdentityOk.run {s : Prov} (h : IdentityOk mac nvs₀ s) {st : ProvStep} {todo : List ProvStep} {call : ProvCall}
    (hphase : s.phase = .busy (st :: todo) call) : IdentityOk mac nvs₀ { st.run s with phase := .busy todo call } := by
  have hkeep := h.todo _ _ hphase
  obtain ⟨hst, hrest⟩ := List.forall_mem_cons.mp hkeep
  have hram := h.ram.resolve_left fun hoff => by rw [hphase] at hoff; cases hoff
  have hnext : ∀ todo' call', ProvPhase.busy todo call = .busy todo' call' →
      ∀ st ∈ todo', st.KeepsIdentity mac nvs₀ := by
    intro todo' call' heq
    cases heq
    exact hrest
  cases st with
  | nvs w => exact ⟨(Journal.always_write w).mpr ⟨h.stored, h.stored.now.write hst⟩, hnext, .inr hram⟩
  | commit => exact ⟨h.stored.commit, hnext, .inr hram⟩
  | token tok => exact ⟨h.stored, hnext, .inr hram⟩
  | storeToken =>
      have hkey : stationTokItem.key ∉ identityKeys := by decide
      exact ⟨(Journal.always_write _).mpr ⟨h.stored, h.stored.now.write (keepsIdentity_of_key hkey)⟩, hnext, .inr hram⟩
  | poll n => exact ⟨h.stored, hnext, .inr hram⟩

theorem IdentityOk.finish {s : Prov} (h : IdentityOk mac nvs₀ s) {call : ProvCall} (hphase : s.phase = .busy [] call) :
    IdentityOk mac nvs₀ (call.finish s) := by
  have hram := h.ram.resolve_left fun hoff => by rw [hphase] at hoff; cases hoff
  cases call <;> exact ⟨h.stored, (fun _ _ heq => by cases heq), .inr hram⟩

/-- A call begins with these steps. -/
theorem IdentityOk.begin {s : Prov} (h : IdentityOk mac nvs₀ s) (hphase : s.phase = .top) {todo : List ProvStep}
    (htodo : ∀ st ∈ todo, st.KeepsIdentity mac nvs₀) (call : ProvCall) :
    IdentityOk mac nvs₀ { s with phase := .busy todo call } := by
  have hram := h.ram.resolve_left fun hoff => by rw [hphase] at hoff; cases hoff
  refine ⟨h.stored, ?_, .inr hram⟩
  intro todo' call' heq
  cases heq
  exact htodo

/-- **One event** keeps the identity. -/
theorem identity_step {s : Prov} (h : IdentityOk mac nvs₀ s) {e : ProvEvent} (he : e.KeepsIdentity) :
    IdentityOk mac nvs₀ ((prov mac).step s e) := by
  cases e with
  | boot mem =>
      show IdentityOk mac nvs₀ (match s.phase with | .off => _ | _ => s)
      split
      · refine ⟨h.stored, ?_, .inr (loadIdentity_same he h.stored.now)⟩
        intro todo call heq
        cases heq
        exact identitySteps_keep he h.stored.now
      · exact h
  | step =>
      show IdentityOk mac nvs₀ (match s.phase with | .busy [] call => _ | .busy (st :: todo) call => _ | _ => s)
      split
      · rename_i hphase
        exact h.finish hphase
      · rename_i hphase
        exact h.run hphase
      · exact h
  | enroll reply =>
      show IdentityOk mac nvs₀ (if s.mayEnroll then _ else s)
      split
      · rename_i hmay
        obtain ⟨hphase, _⟩ := mayEnroll_phase hmay
        split
        · exact h.begin hphase (enrollSteps_keep _ _ _) .enroll
        · exact h
      · exact h
  | heartbeat mem fits reply =>
      show IdentityOk mac nvs₀ (if s.mayBeat then _ else s)
      split
      · rename_i hmay
        obtain ⟨hphase, _⟩ := mayBeat_phase hmay
        split
        · exact h.begin hphase (replySteps_keep _ _ _) .heartbeat
        · exact h.begin hphase (List.forall_mem_nil _) .heartbeat
      · exact h
  | cut kept => exact ⟨h.stored.cut kept, (fun _ _ heq => by cases heq), .inl rfl⟩
  | other w =>
      exact ⟨(Journal.always_write w).mpr ⟨h.stored, h.stored.now.write (keepsIdentity_of_key he)⟩, h.todo, h.ram⟩
  | otherCommit => exact ⟨h.stored.commit, h.todo, h.ram⟩

theorem identity_out {s : Prov} (h : IdentityOk mac nvs₀ s) (e : ProvEvent) :
    ∀ o ∈ (prov mac).out s e, CarriesIdentity mac nvs₀ o := by
  have hram : s.phase = .top → _ := fun htop => h.ram.resolve_left fun hoff => by rw [htop] at hoff; cases hoff
  cases e with
  | enroll reply =>
      show ∀ o ∈ (if s.mayEnroll then _ else _), CarriesIdentity mac nvs₀ o
      split
      · rename_i hmay
        obtain ⟨hdev, henr, hver⟩ := hram (mayEnroll_phase hmay).1
        have hkey : s.ram.enrollKey ≠ CStr.empty := by
          intro hempty
          unfold Prov.mayEnroll at hmay
          rw [(mayEnroll_phase hmay).1, hempty] at hmay
          simp [CStr.empty] at hmay
        refine List.forall_mem_cons.mpr ⟨⟨hdev, henr.resolve_right hkey, hver⟩, ?_⟩
        intro o ho
        obtain ⟨r, _, rfl⟩ := Option.map_eq_some_iff.mp (Option.mem_toList.mp ho)
        trivial
      · exact List.forall_mem_nil _
  | heartbeat mem fits reply =>
      show ∀ o ∈ (if s.mayBeat && fits then _ else _), CarriesIdentity mac nvs₀ o
      split
      · rename_i hgo
        have hphase := (mayBeat_phase (Bool.and_eq_true_iff.mp hgo).1).1
        exact List.forall_mem_singleton.mpr (hram hphase).1
      · exact List.forall_mem_nil _
  | boot mem => exact List.forall_mem_nil _
  | step => exact List.forall_mem_nil _
  | cut kept => exact List.forall_mem_nil _
  | other w => exact List.forall_mem_nil _
  | otherCommit => exact List.forall_mem_nil _

end Identity

end RtkdataFw.Provisioning
