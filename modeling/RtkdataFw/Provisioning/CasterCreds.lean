import RtkdataFw.Config.Items
import RtkdataFw.Lib.Machine

/-!
# Caster credentials in a reply

`caster_creds_differ` compares the `caster` object of a reply with the store, `write_caster_creds` puts it there,
and `apply_reply` does the second when the first says so.  Every allocation of the comparison may fail.

* `casterCredsDiffer`, `writeCasterCreds` — field by field, the four strings as one family;
* `strDiffers_of_written`, `setStr_of_same` — what one field that was written compares to, and what writing an equal
  one changes;
* `casterCredsDiffer_write`, `casterKept` — the same for the object;
* `caster_creds_agree` — so a `config_delta` that is repeated re-points the caster at most once.
-/

namespace RtkdataFw.Provisioning

open RtkdataFw.Lib RtkdataFw.Config

/-! ### The reply -/

/-- A node of a parsed reply, as far as the code looks at it. -/
inductive JsonNode where
  | string (valuestring : CStr)
  | number (valueint : ℤ)
  | object (children : List (CStr × JsonNode))
  | other

/-- `cJSON_GetObjectItem`: the first member whose name is this one up to case. -/
def JsonNode.getObjectItem (object : JsonNode) (name : String) : Option JsonNode :=
  match object with
  | .object children => (children.find? fun c => strcasecmp (ascii name) c.1.bytes = 0).map Prod.snd
  | _ => none

/-- `cJSON_IsString (item)`, and its `valuestring`. -/
def isString : Option JsonNode → Option CStr
  | some (.string s) => some s
  | _ => none

/-- `cJSON_IsNumber (item)`, and its `valueint`. -/
def isNumber : Option JsonNode → Option ℤ
  | some (.number n) => some n
  | _ => none

/-- `cJSON_IsObject (item)`. -/
def isObject : Option JsonNode → Option JsonNode
  | some (.object children) => some (.object children)
  | _ => none

/-! ### The items -/

/-- `config_get_item`. -/
def configGetItem (key : String) : Option ConfigItem := configItems.find? fun item => item.key = key

def casterHost : ConfigItem := stringItem "ntr_srv_host" false ""

def casterPort : ConfigItem := numberItem "ntr_srv_port" .uint16 false 2101

def casterMountpoint : ConfigItem := stringItem "ntr_srv_mp" false ""

def casterUsername : ConfigItem := stringItem "ntr_srv_user" false ""

def casterPassword : ConfigItem := stringItem "ntr_srv_pass" true ""

/-- The items that hold the strings of a `caster` object. -/
def casterStrings : List ConfigItem := [casterHost, casterMountpoint, casterUsername, casterPassword]

theorem configGetItem_of_mem {item : ConfigItem} (h : item ∈ configItems) :
    configGetItem item.key = some item := by
  rw [configGetItem]
  cases hfound : configItems.find? fun i => i.key = item.key with
  | none => exact absurd (decide_eq_true rfl) (List.find?_eq_none.mp hfound item h)
  | some i =>
      have hkey : i.key = item.key := by simpa using List.find?_some hfound
      rw [key_inj (List.mem_of_find?_eq_some hfound) h hkey]

/-- **The items are those of `CONF_ITEM`**. -/
theorem configGetItem_caster {item : ConfigItem} (h : item ∈ casterPort :: casterStrings) :
    configGetItem item.key = some item := by
  apply configGetItem_of_mem
  have hserver : item ∈ ntripServerItems "" 1 := by
    have hall : ∀ i ∈ casterPort :: casterStrings, i ∈ ntripServerItems "" 1 := by decide
    exact hall item h
  simp only [configItems, List.mem_append]
  tauto

/-- `config_get_str_blob_alloc`, with whether `malloc` succeeds; what `*out_value` points to if it is set. -/
def configGetStrBlobAlloc (mem : Bool) (nvs : Nvs) (item : ConfigItem) : EspErr × Option (List UInt8) :=
  let ret := (configGetStrBlob nvs item).1
  if ret ≠ .espOk then (ret, none)
  else if mem = true then configGetStrBlob nvs item
  else (ret, none)

/-! ### Comparing and writing -/

/-- One string of `caster_creds_differ`. -/
def strDiffers (mem : ConfigItem → Bool) (nvs : Nvs) (caster : JsonNode) (name : String) (item : ConfigItem) :
    Bool :=
  match isString (caster.getObjectItem name) with
  | none => false
  | some s =>
      match (configGetStrBlobAlloc (mem item) nvs item).2 with
      | none => true
      | some cur => cur ≠ s.bytes

/-- The port of `caster_creds_differ`. -/
def portDiffers (nvs : Nvs) (caster : JsonNode) : Bool :=
  match isNumber (caster.getObjectItem "port") with
  | none => false
  | some n => configGetU16 nvs casterPort ≠ lowBits .u16 n

def casterCredsDiffer (mem : ConfigItem → Bool) (nvs : Nvs) (caster : JsonNode) : Bool :=
  strDiffers mem nvs caster "host" casterHost || strDiffers mem nvs caster "mountpoint" casterMountpoint ||
    strDiffers mem nvs caster "username" casterUsername || strDiffers mem nvs caster "password" casterPassword ||
    portDiffers nvs caster

/-- `if (cJSON_IsString(f)) set_str(key, f->valuestring);`. -/
def setStr (nvs : Nvs) (caster : JsonNode) (name : String) (item : ConfigItem) : Nvs :=
  match isString (caster.getObjectItem name) with
  | none => nvs
  | some s => nvs.set item.key (.str s)

/-- `if (cJSON_IsNumber(port)) config_set_u16(KEY_CONFIG_NTRIP_SERVER_PORT, (uint16_t)port->valueint);`. -/
def setPort (nvs : Nvs) (caster : JsonNode) : Nvs :=
  match isNumber (caster.getObjectItem "port") with
  | none => nvs
  | some n => nvsSetNumber nvs .u16 casterPort.key n

def writeCasterCreds (nvs : Nvs) (caster : JsonNode) : Nvs :=
  let nvs := setStr nvs caster "host" casterHost
  let nvs := setPort nvs caster
  let nvs := setStr nvs caster "mountpoint" casterMountpoint
  let nvs := setStr nvs caster "username" casterUsername
  let nvs := setStr nvs caster "password" casterPassword
  nvsSetNumber nvs .i8 "ntr_srv_actv" 1

/-! ### Replies -/

/-- `RTK_PROVISIONING`, `RTK_MATURING`, `RTK_ACTIVE`. -/
def rtkState (state : CStr) : ℤ :=
  if state.bytes = ascii "maturing" then 2 else if state.bytes = ascii "active" then 3 else 1

/-- `config_delta` and its `caster`, if both are objects. -/
def deltaCaster (root : JsonNode) : Option JsonNode :=
  (isObject (root.getObjectItem "config_delta")).bind fun delta => isObject (delta.getObjectItem "caster")

/-- The caster that a reply re-points to: `ntrip_server_reconnect_all` follows. -/
def repointedTo (mem : ConfigItem → Bool) (nvs : Nvs) (root : JsonNode) : Option JsonNode :=
  (deltaCaster root).filter fun caster => casterCredsDiffer mem nvs caster

/-- What `apply_reply` does to the store. -/
def applyReply (mem : ConfigItem → Bool) (nvs : Nvs) (root : JsonNode) : Nvs :=
  let nvs :=
    match repointedTo mem nvs root with
    | none => nvs
    | some caster => writeCasterCreds nvs caster
  match isString (root.getObjectItem "state") with
  | none => nvs
  | some state => nvsSetNumber nvs .u8 "rtk_state" (rtkState state)

/-- Heartbeats, one reply after the other; each `ntrip_server_reconnect_all` is put out. -/
def heartbeats (mem : ConfigItem → Bool) : Machine Nvs JsonNode JsonNode where
  step nvs root := applyReply mem nvs root
  out nvs root := (repointedTo mem nvs root).toList

/-! ### One field -/

section Fields

variable {nvs nvs' : Nvs} {caster : JsonNode} {name : String} {item : ConfigItem}

theorem setStr_other {key : String} (h : key ≠ item.key) : setStr nvs caster name item key = nvs key := by
  rw [setStr]
  cases isString (caster.getObjectItem name) with
  | none => rfl
  | some s => exact Nvs.set_other nvs _ h

theorem setPort_other {key : String} (h : key ≠ casterPort.key) : setPort nvs caster key = nvs key := by
  rw [setPort]
  cases isNumber (caster.getObjectItem "port") with
  | none => rfl
  | some n => exact Nvs.set_other nvs _ h

theorem setStr_self : setStr nvs caster name item item.key =
    (isString (caster.getObjectItem name)).elim (nvs item.key) fun s => some (.str s) := by
  rw [setStr]
  cases isString (caster.getObjectItem name) with
  | none => rfl
  | some s => exact Nvs.set_same nvs item.key _

theorem setPort_self : setPort nvs caster casterPort.key =
    (isNumber (caster.getObjectItem "port")).elim (nvs casterPort.key) fun n =>
      some (.number .u16 (lowBits .u16 n)) := by
  rw [setPort]
  cases isNumber (caster.getObjectItem "port") with
  | none => rfl
  | some n => exact nvsSetNumber_same nvs .u16 casterPort.key n

/-- A string differs unless it is just what was read. -/
theorem strDiffers_eq_false_iff {mem : ConfigItem → Bool} :
    strDiffers mem nvs caster name item = false ↔ ∀ s ∈ isString (caster.getObjectItem name),
      (configGetStrBlobAlloc (mem item) nvs item).2 = some s.bytes := by
  rw [strDiffers]
  cases isString (caster.getObjectItem name) with
  | none => exact iff_of_true rfl fun s hs => by cases hs
  | some s =>
      dsimp only
      cases (configGetStrBlobAlloc (mem item) nvs item).2 with
      | none => exact iff_of_false Bool.noConfusion fun h => by cases h s rfl
      | some cur =>
          dsimp only
          rw [decide_eq_false_iff_not, not_not]
          constructor
          · rintro rfl t ht
            rw [Option.some.inj ht]
          · exact fun h => Option.some.inj (h s rfl)

theorem portDiffers_eq_false_iff : portDiffers nvs caster = false ↔
    ∀ n ∈ isNumber (caster.getObjectItem "port"), configGetU16 nvs casterPort = lowBits .u16 n := by
  rw [portDiffers]
  cases isNumber (caster.getObjectItem "port") with
  | none => exact iff_of_true rfl fun n hn => by cases hn
  | some n =>
      dsimp only
      rw [decide_eq_false_iff_not, not_not]
      constructor
      · intro h m hm
        rw [← Option.some.inj hm]
        exact h
      · exact fun h => h n rfl

/-- A string that was stored is read back. -/
theorem configGetStrBlobAlloc_str {s : CStr} (ht : item.type = .string) (h : nvs item.key = some (.str s)) :
    configGetStrBlobAlloc true nvs item = (.espOk, some s.bytes) := by
  have hread : configGetStrBlob nvs item = (.espOk, some s.bytes) := by
    rw [configGetStrBlob, ht, nvsGetStr, h]
  rw [configGetStrBlobAlloc, hread]
  rfl

/-- **A string that was written does not differ.** -/
theorem strDiffers_of_written (ht : item.type = .string)
    (h : nvs item.key = setStr nvs' caster name item item.key) :
    strDiffers (fun _ => true) nvs caster name item = false := by
  rw [strDiffers_eq_false_iff]
  intro s hs
  rw [setStr_self, Option.mem_def.mp hs] at h
  rw [configGetStrBlobAlloc_str ht h]

theorem configGetU16_entry {bits : ℕ} (h : nvs item.key = some (.number .u16 bits)) :
    configGetU16 nvs item = bits := by
  rw [configGetU16, configGetBits, nvsGetNumber, h]
  rfl

/-- **A port that was written does not differ.** -/
theorem portDiffers_of_written (h : nvs casterPort.key = setPort nvs' caster casterPort.key) :
    portDiffers nvs caster = false := by
  rw [portDiffers_eq_false_iff]
  intro n hn
  rw [setPort_self, Option.mem_def.mp hn] at h
  exact configGetU16_entry h

theorem strDiffers_congr {mem : ConfigItem → Bool} (h : nvs' item.key = nvs item.key) :
    strDiffers mem nvs' caster name item = strDiffers mem nvs caster name item := by
  have hread : configGetStrBlob nvs' item = configGetStrBlob nvs item :=
    congrArg Readings.strBlob (readings_congr h)
  rw [strDiffers, strDiffers, configGetStrBlobAlloc, configGetStrBlobAlloc, hread]

theorem portDiffers_congr (h : nvs' casterPort.key = nvs casterPort.key) :
    portDiffers nvs' caster = portDiffers nvs caster := by
  have hread : configGetU16 nvs' casterPort = configGetU16 nvs casterPort :=
    congrArg Readings.u16 (readings_congr h)
  rw [portDiffers, portDiffers, hread]

/-- What an allocation and a read can give: the string that is stored, or the default of a key without an
entry. -/
theorem entry_of_alloc {mem : Bool} {cur : List UInt8} (ht : item.type = .string)
    (h : (configGetStrBlobAlloc mem nvs item).2 = some cur) :
    (∃ s, nvs item.key = some (.str s) ∧ cur = s.bytes) ∨
      (nvs item.key = none ∧ cur = item.default.str.bytes) := by
  have hread : (configGetStrBlob nvs item).2 = some cur := by
    rw [configGetStrBlobAlloc] at h
    split at h
    · cases h
    split at h
    · exact h
    · cases h
  rw [configGetStrBlob, ht, nvsGetStr] at hread
  cases hentry : nvs item.key with
  | none =>
      rw [hentry] at hread
      exact Or.inr ⟨rfl, (Option.some.inj hread).symm⟩
  | some entry =>
      rw [hentry] at hread
      cases entry with
      | str s => exact Or.inl ⟨s, rfl, (Option.some.inj hread).symm⟩
      | number t bits => cases hread
      | blob bytes => cases hread

/-- **A string that does not differ** is written over the same one, or over a missing entry whose default it
is. -/
theorem setStr_of_same {mem : ConfigItem → Bool} (ht : item.type = .string)
    (h : strDiffers mem nvs caster name item = false) :
    setStr nvs caster name item item.key = nvs item.key ∨
      (nvs item.key = none ∧ setStr nvs caster name item item.key = some (.str item.default.str)) := by
  rw [strDiffers_eq_false_iff] at h
  rw [setStr_self]
  cases hs : isString (caster.getObjectItem name) with
  | none => exact Or.inl rfl
  | some s =>
      rcases entry_of_alloc ht (h s hs) with ⟨t, hentry, hbytes⟩ | ⟨hentry, hbytes⟩
      · left
        rw [hentry, CStr.bytes_inj hbytes]
        rfl
      · right
        rw [CStr.bytes_inj hbytes]
        exact ⟨hentry, rfl⟩

end Fields

/-! ### The object -/

section Object

variable {nvs : Nvs} {caster : JsonNode}

/-- The strings of a `caster` object and their items. -/
def casterFields : List (String × ConfigItem) :=
  [("host", casterHost), ("mountpoint", casterMountpoint), ("username", casterUsername),
    ("password", casterPassword)]

theorem casterFields_string {name : String} {item : ConfigItem} (h : (name, item) ∈ casterFields) :
    item.type = .string := by
  have hall : ∀ f ∈ casterFields, f.2.type = .string := List.forall_mem_cons.mpr
    ⟨rfl, List.forall_mem_cons.mpr ⟨rfl, List.forall_mem_cons.mpr ⟨rfl, List.forall_mem_singleton.mpr rfl⟩⟩⟩
  exact hall _ h

theorem casterCredsDiffer_eq_false_iff {mem : ConfigItem → Bool} :
    casterCredsDiffer mem nvs caster = false ↔
      (∀ f ∈ casterFields, strDiffers mem nvs caster f.1 f.2 = false) ∧ portDiffers nvs caster = false := by
  simp only [casterCredsDiffer, Bool.or_eq_false_iff, casterFields, List.forall_mem_cons, List.not_mem_nil,
    false_implies, implies_true, and_true, and_assoc]

/-- **Each string is written once**, and nothing else writes its key. -/
theorem writeCasterCreds_string {name : String} {item : ConfigItem} (h : (name, item) ∈ casterFields) :
    writeCasterCreds nvs caster item.key = setStr nvs caster name item item.key := by
  simp only [casterFields, List.mem_cons, Prod.mk.injEq, List.not_mem_nil, or_false] at h
  obtain ⟨rfl, rfl⟩ | ⟨rfl, rfl⟩ | ⟨rfl, rfl⟩ | ⟨rfl, rfl⟩ := h
  all_goals
    simp (disch := decide) only [writeCasterCreds, nvsSetNumber_other, setStr_other, setPort_other, setStr_self]

theorem writeCasterCreds_port :
    writeCasterCreds nvs caster casterPort.key = setPort nvs caster casterPort.key := by
  simp (disch := decide) only [writeCasterCreds, nvsSetNumber_other, setStr_other, setPort_self]

/-- **After a write nothing differs**, as long as there is memory to compare. -/
theorem casterCredsDiffer_write (nvs : Nvs) (caster : JsonNode) :
    casterCredsDiffer (fun _ => true) (writeCasterCreds nvs caster) caster = false := by
  rw [casterCredsDiffer_eq_false_iff]
  refine ⟨?_, portDiffers_of_written writeCasterCreds_port⟩
  intro f hf
  exact strDiffers_of_written (casterFields_string hf) (writeCasterCreds_string hf)

/-- What a write that was not needed leaves of the five fields: what every getter returns for a string, and the
port as it is read.  An entry that was there is the same; at most a default was written out. -/
structure CasterKept (nvs nvs' : Nvs) : Prop where
  strings : ∀ item ∈ casterStrings, readings nvs' item = readings nvs item
  stringEntries : ∀ item ∈ casterStrings, ∀ entry ∈ nvs item.key, nvs' item.key = some entry
  port : configGetU16 nvs' casterPort = configGetU16 nvs casterPort
  portEntry : ∀ bits, nvs casterPort.key = some (.number .u16 bits) →
    nvs' casterPort.key = some (.number .u16 bits)

/-- **A write that was not needed** leaves the fields as they were. -/
theorem casterKept {mem : ConfigItem → Bool} (h : casterCredsDiffer mem nvs caster = false) :
    CasterKept nvs (writeCasterCreds nvs caster) := by
  obtain ⟨hstrings, hport⟩ := casterCredsDiffer_eq_false_iff.mp h
  have hfield : ∀ item ∈ casterStrings, item.type = .string ∧
      (writeCasterCreds nvs caster item.key = nvs item.key ∨
        (nvs item.key = none ∧ writeCasterCreds nvs caster item.key = some (.str item.default.str))) := by
    intro item hitem
    obtain ⟨f, hf, rfl⟩ := List.mem_map.mp (show item ∈ casterFields.map Prod.snd from hitem)
    refine ⟨casterFields_string hf, ?_⟩
    rw [writeCasterCreds_string hf]
    exact setStr_of_same (casterFields_string hf) (hstrings f hf)
  have hwritten : (nvs casterPort.key = writeCasterCreds nvs caster casterPort.key) ∨
      writeCasterCreds nvs caster casterPort.key = some (.number .u16 (configGetU16 nvs casterPort)) := by
    rw [writeCasterCreds_port, setPort_self]
    cases hn : isNumber (caster.getObjectItem "port") with
    | none => exact Or.inl rfl
    | some n =>
        right
        rw [portDiffers_eq_false_iff.mp hport n hn]
        rfl
  refine ⟨?_, ?_, ?_, ?_⟩
  · intro item hitem
    obtain ⟨htype, hsame | ⟨hnone, hdefault⟩⟩ := hfield item hitem
    · exact readings_congr hsame
    · exact readings_str htype hnone hdefault
  · intro item hitem entry hentry
    obtain ⟨-, hsame | ⟨hnone, -⟩⟩ := hfield item hitem
    · exact hsame.trans hentry
    · exact absurd (hnone.symm.trans hentry) (by simp)
  · rcases hwritten with hsame | hnew
    · exact congrArg Readings.u16 (readings_congr hsame.symm)
    · exact configGetU16_entry hnew
  · intro bits hbits
    rcases hwritten with hsame | hnew
    · exact hsame.symm.trans hbits
    · rw [hnew, configGetU16_entry hbits]

end Object

/-! ### Heartbeats -/

section Heartbeats

variable {nvs : Nvs} {root caster : JsonNode}

/-- The state that `apply_reply` stores last is no caster field. -/
theorem casterCredsDiffer_state {mem : ConfigItem → Bool} (value : ℤ) :
    casterCredsDiffer mem (nvsSetNumber nvs .u8 "rtk_state" value) caster = casterCredsDiffer mem nvs caster := by
  have hother : ∀ {key : String}, key ≠ "rtk_state" → nvsSetNumber nvs .u8 "rtk_state" value key = nvs key :=
    fun hne => nvsSetNumber_other nvs .u8 value hne
  rw [casterCredsDiffer, casterCredsDiffer, strDiffers_congr (hother (by decide)),
    strDiffers_congr (hother (by decide)), strDiffers_congr (hother (by decide)),
    strDiffers_congr (hother (by decide)), portDiffers_congr (hother (by decide))]

theorem casterCredsDiffer_applyReply {mem : ConfigItem → Bool} :
    casterCredsDiffer mem (applyReply mem nvs root) caster =
      casterCredsDiffer mem ((repointedTo mem nvs root).elim nvs (writeCasterCreds nvs)) caster := by
  rw [applyReply]
  cases repointedTo mem nvs root <;> cases isString (root.getObjectItem "state")
  · rfl
  · exact casterCredsDiffer_state _
  · rfl
  · exact casterCredsDiffer_state _

/-- How often this caster may still be re-pointed to. -/
def bouncesLeft (caster : JsonNode) (nvs : Nvs) : ℕ :=
  if casterCredsDiffer (fun _ => true) nvs caster = true then 1 else 0

/-- **One reply** spends what it puts out. -/
theorem bouncesLeft_step (h : deltaCaster root = none ∨ deltaCaster root = some caster) :
    ((heartbeats fun _ => true).out nvs root).length +
      bouncesLeft caster ((heartbeats fun _ => true).step nvs root) ≤ bouncesLeft caster nvs := by
  have hnext : bouncesLeft caster ((heartbeats fun _ => true).step nvs root) =
      bouncesLeft caster ((repointedTo (fun _ => true) nvs root).elim nvs (writeCasterCreds nvs)) := by
    rw [bouncesLeft, bouncesLeft, ← casterCredsDiffer_applyReply]
    rfl
  have hout : (heartbeats fun _ => true).out nvs root = (repointedTo (fun _ => true) nvs root).toList := rfl
  rw [hnext, hout, repointedTo]
  rcases h with hnone | hsome
  · rw [hnone]
    exact Nat.le_of_eq (Nat.zero_add _)
  rw [hsome]
  by_cases hdiffer : casterCredsDiffer (fun _ => true) nvs caster = true
  · rw [Option.filter_some_pos hdiffer]
    show 1 + bouncesLeft caster (writeCasterCreds nvs caster) ≤ _
    rw [bouncesLeft, bouncesLeft, casterCredsDiffer_write, if_pos hdiffer]
    decide
  · rw [Option.filter_some_neg (Bool.eq_false_iff.mpr hdiffer)]
    exact Nat.le_of_eq (Nat.zero_add _)

/-- **Comparing and writing agree**, for any object and any store; so a `config_delta` that comes with every
reply, whatever else the replies say, re-points the caster once at most. -/
theorem caster_creds_agree (nvs : Nvs) (caster : JsonNode) (delta : Option JsonNode) {roots : List JsonNode}
    (hroots : ∀ root ∈ roots, root.getObjectItem "config_delta" = delta) :
    casterCredsDiffer (fun _ => true) (writeCasterCreds nvs caster) caster = false ∧
      (∀ mem, casterCredsDiffer mem nvs caster = false → CasterKept nvs (writeCasterCreds nvs caster)) ∧
      ((heartbeats fun _ => true).outputs nvs roots).length ≤ 1 := by
  refine ⟨casterCredsDiffer_write nvs caster, fun mem h => casterKept h, ?_⟩
  let shared := ((isObject delta).bind fun d => isObject (d.getObjectItem "caster")).getD .other
  have hshared : ∀ root ∈ roots, deltaCaster root = none ∨ deltaCaster root = some shared := by
    intro root hroot
    have hdelta : deltaCaster root = (isObject delta).bind fun d => isObject (d.getObjectItem "caster") := by
      rw [deltaCaster, hroots root hroot]
    cases hcaster : deltaCaster root with
    | none => exact Or.inl rfl
    | some c =>
        right
        show some c = some (Option.getD _ _)
        rw [← hdelta, hcaster, Option.getD_some]
  have hbudget := (heartbeats fun _ => true).length_outputs_le (bouncesLeft shared)
    (fun _ _ h => bouncesLeft_step h) ((heartbeats fun _ => true).admits_of_forall (s := nvs) hshared)
  refine Nat.le_trans hbudget ?_
  rw [bouncesLeft]
  split <;> decide

/-- A caster with two hosts, a port that is too big, and a user name that is none. -/
def sampleCaster : JsonNode := .object [
  (⟨ascii "Host", by decide⟩, .string ⟨ascii "a.example", by decide⟩),
  (⟨ascii "host", by decide⟩, .string ⟨ascii "b.example", by decide⟩),
  (⟨ascii "port", by decide⟩, .number 67637),
  (⟨ascii "username", by decide⟩, .other)]

def sampleReply (state : String) (h : 0 ∉ ascii state) : JsonNode := .object [
  (⟨ascii "state", by decide⟩, .string ⟨ascii state, h⟩),
  (⟨ascii "config_delta", by decide⟩, .object [(⟨ascii "caster", by decide⟩, sampleCaster)])]

theorem caster_creds_agree_twice :
    casterCredsDiffer (fun _ => true) (writeCasterCreds (fun _ => none) sampleCaster) sampleCaster = false ∧
      (∀ mem, casterCredsDiffer mem (fun _ => none) sampleCaster = false →
        CasterKept (fun _ => none) (writeCasterCreds (fun _ => none) sampleCaster)) ∧
      ((heartbeats fun _ => true).outputs (fun _ => none)
        [sampleReply "maturing" (by decide), sampleReply "active" (by decide)]).length ≤ 1 :=
  caster_creds_agree (fun _ => none) sampleCaster
    (some (.object [(⟨ascii "caster", by decide⟩, sampleCaster)]))
    (List.forall_mem_cons.mpr ⟨rfl, List.forall_mem_singleton.mpr rfl⟩)

/-- The first reply does re-point the caster. -/
example : ((heartbeats fun _ => true).outputs (fun _ => none)
    [sampleReply "maturing" (by decide), sampleReply "active" (by decide)]).length = 1 := by decide

end Heartbeats

end RtkdataFw.Provisioning
