import RtkdataFw.Config
import RtkdataFw.Lib.Strtol

/-!
# The configuration API

`POST /config` hands every value to `apply_config_value`, and `GET /config` builds one value for each item.  The
two go through different conversions: `strtol` into 64 bits of which the low ones are stored, and bytes that
are read back into a slot of zeros.

* `applyConfigValue`, `configValue` — one item of a `POST` and of a `GET`;
* `applyConfigValue_key` — only the item's own key is written;
* `slot_set` — what is read back for a number.
-/

namespace RtkdataFw.WebServer

open RtkdataFw.Config RtkdataFw.Lib

/-- A parsed JSON value, as far as the code looks at it. -/
inductive CJson where
  | string (valuestring : CStr)
  | number (value : ℤ)
  | array (children : List CJson)
  | other

/-- `CONFIG_VALUE_UNCHANGED`. -/
def configValueUnchanged : CStr := ⟨List.replicate 8 0x1a, by decide⟩

/-! ### `POST` -/

/-- `#`. -/
def hashByte : UInt8 := 35

def blackText : List UInt8 := ascii "#000000"

/-- `color.values.alpha`. -/
def alpha (rgba : ℕ) : ℕ := rgba % 256

def writeColor (nvs : Nvs) (item : ConfigItem) (text : CStr) : EspErr × Nvs :=
  if text.length ≠ 7 ∨ text.bytes.head? ≠ some hashByte then (.espErrInvalidArg, nvs)
  else
    let rgba := strtoul16 (text.bytes.drop 1) * 256 % 4294967296
    if text.bytes ≠ blackText ∧ rgba = 0 then (.espErrInvalidArg, nvs)
    else if text.bytes ≠ blackText then
      (.espOk, nvsSetNumber nvs .u32 item.key (rgba / 256 * 256 + alpha item.default.bits : ℕ))
    else (.espOk, nvs)

/-- One byte of an address. -/
def ipByte : CJson → Option ℕ
  | .string text =>
      let byte := strtol text.bytes
      if byte.erange = true ∨ byte.value < 0 ∨ byte.value > 255 then none else some byte.value.toNat
  | _ => none

def writeIp (nvs : Nvs) (item : ConfigItem) (children : List CJson) : EspErr × Nvs :=
  if children.length ≠ 4 then (.espErrInvalidArg, nvs)
  else
    match children.mapM ipByte with
    | some [a, b, c, d] =>
        (.espOk, nvsSetNumber nvs .u32 item.key (espNetifHtonl (espNetifIp4Makeu32 a b c d)))
    | _ => (.espErrInvalidArg, nvs)

/-- A number that was read from a text; a zero must be written `0`. -/
def writeNumber (nvs : Nvs) (item : ConfigItem) (text : CStr) (value : ℤ) : EspErr × Nvs :=
  if value = 0 ∧ text.bytes ≠ ascii "0" then (.espErrInvalidArg, nvs) else configSet nvs item value

def writeConfigValue (nvs : Nvs) (item : ConfigItem) (entry : CJson) : EspErr × Nvs :=
  match item.type, entry with
  | .string, .string text => (.espOk, nvs.set item.key (.str text))
  | .blob, .string text => (.espOk, nvs.set item.key (.blob text.bytes))
  | .color, .string text => writeColor nvs item text
  | .ip, .array children => writeIp nvs item children
  | .bool, .string text | .int8, .string text | .int16, .string text | .int32, .string text
  | .int64, .string text => writeNumber nvs item text (strtol text.bytes).value
  | .uint8, .string text | .uint16, .string text | .uint32, .string text | .uint64, .string text =>
      writeNumber nvs item text (strtoul text.bytes)
  | _, _ => (.espErrInvalidArg, nvs)

/-- `cJSON_IsString (entry)`. -/
def CJson.text : CJson → Option CStr
  | .string text => some text
  | _ => none

def applyConfigValue (nvs : Nvs) (item : ConfigItem) (entry : CJson) : EspErr × Nvs :=
  if item.type ≠ .ip ∧ entry.text = none then (.espErrInvalidArg, nvs)
  else if item.type ≠ .ip ∧ (entry.text.elim 0 CStr.length) = 0 ∧ item.type ≠ .blob ∧ item.type ≠ .string then
    (.espOk, nvs)
  else if entry.text = some configValueUnchanged then (.espOk, nvs)
  else writeConfigValue nvs item entry

/-! ### `GET` -/

/-- The slot of zeros after `config_get_primitive`. -/
def slot (nvs : Nvs) (item : ConfigItem) : ℕ := (configGetPrimitive nvs item).2.getD 0

/-- `#%02x%02x%02x` of a colour. -/
def colorText (rgba : ℕ) : List UInt8 :=
  hashByte :: (hexByte (rgba / 16777216 % 256) ++ hexByte (rgba / 65536 % 256) ++ hexByte (rgba / 256 % 256))

/-- `esp_ip4_addr_get_byte`. -/
def espIp4AddrGetByte (ip i : ℕ) : ℕ := ip / 256 ^ i % 256

/-- The string that is printed for an item that is no address. -/
def configText (nvs : Nvs) (item : ConfigItem) : CStr :=
  match item.type with
  | .string | .blob => CStr.ofBytes ((configGetStrBlob nvs item).2.getD [])
  | .color => CStr.ofBytes (colorText (slot nvs item))
  | _ => CStr.ofBytes (decimal (slot nvs item))

/-- What `config_get_handler` adds for an item. -/
def configValue (nvs : Nvs) (item : ConfigItem) : CJson :=
  if item.type = .ip then
    .array ((List.range 4).map fun i => .number (espIp4AddrGetByte (slot nvs item) i))
  else if item.secret = true ∧ 0 < (configText nvs item).length then .string configValueUnchanged
  else .string (configText nvs item)

/-! ### Only the own key -/

theorem configSet_key (nvs : Nvs) (item : ConfigItem) (value : ℤ) {key : String} (h : key ≠ item.key) :
    (configSet nvs item value).2 key = nvs key := by
  unfold configSet
  split
  · exact Nvs.set_other nvs _ h
  · rfl

theorem writeNumber_key (nvs : Nvs) (item : ConfigItem) (text : CStr) (value : ℤ) {key : String}
    (h : key ≠ item.key) : (writeNumber nvs item text value).2 key = nvs key := by
  unfold writeNumber
  split
  · rfl
  · exact configSet_key nvs item value h

theorem writeColor_key (nvs : Nvs) (item : ConfigItem) (text : CStr) {key : String} (h : key ≠ item.key) :
    (writeColor nvs item text).2 key = nvs key := by
  unfold writeColor
  dsimp only
  split
  · rfl
  split
  · rfl
  split
  · exact Nvs.set_other nvs _ h
  · rfl

theorem writeIp_key (nvs : Nvs) (item : ConfigItem) (children : List CJson) {key : String} (h : key ≠ item.key) :
    (writeIp nvs item children).2 key = nvs key := by
  unfold writeIp
  split
  · rfl
  split
  · exact Nvs.set_other nvs _ h
  · rfl

/-- **Only the item's own key is written.** -/
theorem applyConfigValue_key (nvs : Nvs) (item : ConfigItem) (entry : CJson) {key : String} (h : key ≠ item.key) :
    (applyConfigValue nvs item entry).2 key = nvs key := by
  unfold applyConfigValue
  split
  · rfl
  split
  · rfl
  split
  · rfl
  unfold writeConfigValue
  split
  any_goals exact Nvs.set_other nvs _ h
  any_goals exact writeNumber_key nvs item _ _ h
  · exact writeColor_key nvs item _ h
  · exact writeIp_key nvs item _ h
  · rfl

/-! ### What is read back -/

/-- **A number that was stored is read back** with the bits of its type. -/
theorem slot_set (nvs : Nvs) {item : ConfigItem} {t : NvsType} (ht : item.type.primitiveType = some t) (value : ℤ) :
    slot (nvsSetNumber nvs t item.key value) item = lowBits t value := by
  simp only [slot, configGetPrimitive, ht, nvsGetNumber, nvsSetNumber, Nvs.set_same, if_true, Option.getD_some]

end RtkdataFw.WebServer
