import Mathlib.Logic.Function.Basic
import RtkdataFw.Lib.CStr

/-!
# The configuration store of `config.c`

Every configuration item has a key and a type, and a default that its getters return until the key is set.  The
store below holds typed entries: a number is kept as its bits, a getter of another type than the entry's
gets nothing.

* `configSet`, `configGetPrimitive`, `configGetStrBlob`, … — the setters and the getters;
* `Readings` — what all getters together return for an item;
* `readings_congr`, `readings_number`, `readings_str` — when two stores give the same.
-/

namespace RtkdataFw.Config

open RtkdataFw.Lib

/-- The values of `esp_err_t` that the modelled code returns. -/
inductive EspErr where
  | espOk
  | espFail
  | espErrInvalidArg
  | espErrNvsNotFound
  | espErrNvsTypeMismatch
  deriving DecidableEq, Repr

/-! ### NVS -/

inductive NvsType where
  | i8
  | i16
  | i32
  | i64
  | u8
  | u16
  | u32
  | u64
  deriving DecidableEq, Repr

/-- How many numbers the type has. -/
def NvsType.card : NvsType → ℕ
  | .i8 | .u8 => 256
  | .i16 | .u16 => 65536
  | .i32 | .u32 => 4294967296
  | .i64 | .u64 => 18446744073709551616

inductive NvsEntry where
  | number (type : NvsType) (bits : ℕ)
  | str (value : CStr)
  | blob (bytes : List UInt8)
  deriving DecidableEq, Repr

/-- The entry of each key; a key that was never set, or was erased, has none. -/
abbrev Nvs := String → Option NvsEntry

def Nvs.set (nvs : Nvs) (key : String) (entry : NvsEntry) : Nvs := Function.update nvs key (some entry)

def Nvs.eraseKey (nvs : Nvs) (key : String) : Nvs := Function.update nvs key none

@[simp] theorem Nvs.set_same (nvs : Nvs) (key : String) (entry : NvsEntry) :
    nvs.set key entry key = some entry :=
  Function.update_self key _ nvs

theorem Nvs.set_other (nvs : Nvs) {key key' : String} (entry : NvsEntry) (h : key' ≠ key) :
    nvs.set key entry key' = nvs key' :=
  Function.update_of_ne h _ nvs

/-- The bits of a number, as many as the type has. -/
def lowBits (t : NvsType) (value : ℤ) : ℕ := (value % t.card).toNat

/-- `nvs_set_i8` to `nvs_set_u64`. -/
def nvsSetNumber (nvs : Nvs) (t : NvsType) (key : String) (value : ℤ) : Nvs :=
  nvs.set key (.number t (lowBits t value))

theorem nvsSetNumber_same (nvs : Nvs) (t : NvsType) (key : String) (value : ℤ) :
    nvsSetNumber nvs t key value key = some (.number t (lowBits t value)) :=
  Nvs.set_same nvs key _

theorem nvsSetNumber_other (nvs : Nvs) (t : NvsType) {key key' : String} (value : ℤ) (h : key' ≠ key) :
    nvsSetNumber nvs t key value key' = nvs key' :=
  Nvs.set_other nvs _ h

/-- `nvs_get_i8` to `nvs_get_u64`. -/
def nvsGetNumber (nvs : Nvs) (t : NvsType) (key : String) : Except EspErr ℕ :=
  match nvs key with
  | none => .error .espErrNvsNotFound
  | some (.number t' bits) => if t' = t then .ok bits else .error .espErrNvsTypeMismatch
  | some _ => .error .espErrNvsTypeMismatch

def nvsGetStr (nvs : Nvs) (key : String) : Except EspErr (List UInt8) :=
  match nvs key with
  | none => .error .espErrNvsNotFound
  | some (.str s) => .ok s.bytes
  | some _ => .error .espErrNvsTypeMismatch

def nvsGetBlob (nvs : Nvs) (key : String) : Except EspErr (List UInt8) :=
  match nvs key with
  | none => .error .espErrNvsNotFound
  | some (.blob bytes) => .ok bytes
  | some _ => .error .espErrNvsTypeMismatch

/-! ### Items -/

/-- `config_item_type_t`. -/
inductive ItemType where
  | bool
  | int8
  | int16
  | int32
  | int64
  | uint8
  | uint16
  | uint32
  | uint64
  | string
  | blob
  | color
  | ip
  deriving DecidableEq, Repr

/-- `config_item_value_t`: the number that its bytes are, and what its pointers point to. -/
structure ConfigItemValue where
  bits : ℕ
  str : CStr
  blob : List UInt8
  deriving DecidableEq, Repr

def espNetifIp4Makeu32 (a b c d : ℕ) : ℕ := a * 16777216 + b * 65536 + c * 256 + d

def espNetifHtonl (x : ℕ) : ℕ :=
  x % 256 * 16777216 + x / 256 % 256 * 65536 + x / 65536 % 256 * 256 + x / 16777216 % 256

/-- `config_item_t`. -/
structure ConfigItem where
  key : String
  type : ItemType
  secret : Bool
  default : ConfigItemValue
  deriving DecidableEq, Repr

/-- The type under which `config_set` stores the number of an item. -/
def ItemType.numberType : ItemType → Option NvsType
  | .bool | .int8 => some .i8
  | .int16 => some .i16
  | .int32 => some .i32
  | .int64 => some .i64
  | .uint8 => some .u8
  | .uint16 => some .u16
  | .uint32 => some .u32
  | .uint64 => some .u64
  | _ => none

/-- The type under which `config_get_primitive` reads an item. -/
def ItemType.primitiveType : ItemType → Option NvsType
  | .color | .ip => some .u32
  | t => t.numberType

/-- `config_set` with the address of a number of 64 bits. -/
def configSet (nvs : Nvs) (item : ConfigItem) (value : ℤ) : EspErr × Nvs :=
  match item.type.numberType with
  | some t => (.espOk, nvsSetNumber nvs t item.key value)
  | none => (.espErrInvalidArg, nvs)

/-! ### Getters -/

/-- The default as the getters of a type see it. -/
def defaultBits (t : NvsType) (item : ConfigItem) : ℕ := item.default.bits % t.card

/-- The bits that `config_get_i8` to `config_get_u64` return. -/
def configGetBits (nvs : Nvs) (t : NvsType) (item : ConfigItem) : ℕ :=
  match nvsGetNumber nvs t item.key with
  | .ok bits => bits
  | .error _ => defaultBits t item

/-- Bits as a number with a sign. -/
def toSigned (t : NvsType) (bits : ℕ) : ℤ :=
  if 2 * bits < t.card then bits else (bits : ℤ) - t.card

def configGetI8 (nvs : Nvs) (item : ConfigItem) : ℤ := toSigned .i8 (configGetBits nvs .i8 item)

def configGetI16 (nvs : Nvs) (item : ConfigItem) : ℤ := toSigned .i16 (configGetBits nvs .i16 item)

def configGetI32 (nvs : Nvs) (item : ConfigItem) : ℤ := toSigned .i32 (configGetBits nvs .i32 item)

def configGetI64 (nvs : Nvs) (item : ConfigItem) : ℤ := toSigned .i64 (configGetBits nvs .i64 item)

def configGetU8 (nvs : Nvs) (item : ConfigItem) : ℕ := configGetBits nvs .u8 item

def configGetU16 (nvs : Nvs) (item : ConfigItem) : ℕ := configGetBits nvs .u16 item

def configGetU32 (nvs : Nvs) (item : ConfigItem) : ℕ := configGetBits nvs .u32 item

def configGetU64 (nvs : Nvs) (item : ConfigItem) : ℕ := configGetBits nvs .u64 item

/-- The `rgba` of the colour. -/
def configGetColor (nvs : Nvs) (item : ConfigItem) : ℕ := configGetBits nvs .u32 item

def configGetBool1 (nvs : Nvs) (item : ConfigItem) : Bool := 0 < toSigned .i8 (configGetBits nvs .i8 item)

/-- What a read that found nothing reports. -/
def orDefault (e : EspErr) : EspErr := if e = .espErrNvsNotFound then .espOk else e

/-- What is returned, and what was stored behind `out_value`. -/
def configGetPrimitive (nvs : Nvs) (item : ConfigItem) : EspErr × Option ℕ :=
  match item.type.primitiveType with
  | none => (.espErrInvalidArg, none)
  | some t =>
      match nvsGetNumber nvs t item.key with
      | .ok bits => (.espOk, some bits)
      | .error e => (orDefault e, some (defaultBits t item))

/-- What is returned, and what was copied. -/
def configGetStrBlob (nvs : Nvs) (item : ConfigItem) : EspErr × Option (List UInt8) :=
  match item.type with
  | .string =>
      match nvsGetStr nvs item.key with
      | .ok bytes => (.espOk, some bytes)
      | .error e => (orDefault e, if e = .espErrNvsNotFound then some item.default.str.bytes else none)
  | .blob =>
      match nvsGetBlob nvs item.key with
      | .ok bytes => (.espOk, some bytes)
      | .error e => (orDefault e, if e = .espErrNvsNotFound then some item.default.blob else none)
  | _ => (.espErrInvalidArg, none)

/-- What every getter returns for an item. -/
structure Readings where
  i8 : ℤ
  i16 : ℤ
  i32 : ℤ
  i64 : ℤ
  u8 : ℕ
  u16 : ℕ
  u32 : ℕ
  u64 : ℕ
  color : ℕ
  bool1 : Bool
  primitive : EspErr × Option ℕ
  strBlob : EspErr × Option (List UInt8)
  deriving DecidableEq, Repr

def readings (nvs : Nvs) (item : ConfigItem) : Readings where
  i8 := configGetI8 nvs item
  i16 := configGetI16 nvs item
  i32 := configGetI32 nvs item
  i64 := configGetI64 nvs item
  u8 := configGetU8 nvs item
  u16 := configGetU16 nvs item
  u32 := configGetU32 nvs item
  u64 := configGetU64 nvs item
  color := configGetColor nvs item
  bool1 := configGetBool1 nvs item
  primitive := configGetPrimitive nvs item
  strBlob := configGetStrBlob nvs item

/-! ### What the getters depend on -/

/-- The bits of every type, the primitive and the string are all that the getters look at. -/
theorem readings_ext {nvs nvs' : Nvs} {item : ConfigItem}
    (hbits : ∀ t, configGetBits nvs' t item = configGetBits nvs t item)
    (hprimitive : configGetPrimitive nvs' item = configGetPrimitive nvs item)
    (hstr : configGetStrBlob nvs' item = configGetStrBlob nvs item) :
    readings nvs' item = readings nvs item := by
  unfold readings configGetI8 configGetI16 configGetI32 configGetI64 configGetU8 configGetU16 configGetU32
    configGetU64 configGetColor configGetBool1
  simp only [hbits, hprimitive, hstr]

/-- The getters look at the entry of the item's key. -/
theorem readings_congr {nvs nvs' : Nvs} {item : ConfigItem} (h : nvs' item.key = nvs item.key) :
    readings nvs' item = readings nvs item := by
  apply readings_ext
  · intro t
    simp only [configGetBits, nvsGetNumber, h]
  · simp only [configGetPrimitive, nvsGetNumber, h]
  · simp only [configGetStrBlob, nvsGetStr, nvsGetBlob, h]

/-- A number that is stored in the place of the same default. -/
theorem readings_number {nvs nvs' : Nvs} {item : ConfigItem} {t : NvsType}
    (ht : item.type.primitiveType = some t) (h : nvs item.key = none)
    (h' : nvs' item.key = some (.number t (defaultBits t item))) :
    readings nvs' item = readings nvs item := by
  apply readings_ext
  · intro t'
    simp only [configGetBits, nvsGetNumber, h, h']
    by_cases hsame : t = t'
    · rw [if_pos hsame, hsame]
    · rw [if_neg hsame]
  · simp only [configGetPrimitive, nvsGetNumber, ht, h, h', if_true, orDefault]
  · unfold configGetStrBlob
    split
    · rename_i htype
      rw [htype] at ht
      cases ht
    · rename_i htype
      rw [htype] at ht
      cases ht
    · rfl

/-- A string that is stored in the place of the same default. -/
theorem readings_str {nvs nvs' : Nvs} {item : ConfigItem} (ht : item.type = .string)
    (h : nvs item.key = none) (h' : nvs' item.key = some (.str item.default.str)) :
    readings nvs' item = readings nvs item := by
  apply readings_ext
  · intro t
    simp only [configGetBits, nvsGetNumber, h, h']
  · simp only [configGetPrimitive, ht, ItemType.primitiveType, ItemType.numberType]
  · simp only [configGetStrBlob, nvsGetStr, ht, h, h', orDefault, if_true]

end RtkdataFw.Config
