import RtkdataFw.Lib.Machine
import RtkdataFw.WebServer.ConfigStored

/-!
# Posting a configuration back

A page that saves the whole form posts back for each item what `GET /config` reported for it.  Secrets come back
as the marker, addresses as numbers that are refused, black as a text that is not stored, and all other values
are stored as they already are.

* `WellTyped` — what the entry of an item looks like;
* `configApi` — the store under requests and resets; `wellTyped_run` — it stays well typed;
* `post_back_number`, `post_back_color`, `post_back_ip`, `post_back_string` — type by type;
* `post_back_unchanged` — no getter sees the request.
-/

namespace RtkdataFw.WebServer

open RtkdataFw.Config RtkdataFw.Lib

/-! ### The store over time -/

/-- The entry of an item has the item's type, and a colour has the alpha of the default. -/
def WellTyped (item : ConfigItem) : Option NvsEntry → Prop
  | none => True
  | some (.number t bits) => item.type.primitiveType = some t ∧ bits < t.card ∧
      (item.type = .color → bits % 256 = alpha item.default.bits)
  | some (.str _) => item.type = .string
  | some (.blob _) => item.type = .blob

inductive ApiEvent where
  | post (item : ConfigItem) (entry : CJson)
  | reset

/-- The keys that `config_reset` erases. -/
def resetKeys : List String := ["w_sta_ssid", "w_sta_pass", "w_sta_active"]

def configReset (nvs : Nvs) : Nvs := resetKeys.foldl Nvs.eraseKey nvs

/-- The store, and what each request returns. -/
def configApi : Machine Nvs ApiEvent EspErr where
  step nvs
    | .post item entry => (applyConfigValue nvs item entry).2
    | .reset => configReset nvs
  out nvs
    | .post item entry => [(applyConfigValue nvs item entry).1]
    | .reset => []

/-- Requests are about the items of the table. -/
def Offered (_ : Nvs) : ApiEvent → Prop
  | .post item _ => item ∈ configItems
  | .reset => True

/-- The store before anything was set. -/
def emptyNvs : Nvs := fun _ => none

theorem lowBits_lt (t : NvsType) (v : ℤ) : lowBits t v < t.card := by
  unfold lowBits
  cases t <;> unfold NvsType.card <;> dsimp only <;> omega

theorem wellTyped_writeNumber {nvs : Nvs} {item : ConfigItem} (text : CStr) (v : ℤ)
    (h : WellTyped item (nvs item.key)) : WellTyped item ((writeNumber nvs item text v).2 item.key) := by
  unfold writeNumber
  split
  · exact h
  unfold configSet
  split
  · rename_i t ht
    show WellTyped item (nvsSetNumber nvs t item.key v item.key)
    rw [nvsSetNumber_same]
    refine ⟨primitiveType_number ht, lowBits_lt t v, fun hcolor => ?_⟩
    rw [hcolor] at ht
    cases ht
  · exact h

theorem wellTyped_writeColor {nvs : Nvs} {item : ConfigItem} (htype : item.type = .color) (text : CStr)
    (h : WellTyped item (nvs item.key)) : WellTyped item ((writeColor nvs item text).2 item.key) := by
  unfold writeColor
  dsimp only
  split
  · exact h
  split
  · exact h
  split
  · show WellTyped item (nvsSetNumber nvs .u32 item.key _ item.key)
    rw [nvsSetNumber_same]
    refine ⟨by rw [htype]; rfl, lowBits_lt _ _, fun _ => ?_⟩
    have halpha := alpha_lt item.default.bits
    unfold lowBits NvsType.card
    dsimp only
    omega
  · exact h

theorem wellTyped_writeIp {nvs : Nvs} {item : ConfigItem} (htype : item.type = .ip) (children : List CJson)
    (h : WellTyped item (nvs item.key)) : WellTyped item ((writeIp nvs item children).2 item.key) := by
  unfold writeIp
  split
  · exact h
  split
  · show WellTyped item (nvsSetNumber nvs .u32 item.key _ item.key)
    rw [nvsSetNumber_same]
    refine ⟨by rw [htype]; rfl, lowBits_lt _ _, fun hcolor => ?_⟩
    rw [htype] at hcolor
    cases hcolor
  · exact h

/-- One request keeps the entry of its item well typed. -/
theorem wellTyped_apply {nvs : Nvs} {item : ConfigItem} (entry : CJson) (h : WellTyped item (nvs item.key)) :
    WellTyped item ((applyConfigValue nvs item entry).2 item.key) := by
  unfold applyConfigValue
  split
  · exact h
  split
  · exact h
  split
  · exact h
  cases entry with
  | string text =>
      unfold writeConfigValue
      cases htype : item.type <;> simp only
      case string =>
        show WellTyped item (nvs.set item.key (.str text) item.key)
        rw [Nvs.set_same]
        exact htype
      case blob =>
        show WellTyped item (nvs.set item.key (.blob text.bytes) item.key)
        rw [Nvs.set_same]
        exact htype
      case color => exact wellTyped_writeColor htype text h
      case ip => exact h
      all_goals exact wellTyped_writeNumber text _ h
  | array children =>
      unfold writeConfigValue
      cases htype : item.type <;> simp only
      case ip => exact wellTyped_writeIp htype children h
      all_goals exact h
  | number _ =>
      unfold writeConfigValue
      cases item.type <;> exact h
  | other =>
      unfold writeConfigValue
      cases item.type <;> exact h

theorem configReset_cases (nvs : Nvs) (key : String) : configReset nvs key = nvs key ∨ configReset nvs key = none := by
  unfold configReset
  induction resetKeys generalizing nvs with
  | nil => exact Or.inl rfl
  | cons k ks ih =>
      rw [List.foldl_cons]
      rcases ih (nvs.eraseKey k) with hsame | hnone
      · rw [hsame, Nvs.eraseKey]
        by_cases hkey : key = k
        · rw [hkey, Function.update_self]
          exact Or.inr rfl
        · rw [Function.update_of_ne hkey]
          exact Or.inl rfl
      · exact Or.inr hnone

/-- **Every entry stays well typed.** -/
theorem wellTyped_run {es : List ApiEvent} (hes : configApi.Admits Offered emptyNvs es) :
    ∀ item ∈ configItems, WellTyped item (configApi.run emptyNvs es item.key) := by
  refine configApi.invariant (I := fun nvs => ∀ item ∈ configItems, WellTyped item (nvs item.key)) ?_ ?_ hes
  · intro nvs e h he item hitem
    cases e with
    | post posted entry =>
        show WellTyped item ((applyConfigValue nvs posted entry).2 item.key)
        by_cases hkey : item.key = posted.key
        · rw [← key_inj hitem he hkey]
          exact wellTyped_apply entry (h item hitem)
        · rw [applyConfigValue_key nvs posted entry hkey]
          exact h item hitem
    | reset =>
        show WellTyped item (configReset nvs item.key)
        rcases configReset_cases nvs item.key with hsame | hnone
        · rw [hsame]
          exact h item hitem
        · rw [hnone]
          trivial
  · intro item _
    trivial

/-! ### What comes back -/

section PostBack

variable {nvs : Nvs} {item : ConfigItem}

theorem apply_marker : applyConfigValue nvs item (.string configValueUnchanged) = (.espOk, nvs) := by
  have hlen : configValueUnchanged.length ≠ 0 := by decide
  unfold applyConfigValue CJson.text
  rw [if_neg (by simp), if_neg (by simp [hlen]), if_pos rfl]

/-- What is read into the slot is a number of the entry's type. -/
theorem slot_wellTyped {t : NvsType} (ht : item.type.primitiveType = some t) (h : WellTyped item (nvs item.key)) :
    slot nvs item < t.card ∧
      (nvs item.key = some (.number t (slot nvs item)) ∨
        nvs item.key = none ∧ slot nvs item = defaultBits t item) := by
  have hdefault : defaultBits t item < t.card := by
    apply Nat.mod_lt
    cases t <;> decide
  simp only [slot, configGetPrimitive, ht, nvsGetNumber]
  cases hentry : nvs item.key with
  | none => exact ⟨hdefault, Or.inr ⟨rfl, rfl⟩⟩
  | some entry =>
      rw [hentry] at h
      cases entry with
      | number t' bits =>
          obtain ⟨ht', hbits, -⟩ := h
          cases ht.symm.trans ht'
          simp only [if_true, Option.getD_some]
          exact ⟨hbits, Or.inl trivial⟩
      | str s =>
          have hstring : item.type = .string := h
          rw [hstring] at ht
          cases ht
      | blob bytes =>
          have hblob : item.type = .blob := h
          rw [hblob] at ht
          cases ht

/-- A number that is stored again is not seen. -/
theorem readings_stored {nvs' : Nvs} {t : NvsType} (ht : item.type.primitiveType = some t)
    (h : WellTyped item (nvs item.key)) (h' : nvs' item.key = some (.number t (slot nvs item))) :
    readings nvs' item = readings nvs item := by
  rcases (slot_wellTyped ht h).2 with hsame | ⟨hnone, hdefault⟩
  · exact readings_congr (h'.trans hsame.symm)
  · rw [hdefault] at h'
    exact readings_number ht hnone h'

/-- The bits of a number that fits are the number. -/
theorem lowBits_natCast {t : NvsType} {n : ℕ} (h : n < t.card) : lowBits t n = n := by
  unfold lowBits
  rw [Int.emod_eq_of_lt (Int.natCast_nonneg n) (by exact_mod_cast h), Int.toNat_natCast]

/-- No value of the interface but the marker begins with its byte. -/
theorem ne_marker_of_head {text : CStr} {c : UInt8} (h : text.bytes.head? = some c) (hc : c ≠ 0x1a) :
    text ≠ configValueUnchanged := by
  rintro rfl
  exact hc (Option.some.inj h).symm

theorem decimal_not_marker (n : ℕ) : CStr.ofBytes (decimal n) ≠ configValueUnchanged := by
  intro h
  have hbytes := congrArg CStr.bytes h
  rw [decimalStr_bytes] at hbytes
  have hmem : (0x1a : UInt8) ∈ decimal n := by
    rw [hbytes]
    decide
  exact absurd (decimal_isDigit _ hmem) (by decide)

theorem decimal_not_empty (n : ℕ) : CStr.ofBytes (decimal n) ≠ CStr.empty := by
  intro h
  have hbytes := congrArg CStr.bytes h
  rw [decimalStr_bytes] at hbytes
  exact decimal_ne_nil n hbytes

/-- The types of the table: of numbers only those that come back through a `long`. -/
def Returns (type : ItemType) : Prop := type ≠ .int32 ∧ type ≠ .int64 ∧ type ≠ .uint64 ∧ type ≠ .blob

instance (type : ItemType) : Decidable (Returns type) := inferInstanceAs (Decidable (_ ∧ _))

/-- What `strtol` or `strtoul` reads of a number of the type's bits. -/
theorem writeConfigValue_number {t : NvsType} (htype : Returns item.type) (ht : item.type.numberType = some t)
    (text : CStr) : ∃ v, writeConfigValue nvs item (.string text) = writeNumber nvs item text v ∧
      ∀ n : ℕ, n < t.card → IsNumeral text.bytes n → v = n := by
  have hsigned : t.card ≤ 65536 → ∀ n : ℕ, n < t.card → IsNumeral text.bytes n → (strtol text.bytes).value = n := by
    intro hcard n hn hnum
    rw [strtol, frontInteger_numeral hnum, clampLong_of_mem (by unfold longMin; omega) (by unfold longMax; omega)]
  have hunsigned : t.card ≤ 4294967296 → ∀ n : ℕ, n < t.card → IsNumeral text.bytes n →
      (strtoul text.bytes : ℤ) = n := by
    intro hcard n hn hnum
    rw [strtoul, frontInteger_numeral hnum, wrapUlong_of_mem (by omega) (by unfold ulongMax; omega), Int.toNat_natCast]
  obtain ⟨hint32, hint64, huint64, -⟩ := htype
  unfold writeConfigValue
  cases hkind : item.type <;> rw [hkind] at ht <;> cases ht <;> simp only
  case bool | int8 | int16 => exact ⟨_, rfl, hsigned (by decide)⟩
  case uint8 | uint16 | uint32 => exact ⟨_, rfl, hunsigned (by decide)⟩
  case int32 => exact absurd hkind hint32
  case int64 => exact absurd hkind hint64
  case uint64 => exact absurd hkind huint64

/-- A number comes back as it is stored, when `strtol` or `strtoul` can read it. -/
theorem post_back_number {t : NvsType} (htype : Returns item.type) (ht : item.type.numberType = some t)
    (hsecret : item.secret = false) (h : WellTyped item (nvs item.key)) :
    readings (applyConfigValue nvs item (configValue nvs item)).2 item = readings nvs item := by
  have hprimitive := primitiveType_number ht
  obtain ⟨hlt, -⟩ := slot_wellTyped hprimitive h
  obtain ⟨v, hwrite, hvalue⟩ := @writeConfigValue_number nvs item t htype ht
    (CStr.ofBytes (decimal (slot nvs item)))
  have hv := hvalue _ hlt (by rw [decimalStr_bytes]; exact isNumeral_decimal _)
  apply readings_stored hprimitive h
  have hguard : ¬ (v = 0 ∧ (CStr.ofBytes (decimal (slot nvs item))).bytes ≠ ascii "0") := by
    rintro ⟨hzero, hother⟩
    rw [decimalStr_bytes] at hother
    have hslot : slot nvs item = 0 := by omega
    rw [hslot] at hother
    exact hother (by decide)
  rw [configValue_number ht hsecret, apply_string (decimal_not_marker _) (Or.inr (decimal_not_empty _)), hwrite,
    writeNumber_taken ht hguard]
  show nvsSetNumber nvs t item.key v item.key = _
  rw [nvsSetNumber_same, hv, lowBits_natCast hlt]

/-- A secret that is not empty comes back as the marker. -/
theorem post_back_secret (hip : item.type ≠ .ip) (hsecret : item.secret = true)
    (hlen : 0 < (configText nvs item).length) :
    readings (applyConfigValue nvs item (configValue nvs item)).2 item = readings nvs item := by
  rw [configValue, if_neg hip, if_pos ⟨hsecret, hlen⟩, apply_marker]

/-- An address comes back as numbers, which are refused. -/
theorem post_back_ip (htype : item.type = .ip) :
    readings (applyConfigValue nvs item (configValue nvs item)).2 item = readings nvs item := by
  have hrefused : (applyConfigValue nvs item (configValue nvs item)).1 ≠ .espOk := by
    rw [configValue_ip htype, apply_array htype]
    intro hok
    obtain ⟨-, hfront⟩ := writeIp_taken hok
    obtain ⟨text, htext, -⟩ := hfront (.number (espIp4AddrGetByte (slot nvs item) 0)) List.mem_cons_self
    cases htext
  rw [refused_unchanged hrefused]

/-- A string comes back as it is stored, a secret one when it is empty. -/
theorem post_back_string (htype : item.type = .string)
    (h : WellTyped item (nvs item.key)) (hshown : ¬ (item.secret = true ∧ 0 < (configText nvs item).length)) :
    readings (applyConfigValue nvs item (configValue nvs item)).2 item = readings nvs item := by
  have htext : nvs item.key = some (.str (configText nvs item)) ∨
      nvs item.key = none ∧ configText nvs item = item.default.str := by
    simp only [configText, htype, configGetStrBlob, nvsGetStr]
    cases hentry : nvs item.key with
    | none => exact Or.inr ⟨rfl, CStr.ofBytes_self _⟩
    | some entry =>
        rw [hentry] at h
        cases entry with
        | number t bits =>
            have ht := h.1
            rw [htype] at ht
            cases ht
        | str s =>
            left
            simp only [Option.getD_some, CStr.ofBytes_self]
        | blob bytes =>
            have hblob : item.type = .blob := h
            rw [htype] at hblob
            cases hblob
  rw [configValue, if_neg (by rw [htype]; decide), if_neg hshown]
  by_cases hmarker : configText nvs item = configValueUnchanged
  · rw [hmarker, apply_marker]
  have happly : applyConfigValue nvs item (.string (configText nvs item)) = _ :=
    apply_string hmarker (Or.inl htype)
  unfold writeConfigValue at happly
  rw [htype] at happly
  rw [happly]
  have hstored : nvs.set item.key (.str (configText nvs item)) item.key = some (.str (configText nvs item)) :=
    Nvs.set_same nvs item.key _
  rcases htext with hsame | ⟨hnone, hdefault⟩
  · exact readings_congr (hstored.trans hsame.symm)
  · rw [hdefault] at hstored ⊢
    exact readings_str htype hnone hstored

/-- The digits that are printed for a colour. -/
theorem frontHex_colorText (rgba : ℕ) : frontHex ((colorText rgba).drop 1) = (rgba / 256 % 16777216 : ℕ) := by
  obtain ⟨ds, htext, -, hdigits, hvalue⟩ := (isColor_colorText rgba).parts
  rw [htext, List.drop_succ_cons, List.drop_zero, frontHex_digits hdigits, hvalue]

theorem strtoul16_colorText (rgba : ℕ) : strtoul16 ((colorText rgba).drop 1) = rgba / 256 % 16777216 := by
  obtain ⟨ds, htext, hsix, hdigits, hvalue⟩ := (isColor_colorText rgba).parts
  rw [htext, List.drop_succ_cons, List.drop_zero, strtoul16_digits hdigits (by omega), hvalue]

/-- A colour comes back with the alpha that it has. -/
theorem post_back_color (htype : item.type = .color) (hsecret : item.secret = false)
    (h : WellTyped item (nvs item.key)) :
    readings (applyConfigValue nvs item (configValue nvs item)).2 item = readings nvs item := by
  have hprimitive : item.type.primitiveType = some .u32 := by
    rw [htype]
    rfl
  obtain ⟨hlt, hslot⟩ := slot_wellTyped hprimitive h
  have halpha : slot nvs item % 256 = alpha item.default.bits := by
    rcases hslot with hentry | ⟨-, hdefault⟩
    · rw [hentry] at h
      exact h.2.2 htype
    · rw [hdefault]
      unfold defaultBits NvsType.card alpha
      dsimp only
      omega
  have hbytes := colorStr_bytes (slot nvs item)
  have hlen : (CStr.ofBytes (colorText (slot nvs item))).length = 7 := by
    unfold CStr.length
    rw [hbytes]
    rfl
  have hhead : (CStr.ofBytes (colorText (slot nvs item))).bytes.head? = some hashByte := by
    rw [hbytes]
    rfl
  have happly : applyConfigValue nvs item (.string (CStr.ofBytes (colorText (slot nvs item)))) =
      writeColor nvs item (CStr.ofBytes (colorText (slot nvs item))) := by
    rw [apply_string (ne_marker_of_head hhead (by decide))]
    · unfold writeConfigValue
      rw [htype]
    · right
      intro hempty
      rw [hempty] at hlen
      exact absurd hlen (by decide)
  rw [configValue_color htype hsecret, happly]
  by_cases hblack : colorText (slot nvs item) = blackText
  · rw [writeColor_black (hbytes.trans hblack)]
  have hfront : frontHex ((CStr.ofBytes (colorText (slot nvs item))).bytes.drop 1) ≠ 0 := by
    rw [hbytes, frontHex_colorText, Nat.cast_ne_zero]
    exact mt colorText_eq_black_iff.mpr hblack
  rw [(writeColor_form hlen hhead (by rwa [hbytes])).2 hfront]
  apply readings_stored hprimitive h
  show nvsSetNumber nvs .u32 item.key _ item.key = _
  have hsame : strtoul16 ((CStr.ofBytes (colorText (slot nvs item))).bytes.drop 1) * 256 % 4294967296 / 256 * 256 +
      alpha item.default.bits = slot nvs item := by
    have hcard : NvsType.u32.card = 4294967296 := rfl
    rw [hbytes, strtoul16_colorText, ← halpha]
    omega
  rw [hsame, nvsSetNumber_same, lowBits_natCast hlt]

end PostBack

/-! ### Every item -/

theorem configItems_types : ∀ item ∈ configItems, Returns item.type := by decide +kernel

theorem numberType_of_returns {type : ItemType} (h : Returns type) (hstring : type ≠ .string)
    (hcolor : type ≠ .color) (hip : type ≠ .ip) : ∃ t, type.numberType = some t := by
  obtain ⟨-, -, -, hblob⟩ := h
  cases type <;> first | exact ⟨_, rfl⟩ | contradiction

/-- What is printed for a number or a colour is not empty. -/
theorem configText_pos {nvs : Nvs} {item : ConfigItem} (htype : Returns item.type) (hstring : item.type ≠ .string)
    (hip : item.type ≠ .ip) : 0 < (configText nvs item).length := by
  unfold CStr.length
  by_cases hcolor : item.type = .color
  · rw [configText, hcolor]
    dsimp only
    rw [colorStr_bytes]
    exact Nat.succ_pos _
  · obtain ⟨t, ht⟩ := numberType_of_returns htype hstring hcolor hip
    rw [configText_number ht, decimalStr_bytes]
    exact List.length_pos_iff.mpr (decimal_ne_nil _)

/-- **Posting a value back is not seen by any getter**, when the entry is well typed. -/
theorem post_back_wellTyped {nvs : Nvs} {item : ConfigItem} (htype : Returns item.type)
    (h : WellTyped item (nvs item.key)) :
    readings (applyConfigValue nvs item (configValue nvs item)).2 item = readings nvs item := by
  by_cases hip : item.type = .ip
  · exact post_back_ip hip
  by_cases hmasked : item.secret = true ∧ 0 < (configText nvs item).length
  · exact post_back_secret hip hmasked.1 hmasked.2
  by_cases hstring : item.type = .string
  · exact post_back_string hstring h hmasked
  have hsecret : item.secret = false := by
    by_contra hsecret
    exact hmasked ⟨by simpa using hsecret, configText_pos htype hstring hip⟩
  by_cases hcolor : item.type = .color
  · exact post_back_color hcolor hsecret h
  · obtain ⟨t, ht⟩ := numberType_of_returns htype hstring hcolor hip
    exact post_back_number htype ht hsecret h

/-- **Posting a fetched configuration back changes nothing** that a getter returns. -/
theorem post_back_unchanged {es : List ApiEvent} (hes : configApi.Admits Offered emptyNvs es) {item : ConfigItem}
    (hitem : item ∈ configItems) :
    readings (applyConfigValue (configApi.run emptyNvs es) item (configValue (configApi.run emptyNvs es) item)).2
      item = readings (configApi.run emptyNvs es) item :=
  post_back_wellTyped (configItems_types item hitem) (wellTyped_run hes item hitem)

theorem serverPort_mem : serverPort ∈ configItems := List.mem_of_getElem? (i := 10) rfl

/-- Another port is posted. -/
def portPosted : List ApiEvent := [.post serverPort (.string ⟨ascii "2102", by decide⟩)]

theorem portPosted_offered : configApi.Admits Offered emptyNvs portPosted := ⟨serverPort_mem, trivial⟩

theorem post_back_unchanged_serverPort :
    configApi.Admits Offered emptyNvs portPosted ∧ serverPort ∈ configItems ∧
      readings (applyConfigValue (configApi.run emptyNvs portPosted) serverPort
        (configValue (configApi.run emptyNvs portPosted) serverPort)).2 serverPort =
        readings (configApi.run emptyNvs portPosted) serverPort :=
  ⟨portPosted_offered, serverPort_mem, post_back_unchanged portPosted_offered serverPort_mem⟩

end RtkdataFw.WebServer
