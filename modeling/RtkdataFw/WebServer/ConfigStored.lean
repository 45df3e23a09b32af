import RtkdataFw.Config.Items
import RtkdataFw.WebServer.ConfigApi

/-!
# What the configuration API acknowledges

A value of `POST /config` is acknowledged when `apply_config_value` returns `ESP_OK`.  It should then denote a
member of the item's type, and the next `GET /config` should report a value that denotes the same.

* `Denotes` — what a JSON value means for an item type;
* `StoredAsSaid` — what was acknowledged is stored, what was refused is not;
* `number_stored_iff`, `color_stored_iff`, `ip_stored_iff` — type by type, when that is so;
* `stored_as_said_iff` — for every item and every value.
-/

namespace RtkdataFw.WebServer

open RtkdataFw.Config RtkdataFw.Lib

/-! ### What a value means -/

/-- A member of an item type. -/
inductive Member where
  | number (n : ℤ)
  | color (rgb : ℕ)
  | address (bytes : List ℕ)
  | text (s : CStr)

/-- The numbers of an item type. -/
def InRange : ItemType → ℤ → Prop
  | .bool, n => 0 ≤ n ∧ n ≤ 1
  | .int8, n => -128 ≤ n ∧ n ≤ 127
  | .int16, n => -32768 ≤ n ∧ n ≤ 32767
  | .int32, n => -2147483648 ≤ n ∧ n ≤ 2147483647
  | .uint8, n => 0 ≤ n ∧ n ≤ 255
  | .uint16, n => 0 ≤ n ∧ n ≤ 65535
  | .uint32, n => 0 ≤ n ∧ n ≤ 4294967295
  | _, _ => False

/-- `#` and six hexadecimal digits. -/
structure IsColor (text : List UInt8) (rgb : ℕ) : Prop where
  parts : ∃ ds, text = hashByte :: ds ∧ ds.length = 6 ∧ (∀ c ∈ ds, isHexDigit c = true) ∧ rgb = readHex 0 ds

/-- One part of an address, as a number or as a numeral. -/
inductive DenotesByte : CJson → ℕ → Prop
  | number {n : ℕ} (h : n ≤ 255) : DenotesByte (.number n) n
  | numeral {text : CStr} {n : ℕ} (h : IsNumeral text.bytes n) (hmax : n ≤ 255) : DenotesByte (.string text) n

inductive Denotes : ItemType → CJson → Member → Prop
  | number {type : ItemType} {text : CStr} {n : ℤ} (h : IsNumeral text.bytes n) (hrange : InRange type n) :
      Denotes type (.string text) (.number n)
  | color {text : CStr} {rgb : ℕ} (h : IsColor text.bytes rgb) : Denotes .color (.string text) (.color rgb)
  | address {children : List CJson} {bytes : List ℕ} (hlen : children.length = 4)
      (h : List.Forall₂ DenotesByte children bytes) : Denotes .ip (.array children) (.address bytes)
  | text (s : CStr) : Denotes .string (.string s) (.text s)

/-- What is acknowledged is a member of the type and is reported, secrets apart; what is refused changes
nothing. -/
structure StoredAsSaid (nvs : Nvs) (item : ConfigItem) (entry : CJson) : Prop where
  accepted : (applyConfigValue nvs item entry).1 = .espOk → ∃ m, Denotes item.type entry m ∧
    (item.secret = false → Denotes item.type (configValue (applyConfigValue nvs item entry).2 item) m)
  refused : (applyConfigValue nvs item entry).1 ≠ .espOk → (applyConfigValue nvs item entry).2 = nvs

/-! ### When it is so -/

/-- A text whose number at the front is not zero is a numeral of the type, and not a negative one unless the
item is secret. -/
def NumberKept (item : ConfigItem) (text : CStr) : Prop :=
  frontInteger text.bytes ≠ 0 →
    ∃ n, IsNumeral text.bytes n ∧ InRange item.type n ∧ (item.secret = true ∨ 0 < n)

/-- Black is not said to another colour, and what follows the `#` of another text is six digits unless the
number at its front is zero. -/
structure ColorKept (nvs : Nvs) (item : ConfigItem) (text : CStr) : Prop where
  black : text.bytes = blackText → item.secret = true ∨ colorText (slot nvs item) = blackText
  digits : text.length = 7 → text.bytes.head? = some hashByte → frontHex (text.bytes.drop 1) ≠ 0 →
    ∀ c ∈ text.bytes.drop 1, isHexDigit c = true

/-- A string whose number at the front is a byte. -/
def FrontByte (child : CJson) : Prop :=
  ∃ text, child = .string text ∧ 0 ≤ frontInteger text.bytes ∧ frontInteger text.bytes ≤ 255

/-- Four strings with bytes at their fronts are four numerals. -/
def IpKept (children : List CJson) : Prop :=
  children.length = 4 → (∀ child ∈ children, FrontByte child) → ∀ child ∈ children, ∃ n, DenotesByte child n

/-- The condition on a value, type by type. -/
def Kept (nvs : Nvs) (item : ConfigItem) (entry : CJson) : Prop :=
  match item.type, entry with
  | .string, _ => True
  | .color, .string text => ColorKept nvs item text
  | .ip, .array children => IpKept children
  | .ip, _ => True
  | _, .string text => NumberKept item text
  | _, _ => True

/-! ### Refusals -/

theorem writeNumber_refused {nvs : Nvs} {item : ConfigItem} {text : CStr} {value : ℤ}
    (h : (writeNumber nvs item text value).1 ≠ .espOk) : (writeNumber nvs item text value).2 = nvs := by
  unfold writeNumber at h ⊢
  split
  · rfl
  · rename_i hzero
    rw [if_neg hzero] at h
    unfold configSet at h ⊢
    split
    · rename_i t ht
      rw [ht] at h
      exact absurd rfl h
    · rfl

theorem writeColor_refused {nvs : Nvs} {item : ConfigItem} {text : CStr}
    (h : (writeColor nvs item text).1 ≠ .espOk) : (writeColor nvs item text).2 = nvs := by
  unfold writeColor at h ⊢
  dsimp only at h ⊢
  split
  · rfl
  rename_i hform
  rw [if_neg hform] at h
  split
  · rfl
  rename_i hzero
  rw [if_neg hzero] at h
  split
  · rename_i hother
    rw [if_pos hother] at h
    exact absurd rfl h
  · rfl

theorem writeIp_refused {nvs : Nvs} {item : ConfigItem} {children : List CJson}
    (h : (writeIp nvs item children).1 ≠ .espOk) : (writeIp nvs item children).2 = nvs := by
  unfold writeIp at h ⊢
  split
  · rfl
  rename_i hfour
  rw [if_neg hfour] at h
  split
  · rename_i hbytes
    rw [hbytes] at h
    exact absurd rfl h
  · rfl

/-- **What is refused changes nothing.** -/
theorem refused_unchanged {nvs : Nvs} {item : ConfigItem} {entry : CJson}
    (h : (applyConfigValue nvs item entry).1 ≠ .espOk) : (applyConfigValue nvs item entry).2 = nvs := by
  unfold applyConfigValue at h ⊢
  split
  · rfl
  rename_i hstring
  rw [if_neg hstring] at h
  split
  · rfl
  rename_i hempty
  rw [if_neg hempty] at h
  split
  · rfl
  rename_i hmarker
  rw [if_neg hmarker] at h
  unfold writeConfigValue at h ⊢
  split at h
  all_goals first
    | exact absurd rfl h
    | exact writeNumber_refused h
    | exact writeColor_refused h
    | exact writeIp_refused h
    | rfl

/-! ### What is written and reported -/

theorem CStr.eq_empty {s : CStr} (h : s.length = 0) : s = CStr.empty := by
  obtain ⟨bytes, hnul⟩ := s
  rw [CStr.empty, CStr.mk.injEq]
  exact List.length_eq_zero_iff.mp h

/-- A string that is neither empty nor the marker is handed on. -/
theorem apply_string {nvs : Nvs} {item : ConfigItem} {text : CStr} (hmarker : text ≠ configValueUnchanged)
    (hempty : item.type = .string ∨ text ≠ CStr.empty) :
    applyConfigValue nvs item (.string text) = writeConfigValue nvs item (.string text) := by
  unfold applyConfigValue CJson.text
  rw [if_neg (by simp), if_neg, if_neg (by simpa using hmarker)]
  rintro ⟨-, hlen, -, hstring⟩
  rcases hempty with hstring' | hne
  · exact hstring hstring'
  · exact hne (CStr.eq_empty hlen)

/-- The items that hold a number. -/
theorem configText_number {nvs : Nvs} {item : ConfigItem} {t : NvsType} (ht : item.type.numberType = some t) :
    configText nvs item = CStr.ofBytes (decimal (slot nvs item)) := by
  unfold configText
  cases htype : item.type <;> rw [htype] at ht <;> cases ht

theorem primitiveType_number {type : ItemType} {t : NvsType} (ht : type.numberType = some t) :
    type.primitiveType = some t := by
  cases type <;> cases ht <;> rfl

theorem decimalStr_bytes (n : ℕ) : (CStr.ofBytes (decimal n)).bytes = decimal n :=
  CStr.ofBytes_bytes (zero_notMem_decimal n)

/-- What `GET` reports for a number, unless it is secret. -/
theorem configValue_number {nvs : Nvs} {item : ConfigItem} {t : NvsType} (ht : item.type.numberType = some t)
    (hsecret : item.secret = false) :
    configValue nvs item = .string (CStr.ofBytes (decimal (slot nvs item))) := by
  have hip : item.type ≠ .ip := by
    intro hip
    rw [hip] at ht
    cases ht
  rw [configValue, if_neg hip, if_neg (by simp [hsecret]), configText_number ht]

/-! ### Numbers -/

theorem Denotes.of_number {type : ItemType} {t : NvsType} {text : CStr} {m : Member}
    (ht : type.numberType = some t) (h : Denotes type (.string text) m) :
    ∃ n, m = .number n ∧ IsNumeral text.bytes n ∧ InRange type n := by
  cases h with
  | number hnum hrange => exact ⟨_, rfl, hnum, hrange⟩
  | color _ => cases ht
  | text _ => cases ht

/-- The bits of a number of the type are the number, when it is not negative. -/
theorem lowBits_of_mem {type : ItemType} {t : NvsType} {n : ℤ} (ht : type.numberType = some t)
    (hrange : InRange type n) (hn : 0 ≤ n) : (lowBits t n : ℤ) = n := by
  have hlt : n < t.card := by
    cases type <;> cases ht <;> simp only [InRange, NvsType.card, Nat.cast_ofNat] at hrange ⊢ <;> omega
  unfold lowBits
  rw [Int.emod_eq_of_lt hn hlt, Int.toNat_of_nonneg hn]

section Number

variable {nvs : Nvs} {item : ConfigItem} {text : CStr} {t : NvsType} {v : ℤ}

/-- A number is stored, unless it is a zero that is not written `0`. -/
theorem writeNumber_taken (ht : item.type.numberType = some t) (h : ¬ (v = 0 ∧ text.bytes ≠ ascii "0")) :
    writeNumber nvs item text v = (.espOk, nvsSetNumber nvs t item.key v) := by
  rw [writeNumber, if_neg h, configSet, ht]

/-- What `GET` says about a number that was stored. -/
theorem denotes_stored_iff (ht : item.type.numberType = some t) (hsecret : item.secret = false) {n : ℤ} :
    Denotes item.type (configValue (nvsSetNumber nvs t item.key v) item) (.number n) ↔
      n = lowBits t v ∧ InRange item.type n := by
  rw [configValue_number ht hsecret, slot_set nvs (primitiveType_number ht)]
  constructor
  · intro h
    obtain ⟨n', hn', hnum, hrange⟩ := h.of_number ht
    cases hn'
    rw [decimalStr_bytes] at hnum
    exact ⟨hnum.unique (isNumeral_decimal _), hrange⟩
  · rintro ⟨rfl, hrange⟩
    refine .number ?_ hrange
    rw [decimalStr_bytes]
    exact isNumeral_decimal _

theorem number_kept (ht : item.type.numberType = some t)
    (happly : applyConfigValue nvs item (.string text) = writeNumber nvs item text v)
    (hzero : v = 0 ↔ frontInteger text.bytes = 0)
    (hvalue : ∀ n, IsNumeral text.bytes n → InRange item.type n → v = n)
    (h : StoredAsSaid nvs item (.string text)) : NumberKept item text := by
  intro hfront
  have hv : v ≠ 0 := mt hzero.mp hfront
  have haccept := h.accepted
  rw [happly, writeNumber_taken ht (fun hz => hv hz.1)] at haccept
  obtain ⟨m, hm, hreport⟩ := haccept rfl
  obtain ⟨n, rfl, hnum, hn⟩ := hm.of_number ht
  refine ⟨n, hnum, hn, ?_⟩
  by_cases hsecret : item.secret = true
  · exact Or.inl hsecret
  right
  have hshown : item.secret = false := by simpa using hsecret
  have hbits := ((denotes_stored_iff ht hshown).mp (hreport hshown)).1
  have hvn := hvalue n hnum hn
  omega

theorem number_stored (ht : item.type.numberType = some t) (hrange : InRange item.type 0)
    (happly : applyConfigValue nvs item (.string text) = writeNumber nvs item text v)
    (hzero : v = 0 ↔ frontInteger text.bytes = 0)
    (hvalue : ∀ n, IsNumeral text.bytes n → InRange item.type n → v = n) (h : NumberKept item text) :
    StoredAsSaid nvs item (.string text) := by
  refine ⟨?_, refused_unchanged⟩
  rw [happly]
  intro hok
  by_cases hfront : frontInteger text.bytes = 0
  · have hv := hzero.mpr hfront
    have htext : text.bytes = ascii "0" := by
      by_contra hne
      rw [writeNumber, if_pos ⟨hv, hne⟩] at hok
      cases hok
    have hnum : IsNumeral text.bytes 0 := by
      rw [htext]
      exact isNumeral_decimal 0
    refine ⟨.number 0, .number hnum hrange, fun hsecret => ?_⟩
    rw [writeNumber_taken ht (fun hz => hz.2 htext), denotes_stored_iff ht hsecret, hv]
    exact ⟨(lowBits_of_mem ht hrange le_rfl).symm, hrange⟩
  · obtain ⟨n, hnum, hn, hsign⟩ := h hfront
    refine ⟨.number n, .number hnum hn, fun hsecret => ?_⟩
    have hpos : 0 < n := by
      rcases hsign with hsecret' | hpos
      · rw [hsecret] at hsecret'
        cases hsecret'
      · exact hpos
    rw [writeNumber_taken ht (fun hz => hfront (hzero.mp hz.1)), denotes_stored_iff ht hsecret, hvalue n hnum hn]
    exact ⟨(lowBits_of_mem ht hn (Int.le_of_lt hpos)).symm, hn⟩

/-- A number of the type is read by `strtol` or `strtoul`, whichever the type has. -/
theorem number_stored_iff (ht : item.type.numberType = some t) (hrange : InRange item.type 0)
    (happly : applyConfigValue nvs item (.string text) = writeNumber nvs item text v)
    (hzero : v = 0 ↔ frontInteger text.bytes = 0)
    (hvalue : ∀ n, IsNumeral text.bytes n → InRange item.type n → v = n) :
    StoredAsSaid nvs item (.string text) ↔ NumberKept item text :=
  ⟨number_kept ht happly hzero hvalue, number_stored ht hrange happly hzero hvalue⟩

end Number

/-! ### Colours -/

theorem IsColor.unique {text : List UInt8} {v w : ℕ} (hv : IsColor text v) (hw : IsColor text w) : v = w := by
  obtain ⟨ds, rfl, -, -, rfl⟩ := hv.parts
  obtain ⟨es, htext, -, -, rfl⟩ := hw.parts
  rw [List.cons.injEq] at htext
  rw [htext.2]

theorem isColor_colorText (rgba : ℕ) : IsColor (colorText rgba) (rgba / 256 % 16777216) := by
  refine ⟨_, rfl, rfl, ?_, ?_⟩
  · intro c hc
    rcases List.mem_append.mp hc with hc | hc
    · rcases List.mem_append.mp hc with hc | hc
      · exact hexByte_isHexDigit (by omega) c hc
      · exact hexByte_isHexDigit (by omega) c hc
    · exact hexByte_isHexDigit (by omega) c hc
  · rw [readHex_append, readHex_append, readHex_hexByte (by omega), readHex_hexByte (by omega),
      readHex_hexByte (by omega)]
    omega

theorem isColor_black : IsColor blackText 0 := ⟨ascii "000000", rfl, by decide, List.all_eq_true.mp rfl, by decide⟩

theorem colorText_black_of {rgba : ℕ} (h : rgba / 256 % 16777216 = 0) : colorText rgba = blackText := by
  have hred : rgba / 16777216 % 256 = 0 := by omega
  have hgreen : rgba / 65536 % 256 = 0 := by omega
  have hblue : rgba / 256 % 256 = 0 := by omega
  rw [colorText, hred, hgreen, hblue]
  decide

theorem colorStr_bytes (rgba : ℕ) : (CStr.ofBytes (colorText rgba)).bytes = colorText rgba := by
  apply CStr.ofBytes_bytes
  intro h
  obtain ⟨ds, htext, -, hdigits, -⟩ := (isColor_colorText rgba).parts
  rw [htext] at h
  rcases List.mem_cons.mp h with h | h
  · exact absurd h (by decide)
  · exact absurd (hdigits 0 h) (by decide)

/-- What `GET` reports for a colour, unless it is secret. -/
theorem configValue_color {nvs : Nvs} {item : ConfigItem} (htype : item.type = .color)
    (hsecret : item.secret = false) :
    configValue nvs item = .string (CStr.ofBytes (colorText (slot nvs item))) := by
  rw [configValue, if_neg (by rw [htype]; decide), if_neg (by simp [hsecret]), configText, htype]

theorem Denotes.of_color {text : CStr} {m : Member} (h : Denotes .color (.string text) m) :
    ∃ rgb, m = .color rgb ∧ IsColor text.bytes rgb := by
  cases h with
  | number _ hrange => exact absurd hrange id
  | color hcolor => exact ⟨_, rfl, hcolor⟩

/-- The bits of a number at the front of six bytes, moved up by a byte. -/
theorem shifted_eq_zero_iff {h : ℤ} (hsmall : h.natAbs < 16777216) :
    wrapUlong h * 256 % 4294967296 = 0 ↔ h = 0 := by
  have hulong : ¬ ulongMax < h.natAbs := by
    unfold ulongMax
    omega
  rw [wrapUlong, if_neg hulong]
  omega

section Color

variable {nvs : Nvs} {item : ConfigItem} {text : CStr}

theorem alpha_lt (rgba : ℕ) : alpha rgba < 256 := Nat.mod_lt _ (by decide)

/-- What `GET` says about a colour. -/
theorem denotes_color_iff (htype : item.type = .color) (hsecret : item.secret = false) {rgb : ℕ} :
    Denotes .color (configValue nvs item) (.color rgb) ↔ rgb = slot nvs item / 256 % 16777216 := by
  rw [configValue_color htype hsecret]
  constructor
  · intro h
    obtain ⟨rgb', hrgb, hcolor⟩ := h.of_color
    cases hrgb
    rw [colorStr_bytes] at hcolor
    exact hcolor.unique (isColor_colorText _)
  · rintro rfl
    apply Denotes.color
    rw [colorStr_bytes]
    exact isColor_colorText _

theorem colorText_eq_black_iff {rgba : ℕ} : colorText rgba = blackText ↔ rgba / 256 % 16777216 = 0 := by
  constructor
  · intro h
    have hcolor := isColor_colorText rgba
    rw [h] at hcolor
    exact hcolor.unique isColor_black
  · exact colorText_black_of

/-- What follows the `#` of a colour. -/
theorem afterHash_length (hlen : text.length = 7) : (text.bytes.drop 1).length = 6 := by
  rw [List.length_drop]
  show text.length - 1 = 6
  omega

theorem eq_hash_cons (hhead : text.bytes.head? = some hashByte) : text.bytes = hashByte :: text.bytes.drop 1 := by
  rw [List.drop_one]
  exact List.eq_cons_of_mem_head? hhead

/-- What a text of the form of a colour is stored as. -/
theorem writeColor_form (hlen : text.length = 7) (hhead : text.bytes.head? = some hashByte)
    (hother : text.bytes ≠ blackText) :
    (frontHex (text.bytes.drop 1) = 0 → (writeColor nvs item text).1 = .espErrInvalidArg) ∧
      (frontHex (text.bytes.drop 1) ≠ 0 → writeColor nvs item text = (.espOk, nvsSetNumber nvs .u32 item.key
        (strtoul16 (text.bytes.drop 1) * 256 % 4294967296 / 256 * 256 + alpha item.default.bits : ℕ))) := by
  have hsmall := frontHex_natAbs_lt (text.bytes.drop 1)
  rw [afterHash_length hlen] at hsmall
  have hzero := shifted_eq_zero_iff hsmall
  unfold writeColor
  rw [if_neg (by simp [hlen, hhead])]
  dsimp only
  constructor
  · intro hfront
    rw [if_pos ⟨hother, hzero.mpr hfront⟩]
  · intro hfront
    rw [if_neg (fun hz => hfront (hzero.mp hz.2)), if_pos hother]

/-- Black is acknowledged and not stored. -/
theorem writeColor_black (h : text.bytes = blackText) : writeColor nvs item text = (.espOk, nvs) := by
  unfold writeColor CStr.length
  rw [h]
  rfl

/-- What is taken has the form of a colour. -/
theorem writeColor_taken (h : (writeColor nvs item text).1 = .espOk) :
    text.length = 7 ∧ text.bytes.head? = some hashByte := by
  by_contra hform
  rw [writeColor, if_pos (by rw [ne_eq, ne_eq]; tauto)] at h
  cases h

/-- The colour of six digits that were stored under an alpha. -/
theorem rgb_digits {ds : List UInt8} (hsix : ds.length = 6) (hdigits : ∀ c ∈ ds, isHexDigit c = true) {a : ℕ}
    (ha : a < 256) :
    lowBits .u32 (strtoul16 ds * 256 % 4294967296 / 256 * 256 + a : ℕ) / 256 % 16777216 = readHex 0 ds := by
  have hlt := readHex_lt hdigits 0
  rw [hsix] at hlt
  rw [strtoul16_digits hdigits (by omega)]
  unfold lowBits NvsType.card
  dsimp only
  omega

theorem color_kept (htype : item.type = .color)
    (happly : applyConfigValue nvs item (.string text) = writeColor nvs item text)
    (h : StoredAsSaid nvs item (.string text)) : ColorKept nvs item text := by
  have haccept := h.accepted
  rw [happly, htype] at haccept
  refine ⟨?_, ?_⟩
  · intro hblack
    rw [writeColor_black hblack] at haccept
    obtain ⟨m, hm, hreport⟩ := haccept rfl
    obtain ⟨rgb, rfl, hcolor⟩ := hm.of_color
    by_cases hsecret : item.secret = true
    · exact Or.inl hsecret
    right
    have hshown : item.secret = false := by simpa using hsecret
    have hslot := (denotes_color_iff htype hshown).mp (hreport hshown)
    rw [hblack] at hcolor
    rw [colorText_eq_black_iff, ← hslot]
    exact hcolor.unique isColor_black
  · intro hlen hhead hfront
    have hother : text.bytes ≠ blackText := by
      intro hblack
      rw [hblack] at hfront
      exact hfront (by decide)
    rw [(writeColor_form hlen hhead hother).2 hfront] at haccept
    obtain ⟨m, hm, -⟩ := haccept rfl
    obtain ⟨rgb, rfl, hcolor⟩ := hm.of_color
    obtain ⟨ds, htext, -, hdigits, -⟩ := hcolor.parts
    rw [htext]
    exact hdigits

theorem color_stored (htype : item.type = .color)
    (happly : applyConfigValue nvs item (.string text) = writeColor nvs item text) (h : ColorKept nvs item text) :
    StoredAsSaid nvs item (.string text) := by
  refine ⟨?_, refused_unchanged⟩
  rw [happly, htype]
  intro hok
  by_cases hblack : text.bytes = blackText
  · refine ⟨.color 0, .color (by rw [hblack]; exact isColor_black), fun hsecret => ?_⟩
    rw [writeColor_black hblack, denotes_color_iff htype hsecret]
    rcases h.black hblack with hsecret' | hsame
    · rw [hsecret] at hsecret'
      cases hsecret'
    · exact (colorText_eq_black_iff.mp hsame).symm
  obtain ⟨hlen, hhead⟩ := writeColor_taken hok
  by_cases hfront : frontHex (text.bytes.drop 1) = 0
  · rw [(writeColor_form hlen hhead hblack).1 hfront] at hok
    cases hok
  · have hdigits := h.digits hlen hhead hfront
    have hsix := afterHash_length hlen
    refine ⟨.color (readHex 0 (text.bytes.drop 1)), .color ⟨_, eq_hash_cons hhead, hsix, hdigits, rfl⟩,
      fun hsecret => ?_⟩
    rw [(writeColor_form hlen hhead hblack).2 hfront, denotes_color_iff htype hsecret,
      slot_set nvs (by rw [htype]; rfl)]
    exact (rgb_digits hsix hdigits (alpha_lt _)).symm

theorem color_stored_iff (htype : item.type = .color)
    (happly : applyConfigValue nvs item (.string text) = writeColor nvs item text) :
    StoredAsSaid nvs item (.string text) ↔ ColorKept nvs item text :=
  ⟨color_kept htype happly, color_stored htype happly⟩

end Color

/-! ### Addresses -/

/-- A string is taken as a byte when there is one at its front. -/
theorem ipByte_string (text : CStr) :
    ipByte (.string text) = if 0 ≤ frontInteger text.bytes ∧ frontInteger text.bytes ≤ 255 then
      some (frontInteger text.bytes).toNat else none := by
  show (if (clampLong (frontInteger text.bytes)).erange = true ∨ (clampLong (frontInteger text.bytes)).value < 0 ∨
    (clampLong (frontInteger text.bytes)).value > 255 then none else
      some (clampLong (frontInteger text.bytes)).value.toNat) = _
  generalize frontInteger text.bytes = v
  by_cases hbyte : 0 ≤ v ∧ v ≤ 255
  · have hlong := clampLong_of_mem (v := v) (by unfold longMin; omega) (by unfold longMax; omega)
    simp only [hlong]
    rw [if_neg (by simp; omega), if_pos hbyte]
  · rw [if_neg hbyte]
    apply if_pos
    unfold clampLong
    split
    · exact Or.inl rfl
    split
    · exact Or.inl rfl
    · right
      show v < 0 ∨ v > 255
      omega

theorem ipByte_eq_some_iff {child : CJson} {a : ℕ} :
    ipByte child = some a ↔ ∃ text, child = .string text ∧ frontInteger text.bytes = a ∧ a ≤ 255 := by
  cases child with
  | string text =>
      rw [ipByte_string]
      constructor
      · intro h
        split at h
        · rw [Option.some.injEq] at h
          exact ⟨text, rfl, by omega, by omega⟩
        · cases h
      · rintro ⟨_, htext, hfront, hmax⟩
        cases htext
        rw [hfront, if_pos (by omega)]
        rfl
  | number _ => exact iff_of_false (by simp [ipByte]) (by simp)
  | array _ => exact iff_of_false (by simp [ipByte]) (by simp)
  | other => exact iff_of_false (by simp [ipByte]) (by simp)

theorem frontByte_iff {child : CJson} : FrontByte child ↔ ∃ a, ipByte child = some a := by
  constructor
  · rintro ⟨text, rfl, hlo, hhi⟩
    exact ⟨(frontInteger text.bytes).toNat, ipByte_eq_some_iff.mpr ⟨text, rfl, by omega, by omega⟩⟩
  · rintro ⟨a, ha⟩
    obtain ⟨text, rfl, hfront, hmax⟩ := ipByte_eq_some_iff.mp ha
    exact ⟨text, rfl, by omega, by omega⟩

/-- A string that denotes a byte has it at its front. -/
theorem DenotesByte.ipByte {child : CJson} {a n : ℕ} (h : DenotesByte child n) (ha : ipByte child = some a) :
    a = n ∧ a ≤ 255 := by
  obtain ⟨text, rfl, hfront, hmax⟩ := ipByte_eq_some_iff.mp ha
  cases h with
  | numeral hnum _ =>
      rw [frontInteger_numeral hnum] at hfront
      omega

/-- Where all are mapped, each one is. -/
theorem exists_of_mapM {α β : Type} {f : α → Option β} {l : List α} {bs : List β} (h : l.mapM f = some bs) :
    ∀ a ∈ l, ∃ b, f a = some b := by
  induction l generalizing bs with
  | nil => exact List.forall_mem_nil _
  | cons x l ih =>
      rw [List.mapM_cons] at h
      obtain ⟨b, hb, h⟩ := Option.bind_eq_some_iff.mp h
      obtain ⟨bs', hbs', -⟩ := Option.bind_eq_some_iff.mp h
      intro a ha
      rcases List.mem_cons.mp ha with rfl | ha
      · exact ⟨b, hb⟩
      · exact ih hbs' a ha

/-- The four parts of an address that is taken. -/
theorem writeIp_of_bytes {nvs : Nvs} {item : ConfigItem} {x y z w : CJson} {a b c d : ℕ} (hx : ipByte x = some a)
    (hy : ipByte y = some b) (hz : ipByte z = some c) (hw : ipByte w = some d) :
    writeIp nvs item [x, y, z, w] =
      (.espOk, nvsSetNumber nvs .u32 item.key (espNetifHtonl (espNetifIp4Makeu32 a b c d))) := by
  simp [writeIp, hx, hy, hz, hw]

theorem writeIp_taken {nvs : Nvs} {item : ConfigItem} {children : List CJson}
    (h : (writeIp nvs item children).1 = .espOk) :
    children.length = 4 ∧ ∀ child ∈ children, FrontByte child := by
  unfold writeIp at h
  split at h
  · cases h
  rename_i hlen
  refine ⟨not_not.mp hlen, ?_⟩
  intro child hchild
  cases hmap : children.mapM ipByte with
  | none =>
      rw [hmap] at h
      cases h
  | some bytes =>
      exact frontByte_iff.mpr (exists_of_mapM hmap child hchild)

theorem htonl_makeu32 {a b c d : ℕ} (ha : a ≤ 255) (hb : b ≤ 255) (hc : c ≤ 255) (hd : d ≤ 255) :
    espNetifHtonl (espNetifIp4Makeu32 a b c d) = a + b * 256 + c * 65536 + d * 16777216 := by
  unfold espNetifHtonl espNetifIp4Makeu32
  have hlowest : (a * 16777216 + b * 65536 + c * 256 + d) % 256 = d := by omega
  have hlow : (a * 16777216 + b * 65536 + c * 256 + d) / 256 % 256 = c := by omega
  have hhigh : (a * 16777216 + b * 65536 + c * 256 + d) / 65536 % 256 = b := by omega
  have hhighest : (a * 16777216 + b * 65536 + c * 256 + d) / 16777216 % 256 = a := by omega
  rw [hlowest, hlow, hhigh, hhighest]
  omega

/-- The bytes of an address in the order in which they were given. -/
theorem addressBytes {a b c d : ℕ} (ha : a ≤ 255) (hb : b ≤ 255) (hc : c ≤ 255) (hd : d ≤ 255) :
    (List.range 4).map (espIp4AddrGetByte (lowBits .u32 (espNetifHtonl (espNetifIp4Makeu32 a b c d)))) =
      [a, b, c, d] := by
  have hbits : lowBits .u32 (espNetifHtonl (espNetifIp4Makeu32 a b c d)) =
      a + b * 256 + c * 65536 + d * 16777216 := by
    rw [htonl_makeu32 ha hb hc hd]
    unfold lowBits NvsType.card
    dsimp only
    omega
  rw [hbits]
  simp only [List.range, List.range.loop, List.map_cons, List.map_nil, espIp4AddrGetByte, List.cons.injEq,
    and_true]
  norm_num
  omega

theorem apply_array {nvs : Nvs} {item : ConfigItem} {children : List CJson} (htype : item.type = .ip) :
    applyConfigValue nvs item (.array children) = writeIp nvs item children := by
  unfold applyConfigValue CJson.text
  rw [if_neg (by simp [htype]), if_neg (by simp [htype]), if_neg (by simp)]
  unfold writeConfigValue
  rw [htype]

/-- What `GET` reports for an address, secret or not. -/
theorem configValue_ip {nvs : Nvs} {item : ConfigItem} (htype : item.type = .ip) :
    configValue nvs item = .array ((List.range 4).map fun i => .number (espIp4AddrGetByte (slot nvs item) i)) := by
  rw [configValue, if_pos htype]

theorem Denotes.of_ip {children : List CJson} {m : Member} (h : Denotes .ip (.array children) m) :
    ∃ bytes, m = .address bytes ∧ List.Forall₂ DenotesByte children bytes := by
  cases h with
  | address _ hbytes => exact ⟨_, rfl, hbytes⟩

section Address

variable {nvs : Nvs} {item : ConfigItem} {children : List CJson}

/-- Four parts with bytes at their fronts. -/
theorem four_parts (hlen : children.length = 4) (hfront : ∀ child ∈ children, FrontByte child) :
    ∃ x y z w a b c d, children = [x, y, z, w] ∧
      ipByte x = some a ∧ ipByte y = some b ∧ ipByte z = some c ∧ ipByte w = some d := by
  obtain ⟨x, y, z, w, rfl⟩ := List.length_eq_four.mp hlen
  obtain ⟨a, ha⟩ := frontByte_iff.mp (hfront x (by simp))
  obtain ⟨b, hb⟩ := frontByte_iff.mp (hfront y (by simp))
  obtain ⟨c, hc⟩ := frontByte_iff.mp (hfront z (by simp))
  obtain ⟨d, hd⟩ := frontByte_iff.mp (hfront w (by simp))
  exact ⟨x, y, z, w, a, b, c, d, rfl, ha, hb, hc, hd⟩

/-- What `GET` says about an address that was stored. -/
theorem denotes_stored_address (htype : item.type = .ip) {a b c d : ℕ} (ha : a ≤ 255) (hb : b ≤ 255) (hc : c ≤ 255)
    (hd : d ≤ 255) :
    Denotes .ip (configValue (nvsSetNumber nvs .u32 item.key (espNetifHtonl (espNetifIp4Makeu32 a b c d))) item)
      (.address [a, b, c, d]) := by
  have haddress : (List.range 4).map (fun i => CJson.number (espIp4AddrGetByte
      (lowBits .u32 (espNetifHtonl (espNetifIp4Makeu32 a b c d))) i)) =
        [.number a, .number b, .number c, .number d] := by
    show (List.range 4).map ((fun n : ℕ => CJson.number n) ∘ espIp4AddrGetByte _) = _
    rw [← List.map_map, addressBytes ha hb hc hd]
    rfl
  rw [configValue_ip htype, slot_set nvs (by rw [htype]; rfl), haddress]
  exact .address rfl (.cons (.number ha) (.cons (.number hb) (.cons (.number hc) (.cons (.number hd) .nil))))

theorem ip_kept (htype : item.type = .ip) (h : StoredAsSaid nvs item (.array children)) : IpKept children := by
  intro hlen hfront
  obtain ⟨x, y, z, w, a, b, c, d, rfl, ha, hb, hc, hd⟩ := four_parts hlen hfront
  have haccept := h.accepted
  rw [apply_array htype, writeIp_of_bytes ha hb hc hd, htype] at haccept
  obtain ⟨m, hm, -⟩ := haccept rfl
  obtain ⟨bytes, rfl, hbytes⟩ := hm.of_ip
  intro child hchild
  rw [List.forall₂_iff_get] at hbytes
  obtain ⟨i, hi, rfl⟩ := List.mem_iff_getElem.mp hchild
  exact ⟨_, hbytes.2 i hi (hbytes.1 ▸ hi)⟩

theorem ip_stored (htype : item.type = .ip) (h : IpKept children) : StoredAsSaid nvs item (.array children) := by
  refine ⟨?_, refused_unchanged⟩
  rw [apply_array htype, htype]
  intro hok
  obtain ⟨hlen, hfront⟩ := writeIp_taken hok
  have hdenotes := h hlen hfront
  obtain ⟨x, y, z, w, a, b, c, d, rfl, ha, hb, hc, hd⟩ := four_parts hlen hfront
  -- each part has at its front what it denotes
  have hpart : ∀ child n, child ∈ [x, y, z, w] → ipByte child = some n → DenotesByte child n ∧ n ≤ 255 := by
    intro child n hchild hn
    obtain ⟨n', hn'⟩ := hdenotes child hchild
    obtain ⟨rfl, hmax⟩ := hn'.ipByte hn
    exact ⟨hn', hmax⟩
  obtain ⟨hx, hamax⟩ := hpart x a (by simp) ha
  obtain ⟨hy, hbmax⟩ := hpart y b (by simp) hb
  obtain ⟨hz, hcmax⟩ := hpart z c (by simp) hc
  obtain ⟨hw, hdmax⟩ := hpart w d (by simp) hd
  refine ⟨.address [a, b, c, d], .address hlen (.cons hx (.cons hy (.cons hz (.cons hw .nil)))), fun _ => ?_⟩
  rw [writeIp_of_bytes ha hb hc hd]
  exact denotes_stored_address htype hamax hbmax hcmax hdmax

theorem ip_stored_iff (htype : item.type = .ip) : StoredAsSaid nvs item (.array children) ↔ IpKept children :=
  ⟨ip_kept htype, ip_stored htype⟩

end Address

/-! ### Every type -/

/-- The types whose numbers `strtol` reads. -/
def Signed (type : ItemType) : Prop := type = .bool ∨ type = .int8 ∨ type = .int16 ∨ type = .int32

/-- The types whose numbers `strtoul` reads. -/
def Unsigned (type : ItemType) : Prop := type = .uint8 ∨ type = .uint16 ∨ type = .uint32

theorem Signed.range {type : ItemType} (h : Signed type) :
    (∃ t, type.numberType = some t) ∧ InRange type 0 ∧ ∀ n, InRange type n → longMin ≤ n ∧ n ≤ longMax := by
  rcases h with rfl | rfl | rfl | rfl <;>
    exact ⟨⟨_, rfl⟩, by unfold InRange; omega, fun n hn => by unfold InRange at hn; unfold longMin longMax; omega⟩

theorem Unsigned.range {type : ItemType} (h : Unsigned type) :
    (∃ t, type.numberType = some t) ∧ InRange type 0 ∧ ∀ n, InRange type n → 0 ≤ n ∧ n ≤ ulongMax := by
  rcases h with rfl | rfl | rfl <;>
    exact ⟨⟨_, rfl⟩, by unfold InRange; omega, fun n hn => by unfold InRange at hn; unfold ulongMax; omega⟩

theorem signed_stored_iff {nvs : Nvs} {item : ConfigItem} {text : CStr} (h : Signed item.type)
    (happly : applyConfigValue nvs item (.string text) = writeNumber nvs item text (strtol text.bytes).value) :
    StoredAsSaid nvs item (.string text) ↔ NumberKept item text := by
  obtain ⟨⟨t, ht⟩, hzero, hrange⟩ := h.range
  apply number_stored_iff ht hzero happly clampLong_eq_zero_iff
  intro n hnum hn
  rw [strtol, frontInteger_numeral hnum, clampLong_of_mem (hrange n hn).1 (hrange n hn).2]

theorem unsigned_stored_iff {nvs : Nvs} {item : ConfigItem} {text : CStr} (h : Unsigned item.type)
    (happly : applyConfigValue nvs item (.string text) = writeNumber nvs item text (strtoul text.bytes)) :
    StoredAsSaid nvs item (.string text) ↔ NumberKept item text := by
  obtain ⟨⟨t, ht⟩, hzero, hrange⟩ := h.range
  apply number_stored_iff ht hzero happly
  · rw [Nat.cast_eq_zero]
    exact wrapUlong_eq_zero_iff
  · intro n hnum hn
    rw [strtoul, frontInteger_numeral hnum, wrapUlong_of_mem (hrange n hn).1 (hrange n hn).2,
      Int.toNat_of_nonneg (hrange n hn).1]

/-- What is refused keeps its word. -/
theorem stored_of_refused {nvs : Nvs} {item : ConfigItem} {entry : CJson}
    (h : (applyConfigValue nvs item entry).1 ≠ .espOk) : StoredAsSaid nvs item entry :=
  ⟨fun hok => absurd hok h, refused_unchanged⟩

theorem string_stored {nvs : Nvs} {item : ConfigItem} {text : CStr} (htype : item.type = .string)
    (happly : applyConfigValue nvs item (.string text) = (.espOk, nvs.set item.key (.str text))) :
    StoredAsSaid nvs item (.string text) := by
  refine ⟨fun _ => ⟨.text text, ?_, fun hsecret => ?_⟩, refused_unchanged⟩
  · rw [htype]
    exact .text text
  · have hread : configText (nvs.set item.key (.str text)) item = text := by
      simp only [configText, htype, configGetStrBlob, nvsGetStr, Nvs.set_same, Option.getD_some]
      exact CStr.ofBytes_self text
    rw [happly, configValue, if_neg (by rw [htype]; decide), if_neg (by simp [hsecret]), hread, htype]
    exact .text text

/-- The types of at most 32 bits, strings, colours and addresses. -/
def Narrow (type : ItemType) : Prop := type ≠ .int64 ∧ type ≠ .uint64 ∧ type ≠ .blob

section Other

variable {nvs : Nvs} {item : ConfigItem} {entry : CJson}

/-- A value that is no string is refused, unless it is an array for an address. -/
theorem other_refused (htext : entry.text = none) (harray : item.type = .ip → ∀ children, entry ≠ .array children) :
    (applyConfigValue nvs item entry).1 ≠ .espOk := by
  by_cases htype : item.type = .ip
  · have hwrite : applyConfigValue nvs item entry = (.espErrInvalidArg, nvs) := by
      unfold applyConfigValue
      rw [if_neg (by simp [htype]), if_neg (by simp [htype]), if_neg (by rw [htext]; simp)]
      cases entry with
      | array children => exact absurd rfl (harray htype children)
      | string _ => cases htext
      | number _ =>
          unfold writeConfigValue
          rw [htype]
      | other =>
          unfold writeConfigValue
          rw [htype]
    simp [hwrite]
  · rw [applyConfigValue, if_pos ⟨htype, htext⟩]
    simp

theorem other_kept (htext : entry.text = none) (harray : item.type = .ip → ∀ children, entry ≠ .array children) :
    Kept nvs item entry := by
  unfold Kept
  split
  · trivial
  · cases htext
  · rename_i htype
    exact absurd rfl (harray htype _)
  · trivial
  · cases htext
  · trivial

theorem other_stored_iff (htext : entry.text = none)
    (harray : item.type = .ip → ∀ children, entry ≠ .array children) :
    StoredAsSaid nvs item entry ↔ Kept nvs item entry :=
  iff_of_true (stored_of_refused (other_refused htext harray)) (other_kept htext harray)

end Other

/-- A string for any type. -/
theorem string_stored_iff {nvs : Nvs} {item : ConfigItem} {text : CStr} (hnarrow : Narrow item.type)
    (happly : applyConfigValue nvs item (.string text) = writeConfigValue nvs item (.string text)) :
    StoredAsSaid nvs item (.string text) ↔ Kept nvs item (.string text) := by
  obtain ⟨hint64, huint64, hblob⟩ := hnarrow
  unfold Kept
  unfold writeConfigValue at happly
  cases htype : item.type <;> simp only [htype] at happly ⊢
  case bool => exact signed_stored_iff (.inl htype) happly
  case int8 => exact signed_stored_iff (.inr (.inl htype)) happly
  case int16 => exact signed_stored_iff (.inr (.inr (.inl htype))) happly
  case int32 => exact signed_stored_iff (.inr (.inr (.inr htype))) happly
  case int64 => exact absurd htype hint64
  case uint8 => exact unsigned_stored_iff (.inl htype) happly
  case uint16 => exact unsigned_stored_iff (.inr (.inl htype)) happly
  case uint32 => exact unsigned_stored_iff (.inr (.inr htype)) happly
  case uint64 => exact absurd htype huint64
  case string => exact iff_of_true (string_stored htype happly) trivial
  case blob => exact absurd htype hblob
  case color => exact color_stored_iff htype happly
  case ip => exact iff_of_true (stored_of_refused (by simp [happly])) trivial

/-- **What is acknowledged is stored exactly when the value is `Kept`.** -/
theorem stored_as_said_iff {nvs : Nvs} {item : ConfigItem} {entry : CJson} (hnarrow : Narrow item.type)
    (hmarker : entry.text ≠ some configValueUnchanged)
    (hempty : item.type = .string ∨ entry.text ≠ some CStr.empty) :
    StoredAsSaid nvs item entry ↔ Kept nvs item entry := by
  cases entry with
  | string text =>
      apply string_stored_iff hnarrow
      apply apply_string
      · exact fun h => hmarker (by rw [h]; rfl)
      · exact hempty.imp_right fun h hempty => h (by rw [hempty]; rfl)
  | array children =>
      by_cases htype : item.type = .ip
      · rw [ip_stored_iff htype]
        simp only [Kept, htype]
      · exact other_stored_iff rfl (fun hip => absurd hip htype)
  | number value => exact other_stored_iff rfl (fun _ children h => by cases h)
  | other => exact other_stored_iff rfl (fun _ children h => by cases h)

/-- The port of the first NTRIP server. -/
def serverPort : ConfigItem := numberItem "ntr_srv_port" .uint16 false 2101

theorem stored_as_said_serverPort : Narrow serverPort.type ∧
    (StoredAsSaid (fun _ => none) serverPort (.string ⟨ascii "2102", by decide⟩) ↔
      Kept (fun _ => none) serverPort (.string ⟨ascii "2102", by decide⟩)) :=
  ⟨by unfold Narrow; decide, stored_as_said_iff (by unfold Narrow; decide) (by decide) (by decide)⟩

/-- The port `70000` is acknowledged, and 4464 is stored. -/
theorem port_wraps :
    (applyConfigValue (fun _ => none) serverPort (.string ⟨ascii "70000", by decide⟩)).1 = .espOk ∧
      configGetU16 (applyConfigValue (fun _ => none) serverPort (.string ⟨ascii "70000", by decide⟩)).2 serverPort =
        4464 ∧
      ¬ StoredAsSaid (fun _ => none) serverPort (.string ⟨ascii "70000", by decide⟩) := by
  have hok : (applyConfigValue (fun _ => none) serverPort (.string ⟨ascii "70000", by decide⟩)).1 = .espOk := by
    decide
  refine ⟨hok, by decide, ?_⟩
  intro h
  obtain ⟨m, hm, -⟩ := h.accepted hok
  obtain ⟨n, -, hnum, hrange⟩ := hm.of_number (t := .u16) rfl
  have hn : n = 70000 := (frontInteger_numeral hnum).symm.trans (by decide)
  have hrange' : 0 ≤ n ∧ n ≤ 65535 := hrange
  omega

end RtkdataFw.WebServer
