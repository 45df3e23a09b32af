import RtkdataFw.Lib.Numeral

/-!
# `strtol`, `strtoul` and hexadecimal digits

Both read the number at the front of a text, whatever follows it, and bring it into the range of a `long` of
32 bits: `strtol` stops at its ends, `strtoul` turns a negative number round.  Where there is no number they
return zero, like for a zero.

* `frontInteger_numeral`, `frontHex_digits` — a text that is a numeral has its value at the front;
* `clampLong_eq_zero_iff`, `wrapUlong_eq_zero_iff` — zero is returned for a zero only;
* `readHex_hexByte` — two hexadecimal digits read back;
* `frontHex_natAbs_lt` — a short text has a small number.
-/

namespace RtkdataFw.Lib

def longMin : ℤ := -2147483648

def longMax : ℤ := 2147483647

def ulongMax : ℕ := 4294967295

/-! ### Base ten -/

/-- The number at the front of a text; zero when there is none. -/
def frontInteger (s : List UInt8) : ℤ := ((scanInteger s).map Prod.fst).getD 0

/-- What `strtol` returns, and whether it set `errno` to `ERANGE`. -/
structure LongRead where
  value : ℤ
  erange : Bool
  deriving DecidableEq, Repr

/-- A number as a `long`. -/
def clampLong (v : ℤ) : LongRead :=
  if v < longMin then ⟨longMin, true⟩ else if longMax < v then ⟨longMax, true⟩ else ⟨v, false⟩

/-- A number as an `unsigned long`. -/
def wrapUlong (v : ℤ) : ℕ := if ulongMax < v.natAbs then ulongMax else (v % 4294967296).toNat

/-- `strtol (s, NULL, 10)`. -/
def strtol (s : List UInt8) : LongRead := clampLong (frontInteger s)

/-- `strtoul (s, NULL, 10)`. -/
def strtoul (s : List UInt8) : ℕ := wrapUlong (frontInteger s)

theorem isNumeral_decimal (n : ℕ) : IsNumeral (decimal n) n :=
  ⟨[], [], decimal n, rfl, List.forall_mem_nil _, .inl rfl, decimal_ne_nil n,
    decimal_isDigit, by rw [if_neg (by simp), readDigits_decimal]⟩

/-- A numeral has its number at the front. -/
theorem frontInteger_numeral {t : List UInt8} {z : ℤ} (h : IsNumeral t z) : frontInteger t = z := by
  have hscan := @scanInteger_append t [] z h (by decide)
  rw [List.append_nil] at hscan
  rw [frontInteger, hscan]
  rfl

theorem IsNumeral.unique {t : List UInt8} {z w : ℤ} (hz : IsNumeral t z) (hw : IsNumeral t w) : z = w :=
  (frontInteger_numeral hz).symm.trans (frontInteger_numeral hw)

theorem clampLong_of_mem {v : ℤ} (hlo : longMin ≤ v) (hhi : v ≤ longMax) : clampLong v = ⟨v, false⟩ := by
  rw [clampLong, if_neg (by omega), if_neg (by omega)]

theorem clampLong_eq_zero_iff {v : ℤ} : (clampLong v).value = 0 ↔ v = 0 := by
  unfold clampLong longMin longMax
  split
  · dsimp only
    omega
  split
  · dsimp only
    omega
  · exact Iff.rfl

theorem wrapUlong_of_mem {v : ℤ} (hlo : 0 ≤ v) (hhi : v ≤ ulongMax) : wrapUlong v = v.toNat := by
  unfold ulongMax at hhi
  rw [wrapUlong, ulongMax, if_neg (by omega)]
  omega

theorem wrapUlong_eq_zero_iff {v : ℤ} : wrapUlong v = 0 ↔ v = 0 := by
  unfold wrapUlong ulongMax
  split <;> omega

/-! ### Base sixteen -/

def isHexDigit (c : UInt8) : Bool := isDigit c || (97 ≤ c && c ≤ 102) || (65 ≤ c && c ≤ 70)

def hexValue (c : UInt8) : ℕ :=
  if c ≤ 57 then c.toNat - 48 else if c ≤ 70 then c.toNat - 55 else c.toNat - 87

/-- The value of a text of hexadecimal digits, read after the value `v`. -/
def readHex (v : ℕ) (ds : List UInt8) : ℕ := ds.foldl (fun v c => 16 * v + hexValue c) v

/-- The digit of `%x`. -/
def hexDigit (d : ℕ) : UInt8 := if d < 10 then UInt8.ofNat (48 + d) else UInt8.ofNat (87 + d)

/-- `%02x` of a byte. -/
def hexByte (b : ℕ) : List UInt8 := [hexDigit (b / 16), hexDigit (b % 16)]

/-- The optional `0x` of base sixteen. -/
def skipHexMark : List UInt8 → List UInt8
  | z :: x :: s => if z = 48 ∧ (x = 120 ∨ x = 88) then s else z :: x :: s
  | s => s

/-- The hexadecimal number at the front of a text; zero when there is none. -/
def frontHex (s : List UInt8) : ℤ :=
  let r := scanSign (s.dropWhile isSpace)
  let ds := (skipHexMark r.2).takeWhile isHexDigit
  if r.1 then -(readHex 0 ds : ℤ) else readHex 0 ds

/-- `strtoul (s, NULL, 16)`. -/
def strtoul16 (s : List UInt8) : ℕ := wrapUlong (frontHex s)

theorem hexDigit_isHexDigit : ∀ d < 16, isHexDigit (hexDigit d) = true := by decide

theorem hexValue_hexDigit : ∀ d < 16, hexValue (hexDigit d) = d := by decide

theorem hexByte_isHexDigit {b : ℕ} (h : b < 256) : ∀ c ∈ hexByte b, isHexDigit c = true := by
  intro c hc
  simp only [hexByte, List.mem_cons, List.not_mem_nil, or_false] at hc
  rcases hc with rfl | rfl
  · exact hexDigit_isHexDigit _ (by omega)
  · exact hexDigit_isHexDigit _ (by omega)

theorem readHex_append (v : ℕ) (ds es : List UInt8) : readHex v (ds ++ es) = readHex (readHex v ds) es :=
  List.foldl_append

theorem readHex_hexByte {b : ℕ} (h : b < 256) (v : ℕ) : readHex v (hexByte b) = 256 * v + b := by
  show 16 * (16 * v + hexValue (hexDigit (b / 16))) + hexValue (hexDigit (b % 16)) = _
  rw [hexValue_hexDigit _ (by omega), hexValue_hexDigit _ (by omega)]
  omega

theorem hexValue_lt {c : UInt8} (h : isHexDigit c = true) : hexValue c < 16 := by
  unfold isHexDigit isDigit at h
  unfold hexValue
  simp only [Bool.or_eq_true, Bool.and_eq_true, decide_eq_true_eq, UInt8.le_iff_toNat_le] at h ⊢
  have h48 : (48 : UInt8).toNat = 48 := rfl
  have h57 : (57 : UInt8).toNat = 57 := rfl
  have h65 : (65 : UInt8).toNat = 65 := rfl
  have h70 : (70 : UInt8).toNat = 70 := rfl
  have h97 : (97 : UInt8).toNat = 97 := rfl
  have h102 : (102 : UInt8).toNat = 102 := rfl
  split
  · omega
  split
  · omega
  · omega

/-- As many digits, so large a number. -/
theorem readHex_lt {ds : List UInt8} (h : ∀ c ∈ ds, isHexDigit c = true) (v : ℕ) :
    readHex v ds < (v + 1) * 16 ^ ds.length := by
  induction ds generalizing v with
  | nil =>
      show v < (v + 1) * 1
      omega
  | cons c ds ih =>
      have hc := hexValue_lt (h c List.mem_cons_self)
      have hrest := ih (fun d hd => h d (List.mem_cons_of_mem _ hd)) (16 * v + hexValue c)
      have hstep : (16 * v + hexValue c + 1) * 16 ^ ds.length ≤ (16 * v + 16) * 16 ^ ds.length :=
        Nat.mul_le_mul_right _ (by omega)
      calc readHex v (c :: ds) = readHex (16 * v + hexValue c) ds := rfl
        _ < (16 * v + hexValue c + 1) * 16 ^ ds.length := hrest
        _ ≤ (16 * v + 16) * 16 ^ ds.length := hstep
        _ = (v + 1) * 16 ^ (c :: ds).length := by
            rw [List.length_cons, Nat.pow_succ]
            ring

theorem skipHexMark_of_digits {ds : List UInt8} (h : ∀ c ∈ ds, isHexDigit c = true) : skipHexMark ds = ds := by
  match ds with
  | [] => rfl
  | [_] => rfl
  | z :: x :: s =>
      have hx := h x (List.mem_cons_of_mem _ List.mem_cons_self)
      rw [skipHexMark]
      apply if_neg
      intro hmark
      rcases hmark.2 with rfl | rfl
      · exact absurd hx (by decide)
      · exact absurd hx (by decide)

/-- Every byte of a kind, by looking at all of them. -/
theorem forall_byte {p : UInt8 → Prop} (h : ∀ n < 256, p (UInt8.ofNat n)) (c : UInt8) : p c := by
  have hc := h c.toNat c.toNat_lt
  rwa [UInt8.ofNat_toNat] at hc

theorem isHexDigit_head (c : UInt8) (h : isHexDigit c = true) :
    isSpace c = false ∧ c ≠ minusByte ∧ c ≠ plusByte := by
  revert h
  exact forall_byte (p := fun c => isHexDigit c = true → isSpace c = false ∧ c ≠ minusByte ∧ c ≠ plusByte)
    (by decide +kernel) c

/-- A text of hexadecimal digits has its number at the front. -/
theorem frontHex_digits {ds : List UInt8} (h : ∀ c ∈ ds, isHexDigit c = true) : frontHex ds = readHex 0 ds := by
  have hspace : ds.dropWhile isSpace = ds := by
    apply dropWhile_of_head
    intro c hc
    exact (isHexDigit_head c (h c (List.mem_of_mem_head? hc))).1
  have hsign : scanSign ds = (false, ds) := by
    cases ds with
    | nil => rfl
    | cons c s =>
        obtain ⟨-, hminus, hplus⟩ := isHexDigit_head c (h c List.mem_cons_self)
        rw [scanSign, if_neg hminus, if_neg hplus]
  have htake : ds.takeWhile isHexDigit = ds := List.takeWhile_eq_self_iff.mpr h
  unfold frontHex
  rw [hspace, hsign]
  dsimp only
  rw [skipHexMark_of_digits h, htake, if_neg (by decide)]

/-- Eight digits or fewer are read as they are. -/
theorem strtoul16_digits {ds : List UInt8} (h : ∀ c ∈ ds, isHexDigit c = true) (hlen : ds.length ≤ 8) :
    strtoul16 ds = readHex 0 ds := by
  have hlt := readHex_lt h 0
  rw [Nat.zero_add, Nat.one_mul] at hlt
  have hpow : 16 ^ ds.length ≤ 16 ^ 8 := Nat.pow_le_pow_right (by decide) hlen
  rw [strtoul16, frontHex_digits h, wrapUlong_of_mem (Int.natCast_nonneg _) (by unfold ulongMax; omega)]
  exact Int.toNat_natCast _

theorem scanSign_length (s : List UInt8) : (scanSign s).2.length ≤ s.length := by
  obtain ⟨sign, heq, -⟩ := scanSign_parts s
  have hlen := congrArg List.length heq
  rw [List.length_append] at hlen
  omega

theorem skipHexMark_length (s : List UInt8) : (skipHexMark s).length ≤ s.length := by
  match s with
  | [] => exact Nat.le_refl _
  | [_] => exact Nat.le_refl _
  | z :: x :: s =>
      rw [skipHexMark]
      split
      · exact Nat.le_succ_of_le (Nat.le_succ _)
      · exact Nat.le_refl _

/-- The number at the front is small when the text is short. -/
theorem frontHex_natAbs_lt (s : List UInt8) : (frontHex s).natAbs < 16 ^ s.length := by
  have hdigits : ∀ c ∈ (skipHexMark (scanSign (s.dropWhile isSpace)).2).takeWhile isHexDigit,
      isHexDigit c = true := fun c hc => List.mem_takeWhile_imp hc
  have hlen : ((skipHexMark (scanSign (s.dropWhile isSpace)).2).takeWhile isHexDigit).length ≤ s.length :=
    calc _ ≤ (skipHexMark (scanSign (s.dropWhile isSpace)).2).length := (List.takeWhile_sublist _).length_le
      _ ≤ (scanSign (s.dropWhile isSpace)).2.length := skipHexMark_length _
      _ ≤ (s.dropWhile isSpace).length := scanSign_length _
      _ ≤ s.length := (List.dropWhile_sublist _).length_le
  have hlt := readHex_lt hdigits 0
  rw [Nat.zero_add, Nat.one_mul] at hlt
  have hpow := Nat.lt_of_lt_of_le hlt (Nat.pow_le_pow_right (by decide) hlen)
  unfold frontHex
  dsimp only
  split
  · rw [Int.natAbs_neg, Int.natAbs_natCast]
    exact hpow
  · rw [Int.natAbs_natCast]
    exact hpow

end RtkdataFw.Lib
