import Mathlib.Data.List.TakeWhile
import Mathlib.Data.Nat.Digits.Lemmas
import Mathlib.Tactic.Common

/-!
# Decimal numbers in text

Text is a list of bytes.  `decimal` prints a number the way `%llu` does; `scanInteger` reads one off the
front of a text the way `%d` and `strtol` do, and says what is left.  `IsNumeral` is the grammar of what it
reads: blanks, a sign, digits.

* `readDigits_decimal` — what is printed reads back;
* `decimal_length_le_iff` — how long a printed number is;
* `scanInteger_eq_some_iff`, `scanInteger_eq_none_iff` — the scan reads the longest numeral at the front, and
  nothing else.
-/

namespace RtkdataFw.Lib

/-- The bytes of a text. -/
def ascii (s : String) : List UInt8 := s.toList.map Char.toUInt8

/-- `isdigit`. -/
def isDigit (c : UInt8) : Bool := 48 ≤ c && c ≤ 57

/-- `isspace`. -/
def isSpace (c : UInt8) : Bool := c = 32 || (9 ≤ c && c ≤ 13)

def digitValue (c : UInt8) : ℕ := c.toNat - 48

def digitByte (d : ℕ) : UInt8 := UInt8.ofNat (48 + d)

/-- The value of a text of digits, read after the value `v`. -/
def readDigits (v : ℕ) (ds : List UInt8) : ℕ := ds.foldl (fun v c => 10 * v + digitValue c) v

/-- `%llu`. -/
def decimal (n : ℕ) : List UInt8 :=
  if n = 0 then [digitByte 0] else (Nat.digits 10 n).reverse.map digitByte

theorem digitByte_isDigit : ∀ d < 10, isDigit (digitByte d) = true := by decide

theorem digitValue_digitByte : ∀ d < 10, digitValue (digitByte d) = d := by decide

theorem digitByte_eq_zero : ∀ d < 10, digitByte d = digitByte 0 → d = 0 := by decide

theorem readDigits_append (v : ℕ) (ds es : List UInt8) :
    readDigits v (ds ++ es) = readDigits (readDigits v ds) es :=
  List.foldl_append

/-! ### Printing -/

/-- Digits printed from the most significant on. -/
theorem readDigits_digits (l : List ℕ) (hl : ∀ d ∈ l, d < 10) (v : ℕ) :
    readDigits v (l.reverse.map digitByte) = v * 10 ^ l.length + Nat.ofDigits 10 l := by
  induction l with
  | nil => simp [readDigits]
  | cons d l ih =>
      have hd := hl d List.mem_cons_self
      have hrest := ih fun e he => hl e (List.mem_cons_of_mem d he)
      rw [List.reverse_cons, List.map_append, readDigits_append, hrest, Nat.ofDigits_cons]
      show 10 * _ + digitValue (digitByte d) = _
      rw [digitValue_digitByte d hd, List.length_cons, pow_succ]
      ring

/-- **What is printed reads back.** -/
theorem readDigits_decimal (n : ℕ) : readDigits 0 (decimal n) = n := by
  unfold decimal
  split
  · rename_i hzero
    rw [hzero]
    decide
  · rw [readDigits_digits _ fun d hd => Nat.digits_lt_base (by decide) hd, Nat.ofDigits_digits]
    simp

theorem decimal_isDigit {n : ℕ} : ∀ c ∈ decimal n, isDigit c = true := by
  intro c hc
  unfold decimal at hc
  split at hc
  · rw [List.mem_singleton.mp hc]
    decide
  · obtain ⟨d, hd, rfl⟩ := List.mem_map.mp hc
    exact digitByte_isDigit d (Nat.digits_lt_base (by decide) (List.mem_reverse.mp hd))

/-- A printed number holds no terminator. -/
theorem zero_notMem_decimal (n : ℕ) : 0 ∉ decimal n := by
  intro h
  exact absurd (decimal_isDigit 0 h) (by decide)

theorem decimal_ne_nil (n : ℕ) : decimal n ≠ [] := by
  unfold decimal
  split
  · simp
  · rename_i hpos
    simpa [Nat.digits_eq_nil_iff_eq_zero] using hpos

/-- How long a printed number is. -/
theorem decimal_length_le_iff {n k : ℕ} (hk : 0 < k) : (decimal n).length ≤ k ↔ n < 10 ^ k := by
  unfold decimal
  split
  · rename_i hzero
    subst hzero
    exact iff_of_true hk (by positivity)
  · rw [List.length_map, List.length_reverse, Nat.digits_length_le_iff (by decide)]

/-- A printed number has no leading zero. -/
theorem decimal_head (n : ℕ) : decimal n = [digitByte 0] ∨ (decimal n).head? ≠ some (digitByte 0) := by
  unfold decimal
  split
  · exact .inl rfl
  · rename_i hpos
    right
    rw [List.head?_map, List.head?_reverse]
    intro hzero
    obtain ⟨d, hd, heq⟩ := Option.map_eq_some_iff.mp hzero
    have hne : Nat.digits 10 n ≠ [] := Nat.digits_ne_nil_iff_ne_zero.mpr hpos
    rw [List.getLast?_eq_some_getLast hne, Option.some.injEq] at hd
    have hlt : d < 10 := Nat.digits_lt_base (by decide) (hd ▸ List.getLast_mem hne)
    exact Nat.getLast_digit_ne_zero 10 hpos (hd.trans (digitByte_eq_zero d hlt heq))

/-! ### Scanning -/

def minusByte : UInt8 := 45

def plusByte : UInt8 := 43

/-- An optional sign: whether it is a minus, and what follows. -/
def scanSign : List UInt8 → Bool × List UInt8
  | [] => (false, [])
  | c :: s => if c = minusByte then (true, s) else if c = plusByte then (false, s) else (false, c :: s)

/-- What `%d` reads off the front, and what it leaves; `none` when there is no number. -/
def scanInteger (s : List UInt8) : Option (ℤ × List UInt8) :=
  let r := scanSign (s.dropWhile isSpace)
  let ds := r.2.takeWhile isDigit
  if ds = [] then none
  else some (if r.1 then -(readDigits 0 ds : ℤ) else readDigits 0 ds, r.2.dropWhile isDigit)

/-- Blanks, an optional sign, and digits. -/
structure IsNumeral (t : List UInt8) (z : ℤ) : Prop where
  parts : ∃ blanks sign ds, t = blanks ++ (sign ++ ds) ∧ (∀ c ∈ blanks, isSpace c = true) ∧
    (sign = [] ∨ sign = [plusByte] ∨ sign = [minusByte]) ∧ ds ≠ [] ∧ (∀ c ∈ ds, isDigit c = true) ∧
    z = if sign = [minusByte] then -(readDigits 0 ds : ℤ) else readDigits 0 ds

/-- No digit at the front. -/
def NoDigit (s : List UInt8) : Prop := s.head?.all (fun c => !isDigit c) = true

instance (s : List UInt8) : Decidable (NoDigit s) := inferInstanceAs (Decidable (_ = _))

theorem isSpace_of_isDigit {c : UInt8} (h : isDigit c = true) : isSpace c = false := by
  unfold isDigit at h
  unfold isSpace
  rw [Bool.and_eq_true, decide_eq_true_iff, decide_eq_true_iff, UInt8.le_iff_toNat_le,
    UInt8.le_iff_toNat_le] at h
  simp only [Bool.or_eq_false_iff, Bool.and_eq_false_iff, decide_eq_false_iff_not, UInt8.le_iff_toNat_le,
    ← UInt8.toNat_inj]
  have h13 : (13 : UInt8).toNat = 13 := rfl
  have h32 : (32 : UInt8).toNat = 32 := rfl
  have h48 : (48 : UInt8).toNat = 48 := rfl
  omega

theorem dropWhile_of_head {p : UInt8 → Bool} {s : List UInt8} (h : ∀ c ∈ s.head?, p c = false) :
    s.dropWhile p = s := by
  cases s with
  | nil => rfl
  | cons c s => rw [List.dropWhile_cons, if_neg (by simp [h c rfl])]

theorem takeWhile_of_head {p : UInt8 → Bool} {s : List UInt8} (h : ∀ c ∈ s.head?, p c = false) :
    s.takeWhile p = [] := by
  cases s with
  | nil => rfl
  | cons c s => rw [List.takeWhile_cons, if_neg (by simp [h c rfl])]

theorem NoDigit.head {s : List UInt8} (h : NoDigit s) : ∀ c ∈ s.head?, isDigit c = false := by
  intro c hc
  unfold NoDigit at h
  rw [Option.mem_def] at hc
  rw [hc] at h
  simpa using h

/-- The sign that was read, and what follows it. -/
theorem scanSign_parts (s : List UInt8) :
    ∃ sign, s = sign ++ (scanSign s).2 ∧ (sign = [] ∨ sign = [plusByte] ∨ sign = [minusByte]) ∧
      ((scanSign s).1 = true ↔ sign = [minusByte]) := by
  cases s with
  | nil => exact ⟨[], rfl, .inl rfl, by simp [scanSign]⟩
  | cons c s =>
      rw [scanSign]
      by_cases hminus : c = minusByte
      · rw [if_pos hminus]
        exact ⟨[c], rfl, .inr (.inr (by rw [hminus])), by simp [hminus]⟩
      rw [if_neg hminus]
      by_cases hplus : c = plusByte
      · rw [if_pos hplus]
        exact ⟨[c], rfl, .inr (.inl (by rw [hplus])), by simp [hminus]⟩
      · rw [if_neg hplus]
        exact ⟨[], rfl, .inl rfl, by simp⟩

theorem scanSign_append {sign ds : List UInt8} (hsign : sign = [] ∨ sign = [plusByte] ∨ sign = [minusByte])
    (hds : ∀ c ∈ ds.head?, isDigit c = true) :
    scanSign (sign ++ ds) = (decide (sign = [minusByte]), ds) := by
  rcases hsign with rfl | rfl | rfl
  · cases ds with
    | nil => rfl
    | cons c ds =>
        have hc := hds c rfl
        have hminus : c ≠ minusByte := by
          rintro rfl
          exact absurd hc (by decide)
        have hplus : c ≠ plusByte := by
          rintro rfl
          exact absurd hc (by decide)
        rw [List.nil_append, scanSign, if_neg hminus, if_neg hplus]
        rfl
  · rfl
  · rfl

/-- A numeral is read, up to the first byte that is no digit. -/
theorem scanInteger_append {t rest : List UInt8} {z : ℤ} (ht : IsNumeral t z) (hrest : NoDigit rest) :
    scanInteger (t ++ rest) = some (z, rest) := by
  obtain ⟨blanks, sign, ds, rfl, hblanks, hsign, hne, hdigits, rfl⟩ := ht.parts
  have hhead : ∀ c ∈ (ds ++ rest).head?, isDigit c = true := by
    intro c hc
    rw [List.head?_append_of_ne_nil _ hne] at hc
    exact hdigits c (List.mem_of_mem_head? hc)
  have hstart : ((blanks ++ (sign ++ ds)) ++ rest).dropWhile isSpace = sign ++ (ds ++ rest) := by
    rw [List.append_assoc, List.dropWhile_append_of_pos hblanks, List.append_assoc]
    apply dropWhile_of_head
    intro c hc
    rcases hsign with rfl | rfl | rfl
    · exact isSpace_of_isDigit (hhead c hc)
    · cases hc
      decide
    · cases hc
      decide
  have htake : (ds ++ rest).takeWhile isDigit = ds := by
    rw [List.takeWhile_append_of_pos hdigits, takeWhile_of_head hrest.head, List.append_nil]
  have hdrop : (ds ++ rest).dropWhile isDigit = rest := by
    rw [List.dropWhile_append_of_pos hdigits, dropWhile_of_head hrest.head]
  unfold scanInteger
  rw [hstart, scanSign_append hsign hhead]
  dsimp only
  rw [htake, hdrop, if_neg hne]
  simp only [decide_eq_true_eq]

theorem noDigit_dropWhile (s : List UInt8) : NoDigit (s.dropWhile isDigit) := by
  unfold NoDigit
  cases hrest : s.dropWhile isDigit with
  | nil => rfl
  | cons c rest =>
      have hhead := List.head?_dropWhile_not isDigit s
      rw [hrest] at hhead
      simpa using hhead

theorem scanInteger_some {s rest : List UInt8} {z : ℤ} (h : scanInteger s = some (z, rest)) :
    ∃ t, s = t ++ rest ∧ IsNumeral t z ∧ NoDigit rest := by
  obtain ⟨sign, heq, hsign, hneg⟩ := scanSign_parts (s.dropWhile isSpace)
  unfold scanInteger at h
  generalize scanSign (s.dropWhile isSpace) = r at heq hneg h
  dsimp only at h
  by_cases hne : r.2.takeWhile isDigit = []
  · rw [if_pos hne] at h
    exact absurd h (by simp)
  rw [if_neg hne, Option.some.injEq, Prod.mk.injEq] at h
  obtain ⟨rfl, rfl⟩ := h
  refine ⟨s.takeWhile isSpace ++ (sign ++ r.2.takeWhile isDigit), ?_, ?_, ?_⟩
  · calc s = s.takeWhile isSpace ++ s.dropWhile isSpace := (List.takeWhile_append_dropWhile).symm
      _ = s.takeWhile isSpace ++ (sign ++ r.2) := by rw [← heq]
      _ = s.takeWhile isSpace ++ (sign ++ (r.2.takeWhile isDigit ++ r.2.dropWhile isDigit)) := by
          rw [List.takeWhile_append_dropWhile]
      _ = _ := by simp only [List.append_assoc]
  · refine ⟨_, sign, _, rfl, fun c hc => List.mem_takeWhile_imp hc, hsign, hne,
      fun c hc => List.mem_takeWhile_imp hc, ?_⟩
    simp only [hneg]
  · exact noDigit_dropWhile r.2

/-- **The scan reads the longest numeral at the front**, and nothing else. -/
theorem scanInteger_eq_some_iff {s rest : List UInt8} {z : ℤ} :
    scanInteger s = some (z, rest) ↔ ∃ t, s = t ++ rest ∧ IsNumeral t z ∧ NoDigit rest := by
  refine ⟨scanInteger_some, ?_⟩
  intro h
  obtain ⟨t, rfl, ht, hrest⟩ := h
  exact scanInteger_append ht hrest

/-- A numeral may go on with the digits that follow it. -/
theorem IsNumeral.append_digits {t ds : List UInt8} {z : ℤ} (h : IsNumeral t z)
    (hds : ∀ c ∈ ds, isDigit c = true) : ∃ z', IsNumeral (t ++ ds) z' := by
  obtain ⟨blanks, sign, es, rfl, hblanks, hsign, hne, hdigits, -⟩ := h.parts
  refine ⟨_, blanks, sign, es ++ ds, by simp only [List.append_assoc], hblanks, hsign, by simp [hne], ?_, rfl⟩
  intro c hc
  rcases List.mem_append.mp hc with hc | hc
  · exact hdigits c hc
  · exact hds c hc

/-- The text begins with an integer, after optional blanks. -/
def BeginsWithInteger (s : List UInt8) : Prop := ∃ t rest z, s = t ++ rest ∧ IsNumeral t z

theorem scanInteger_eq_none_iff {s : List UInt8} : scanInteger s = none ↔ ¬ BeginsWithInteger s := by
  constructor
  · intro hnone hbegins
    obtain ⟨t, rest, z, rfl, ht⟩ := hbegins
    obtain ⟨z', ht'⟩ := ht.append_digits fun c hc => List.mem_takeWhile_imp hc
    have hread := scanInteger_append ht' (noDigit_dropWhile rest)
    rw [List.append_assoc, List.takeWhile_append_dropWhile, hnone] at hread
    exact absurd hread (by simp)
  · intro hnot
    cases hscan : scanInteger s with
    | none => rfl
    | some r =>
        obtain ⟨t, heq, ht, -⟩ := scanInteger_some hscan
        exact absurd ⟨t, r.2, r.1, heq, ht⟩ hnot

end RtkdataFw.Lib
