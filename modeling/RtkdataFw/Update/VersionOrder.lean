import Mathlib.Data.Prod.Lex
import Mathlib.Data.Int.Order.Basic
import RtkdataFw.Lib.CStr
import RtkdataFw.Lib.Numeral

/-!
# The version comparison of `update.c`

`ota_version_is_newer` reads up to three integers off each version with `sscanf`, which stops at the first
thing that does not match, and compares them in order.

* `Dotted` — the integers that a version begins with, one dot between two of them;
* `sscanf_dotted` — the scan returns the first three of them;
* `exists_dotted` — every text that begins with an integer has them;
* `otaVersionIsNewer_iff`, `version_order` — the comparison is the lexicographic order, whatever follows.
-/

namespace RtkdataFw.Update

open RtkdataFw.Lib

/-! ### The code -/

inductive Directive where
  /-- `%d`. -/
  | int
  | char (c : UInt8)
  deriving DecidableEq, Repr

/-- The integers that `sscanf` assigns, until the first directive that does not match. -/
def sscanf : List Directive → List UInt8 → List ℤ
  | [], _ => []
  | .int :: fmt, s =>
      match scanInteger s with
      | none => []
      | some (z, rest) => z :: sscanf fmt rest
  | .char _ :: _, [] => []
  | .char c :: fmt, b :: s => if b = c then sscanf fmt s else []

def dotByte : UInt8 := 46

/-- `%d.%d.%d`. -/
def versionFormat : List Directive := [.int, .char dotByte, .int, .char dotByte, .int]

def intMin : ℤ := -2147483648

def intMax : ℤ := 2147483647

/-- What an `int` holds of a number that was read. -/
def storeInt (z : ℤ) : ℤ := max intMin (min z intMax)

/-- The loop over the components from `i` on, `left` of them; the arrays start out as zeros. -/
def versionLoop (ca cu : List ℤ) (i : ℕ) : ℕ → Bool
  | 0 => false
  | left + 1 =>
      if ca.getD i 0 > cu.getD i 0 then true
      else if ca.getD i 0 < cu.getD i 0 then false
      else versionLoop ca cu (i + 1) left

def otaVersionIsNewer (cand cur : CStr) : Bool :=
  let ca := (sscanf versionFormat cand.bytes).map storeInt
  let cu := (sscanf versionFormat cur.bytes).map storeInt
  if ca.length < 1 ∨ cu.length < 1 then decide (cand ≠ cur) else versionLoop ca cu 0 3

/-! ### Versions -/

/-- The text begins with these integers, one dot between two of them, and with no more. -/
inductive Dotted : List UInt8 → List ℤ → Prop
  | last {t rest : List UInt8} {z : ℤ} :
      IsNumeral t z → NoDigit rest → (∀ u, rest = dotByte :: u → ¬ BeginsWithInteger u) →
      Dotted (t ++ rest) [z]
  | more {t s : List UInt8} {z : ℤ} {zs : List ℤ} :
      IsNumeral t z → Dotted s zs → Dotted (t ++ dotByte :: s) (z :: zs)

/-- A version that begins with an integer, the integers that count in the range of `int`. -/
structure Version where
  text : CStr
  components : List ℤ
  dotted : Dotted text.bytes components
  inRange : ∀ z ∈ components.take 3, intMin ≤ z ∧ z ≤ intMax

/-- The first three components, missing ones 0. -/
def Version.triple (v : Version) : ℤ ×ₗ ℤ ×ₗ ℤ :=
  toLex (v.components.getD 0 0, toLex (v.components.getD 1 0, v.components.getD 2 0))

/-! ### Reading a version -/

/-- The format for `k` components. -/
def dottedFormat : ℕ → List Directive
  | 0 => []
  | 1 => [.int]
  | k + 2 => .int :: .char dotByte :: dottedFormat (k + 1)

theorem noDigit_dot (s : List UInt8) : NoDigit (dotByte :: s) := by
  unfold NoDigit
  rfl

/-- **The scan returns the first components.** -/
theorem sscanf_dotted {s : List UInt8} {zs : List ℤ} (h : Dotted s zs) (k : ℕ) :
    sscanf (dottedFormat k) s = zs.take k := by
  induction h generalizing k with
  | @last t rest z ht hrest hend =>
      match k with
      | 0 => rfl
      | 1 =>
          rw [dottedFormat, sscanf, scanInteger_append ht hrest]
          rfl
      | k + 2 =>
          rw [dottedFormat, sscanf, scanInteger_append ht hrest]
          have hnone : sscanf (.char dotByte :: dottedFormat (k + 1)) rest = [] := by
            cases rest with
            | nil => rfl
            | cons b u =>
                rw [sscanf]
                split
                · rename_i hdot
                  have hscan := scanInteger_eq_none_iff.mpr (hend u (by rw [hdot]))
                  cases k with
                  | zero => rw [dottedFormat, sscanf, hscan]
                  | succ k => rw [dottedFormat, sscanf, hscan]
                · rfl
          simp [hnone]
  | @more t s z zs ht _ ih =>
      match k with
      | 0 => rfl
      | 1 =>
          rw [dottedFormat, sscanf, scanInteger_append ht (noDigit_dot s)]
          rfl
      | k + 2 =>
          rw [dottedFormat, sscanf, scanInteger_append ht (noDigit_dot s)]
          simp [sscanf, ih (k + 1)]

/-- **Every text that begins with an integer has its components.** -/
theorem exists_dotted {s : List UInt8} (h : BeginsWithInteger s) : ∃ zs, Dotted s zs := by
  induction hlen : s.length using Nat.strong_induction_on generalizing s with
  | _ n ih =>
    cases hscan : scanInteger s with
    | none => exact absurd h (scanInteger_eq_none_iff.mp hscan)
    | some r =>
        obtain ⟨t, heq, ht, hrest⟩ := scanInteger_eq_some_iff.mp hscan
        by_cases hmore : ∃ u, r.2 = dotByte :: u ∧ BeginsWithInteger u
        · obtain ⟨u, hu, hbegins⟩ := hmore
          have hshort : u.length < n := by
            rw [← hlen, heq, hu, List.length_append, List.length_cons]
            omega
          obtain ⟨zs, hzs⟩ := ih u.length hshort hbegins rfl
          rw [heq, hu]
          exact ⟨_, .more ht hzs⟩
        · rw [heq]
          exact ⟨_, .last ht hrest fun u hu hbegins => hmore ⟨u, hu, hbegins⟩⟩

/-! ### The order -/

theorem Dotted.ne_nil {s : List UInt8} {zs : List ℤ} (h : Dotted s zs) : zs ≠ [] := by
  cases h with
  | last _ _ _ => simp
  | more _ _ => simp

/-- What the code has in its array after the scan of a version. -/
theorem scan_version (v : Version) :
    (sscanf versionFormat v.text.bytes).map storeInt = v.components.take 3 := by
  have hscan : sscanf versionFormat v.text.bytes = v.components.take 3 := sscanf_dotted v.dotted 3
  rw [hscan, List.map_congr_left (g := id), List.map_id]
  intro z hz
  have hrange := v.inRange z hz
  unfold storeInt
  rw [min_eq_left hrange.2, max_eq_right hrange.1]
  rfl

/-- The loop over three components is the lexicographic order. -/
theorem versionLoop_iff (ca cu : List ℤ) :
    versionLoop ca cu 0 3 = true ↔
      toLex (cu.getD 0 0, toLex (cu.getD 1 0, cu.getD 2 0)) <
        (toLex (ca.getD 0 0, toLex (ca.getD 1 0, ca.getD 2 0)) : ℤ ×ₗ ℤ ×ₗ ℤ) := by
  rw [Prod.Lex.toLex_lt_toLex, Prod.Lex.toLex_lt_toLex]
  show (if ca.getD 0 0 > cu.getD 0 0 then true else if ca.getD 0 0 < cu.getD 0 0 then false
    else if ca.getD 1 0 > cu.getD 1 0 then true else if ca.getD 1 0 < cu.getD 1 0 then false
    else if ca.getD 2 0 > cu.getD 2 0 then true else if ca.getD 2 0 < cu.getD 2 0 then false
    else false) = true ↔ _
  dsimp only
  generalize ca.getD 0 0 = a₀
  generalize ca.getD 1 0 = a₁
  generalize ca.getD 2 0 = a₂
  generalize cu.getD 0 0 = c₀
  generalize cu.getD 1 0 = c₁
  generalize cu.getD 2 0 = c₂
  split_ifs <;> simp only [true_iff, false_iff] <;> omega

/-- **The comparison is the lexicographic order** of the first three components. -/
theorem otaVersionIsNewer_iff (a b : Version) :
    otaVersionIsNewer a.text b.text = true ↔ b.triple < a.triple := by
  have hnonempty : ∀ v : Version, ¬ (v.components.take 3).length < 1 := by
    intro v
    have hne := List.length_pos_of_ne_nil v.dotted.ne_nil
    rw [List.length_take]
    omega
  have htake : ∀ (zs : List ℤ) (i : ℕ), i < 3 → (zs.take 3).getD i 0 = zs.getD i 0 := by
    intro zs i hi
    rw [List.getD_eq_getElem?_getD, List.getElem?_take_of_lt hi, ← List.getD_eq_getElem?_getD]
  unfold otaVersionIsNewer
  dsimp only
  rw [scan_version, scan_version, if_neg (not_or.mpr ⟨hnonempty a, hnonempty b⟩), versionLoop_iff]
  simp only [htake _ 0 (by decide), htake _ 1 (by decide), htake _ 2 (by decide)]
  rfl

/-- **No two builds replace each other in turn.**  Every text that begins with an integer has components; with
these in the range of `int`, whatever follows them, the comparison holds exactly when the first three are
lexicographically greater, and so it is a strict order whose incomparability is transitive. -/
theorem version_order :
    (∀ s, BeginsWithInteger s → ∃ zs, Dotted s zs) ∧
    (∀ a b : Version, otaVersionIsNewer a.text b.text = true ↔ b.triple < a.triple) ∧
    (∀ a : Version, ¬ otaVersionIsNewer a.text a.text = true) ∧
    (∀ a b : Version, otaVersionIsNewer a.text b.text = true → ¬ otaVersionIsNewer b.text a.text = true) ∧
    (∀ a b c : Version, otaVersionIsNewer a.text b.text = true → otaVersionIsNewer b.text c.text = true →
      otaVersionIsNewer a.text c.text = true) ∧
    ∀ a b c : Version, ¬ otaVersionIsNewer a.text b.text = true → ¬ otaVersionIsNewer b.text a.text = true →
      ¬ otaVersionIsNewer b.text c.text = true → ¬ otaVersionIsNewer c.text b.text = true →
      ¬ otaVersionIsNewer a.text c.text = true ∧ ¬ otaVersionIsNewer c.text a.text = true := by
  simp only [otaVersionIsNewer_iff, not_lt]
  refine ⟨fun s hs => exists_dotted hs, fun _ _ => trivial, fun a => le_refl _, ?_, ?_, ?_⟩
  · intro a b hab
    exact hab.le
  · intro a b c hab hbc
    exact hbc.trans hab
  · intro a b c hab hba hbc hcb
    exact ⟨hab.trans hbc, hcb.trans hba⟩

theorem isNumeral_digits (ds : List UInt8) (hne : ds ≠ []) (hds : ∀ c ∈ ds, isDigit c = true) :
    IsNumeral ds (readDigits 0 ds) :=
  ⟨[], [], ds, rfl, by simp, .inl rfl, hne, hds, by simp⟩

def candidateVersion : Version where
  text := ⟨ascii "1.10", by decide⟩
  components := [1, 10]
  dotted := .more (isNumeral_digits (ascii "1") (by decide) (List.all_eq_true.mp rfl))
    (@Dotted.last (ascii "10") [] 10 (isNumeral_digits (ascii "10") (by decide) (List.all_eq_true.mp rfl)) rfl
      (by simp))
  inRange := by decide

def runningVersion : Version where
  text := ⟨ascii "1.9.x", by decide⟩
  components := [1, 9]
  dotted := .more (isNumeral_digits (ascii "1") (by decide) (List.all_eq_true.mp rfl))
    (@Dotted.last (ascii "9") (ascii ".x") 9 (isNumeral_digits (ascii "9") (by decide) (List.all_eq_true.mp rfl)) rfl
      (by
        intro u hu
        cases hu
        exact scanInteger_eq_none_iff.mp (by decide)))
  inRange := by decide

theorem version_order_candidate :
    otaVersionIsNewer candidateVersion.text runningVersion.text = true ∧
      ¬ otaVersionIsNewer runningVersion.text candidateVersion.text = true := by
  have hnewer : otaVersionIsNewer candidateVersion.text runningVersion.text = true :=
    (version_order.2.1 candidateVersion runningVersion).mpr (by decide)
  exact ⟨hnewer, version_order.2.2.2.1 candidateVersion runningVersion hnewer⟩

end RtkdataFw.Update
