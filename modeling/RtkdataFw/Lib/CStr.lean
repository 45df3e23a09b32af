import Mathlib.Data.List.Infix
import Mathlib.Data.List.TakeWhile
import Mathlib.Data.Nat.Notation
import Mathlib.Tactic.Common

/-!
# C strings and stored strings

A C string is the bytes before its terminator.  A key-value store hands a string out through a buffer of
the caller, and only when the whole of it fits, terminator included.

* `readStr` — what such a read returns;
* `readStr_ok_iff` — it succeeds exactly with the stored string, when that fits;
* `readStr_size` — a buffer of the stored string's own size is always enough;
* `strcpy_below_iff` — when the stores of a copy stay inside a buffer;
* `strcasecmp_eq_zero_iff` — the comparison up to case finds strings equal that have the same letters.
-/

namespace RtkdataFw.Lib

/-- The bytes of a C string. -/
structure CStr where
  bytes : List UInt8
  noNul : 0 ∉ bytes
  deriving DecidableEq, Repr

namespace CStr

def empty : CStr := ⟨[], List.not_mem_nil⟩

/-- The string that some bytes begin with. -/
def ofBytes (bytes : List UInt8) : CStr :=
  ⟨bytes.takeWhile (fun c => c ≠ 0), fun h => absurd (List.mem_takeWhile_imp h) (by decide)⟩

/-- Bytes without a NUL are a whole string. -/
theorem ofBytes_bytes {bytes : List UInt8} (h : 0 ∉ bytes) : (ofBytes bytes).bytes = bytes := by
  apply List.takeWhile_eq_self_iff.mpr
  intro c hc
  rw [decide_eq_true_iff]
  rintro rfl
  exact h hc

theorem ofBytes_self (s : CStr) : ofBytes s.bytes = s := by
  obtain ⟨bytes, hnul⟩ := s
  rw [mk.injEq]
  exact ofBytes_bytes hnul

theorem bytes_inj {s t : CStr} (h : s.bytes = t.bytes) : s = t := by
  rw [← ofBytes_self s, h, ofBytes_self]

/-- `strlen`. -/
def length (s : CStr) : ℕ := s.bytes.length

/-- The bytes that the string takes, with its terminator. -/
def size (s : CStr) : ℕ := s.length + 1

/-- `strstr (s, needle) != NULL`. -/
def Contains (s needle : CStr) : Prop := List.IsInfix needle.bytes s.bytes

instance (s needle : CStr) : Decidable (s.Contains needle) :=
  inferInstanceAs (Decidable (List.IsInfix _ _))

end CStr

/-- The result of reading a stored string into a buffer. -/
inductive StrRead where
  | ok (s : CStr)
  | notFound
  | invalidLength
  deriving DecidableEq, Repr

/-- Reading a stored string into a buffer of `cap` bytes. -/
def readStr (stored : Option CStr) (cap : ℕ) : StrRead :=
  match stored with
  | none => .notFound
  | some s => if s.size ≤ cap then .ok s else .invalidLength

theorem readStr_ok_iff {stored : Option CStr} {cap : ℕ} {s : CStr} :
    readStr stored cap = .ok s ↔ stored = some s ∧ s.size ≤ cap := by
  cases stored with
  | none => simp [readStr]
  | some t =>
      by_cases hfits : t.size ≤ cap
      · rw [readStr, if_pos hfits, StrRead.ok.injEq, Option.some.injEq]
        exact ⟨fun h => ⟨h, h ▸ hfits⟩, fun h => h.1⟩
      · rw [readStr, if_neg hfits]
        apply iff_of_false (by simp)
        intro h
        obtain ⟨heq, hs⟩ := h
        cases heq
        exact hfits hs

theorem readStr_size (s : CStr) : readStr (some s) s.size = .ok s :=
  readStr_ok_iff.mpr ⟨rfl, Nat.le_refl _⟩

/-! ### Stores -/

/-- The string in a buffer, without its terminator, and every index that was written. -/
structure StrBuf where
  text : List UInt8
  writes : List ℕ
  deriving DecidableEq, Repr

namespace StrBuf

def new : StrBuf := ⟨[], []⟩

/-- `strcpy (buf + pos, s)`, where the string in the buffer reaches up to `pos`. -/
def strcpy (b : StrBuf) (pos : ℕ) (s : List UInt8) : StrBuf :=
  ⟨b.text.take pos ++ s, b.writes ++ List.range' pos (s.length + 1)⟩

/-- A copy stays below `size` when its terminator does. -/
theorem strcpy_below_iff {b : StrBuf} {pos : ℕ} {s : List UInt8} {size : ℕ} :
    (∀ i ∈ (b.strcpy pos s).writes, i < size) ↔ (∀ i ∈ b.writes, i < size) ∧ pos + s.length < size := by
  constructor
  · intro h
    refine ⟨fun i hi => h i (List.mem_append_left _ hi), ?_⟩
    exact h _ (List.mem_append_right _ (List.mem_range'_1.mpr ⟨by omega, by omega⟩))
  · intro h i hi
    rcases List.mem_append.mp hi with hi | hi
    · exact h.1 i hi
    · have hrange := List.mem_range'_1.mp hi
      omega

end StrBuf

/-! ### Case -/

/-- `tolower`. -/
def lower (c : UInt8) : UInt8 := if 65 ≤ c.toNat ∧ c.toNat ≤ 90 then c + 32 else c

theorem lower_toNat (c : UInt8) :
    (lower c).toNat = if 65 ≤ c.toNat ∧ c.toNat ≤ 90 then c.toNat + 32 else c.toNat := by
  unfold lower
  split
  · rename_i hupper
    rw [UInt8.toNat_add]
    show (c.toNat + 32) % 256 = _
    omega
  · rfl

/-- Bytes that agree up to case are the same, or the two cases of a letter. -/
theorem eq_or_case_of_lower {c d : UInt8} (h : lower c = lower d) :
    c = d ∨ (65 ≤ c.toNat ∧ c.toNat ≤ 90 ∧ d.toNat = c.toNat + 32) ∨
      (65 ≤ d.toNat ∧ d.toNat ≤ 90 ∧ c.toNat = d.toNat + 32) := by
  have hnat := congrArg UInt8.toNat h
  rw [lower_toNat, lower_toNat] at hnat
  rw [← UInt8.toNat_inj]
  split at hnat <;> split at hnat <;> omega

/-- `strcasecmp`: the difference at the first place where the strings differ in more than case. -/
def strcasecmp : List UInt8 → List UInt8 → ℤ
  | [], [] => 0
  | [], d :: _ => 0 - (lower d).toNat
  | c :: _, [] => (lower c).toNat
  | c :: s, d :: t => if lower c ≠ lower d then (lower c).toNat - (lower d).toNat else strcasecmp s t

theorem lower_ne_zero {c : UInt8} (h : c ≠ 0) : (lower c).toNat ≠ 0 := by
  have hc : c.toNat ≠ 0 := fun hzero => h (UInt8.toNat_inj.mp hzero)
  rw [lower_toNat]
  split <;> omega

theorem strcasecmp_eq_zero_iff {s t : List UInt8} (hs : 0 ∉ s) (ht : 0 ∉ t) :
    strcasecmp s t = 0 ↔ s.map lower = t.map lower := by
  induction s, t using strcasecmp.induct with
  | case1 => simp [strcasecmp]
  | case2 d t =>
      have hd := lower_ne_zero fun hd : d = 0 => ht (hd ▸ List.mem_cons_self)
      rw [strcasecmp]
      apply iff_of_false
      · omega
      · simp
  | case3 c s =>
      have hc := lower_ne_zero fun hc : c = 0 => hs (hc ▸ List.mem_cons_self)
      rw [strcasecmp]
      apply iff_of_false
      · omega
      · simp
  | case4 c s d t hne =>
      have hnat : (lower c).toNat ≠ (lower d).toNat := fun heq => hne (UInt8.toNat_inj.mp heq)
      rw [strcasecmp, if_pos hne, List.map_cons, List.map_cons, List.cons.injEq]
      apply iff_of_false
      · omega
      · exact fun h => hne h.1
  | case5 c s d t heq ih =>
      rw [strcasecmp, if_neg heq, List.map_cons, List.map_cons, List.cons.injEq,
        ih (fun h => hs (List.mem_cons_of_mem _ h)) fun h => ht (List.mem_cons_of_mem _ h)]
      exact ⟨fun h => ⟨not_not.mp heq, h⟩, fun h => h.2⟩

end RtkdataFw.Lib
