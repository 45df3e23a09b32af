import Mathlib.Data.List.Basic
import Mathlib.Data.Nat.Notation

/-!
# NOR flash partitions

A partition of `n` bytes.  Erasing sets bytes to `0xFF`, programming can only clear bits, and either may
break off with an error after some of its bytes.

* `write_fst` — a write succeeds when it lies inside the partition and does not break off;
* `eraseAll_head`, `eraseAll_untouched` — an erase that got to work has wiped the first byte, and one that
  did not has changed nothing;
* `eraseAll_wiped`, `write_image` — what an erase and a write behind a file leave, whole or broken off.
-/

namespace RtkdataFw.Lib

/-- The contents of a partition of `n` bytes. -/
abbrev Partition (n : ℕ) := Fin n → UInt8

/-- How one erase or write turns out. -/
inductive FlashIo where
  | ok
  /-- It reports an error after so many bytes. -/
  | fails (done : ℕ)
  deriving DecidableEq, Repr

/-- The operation got to work at all. -/
def FlashIo.Touches : FlashIo → Prop
  | .ok => True
  | .fails done => 0 < done

instance (io : FlashIo) : Decidable io.Touches :=
  match io with
  | .ok => isTrue trivial
  | .fails done => inferInstanceAs (Decidable (0 < done))

namespace Partition

variable {n : ℕ}

def blank : Partition n := fun _ => 0xFF

def program (p : Partition n) (off : ℕ) (data : List UInt8) : Partition n := fun i =>
  if off ≤ i.val then
    match data[i.val - off]? with
    | some b => p i &&& b
    | none => p i
  else p i

/-- The bytes of a range. -/
def slice (p : Partition n) (off len : ℕ) : List UInt8 :=
  (List.ofFn p).drop off |>.take len

/-- Erase the whole partition: whether that succeeds, and the contents then. -/
def eraseAll (p : Partition n) : FlashIo → Bool × Partition n
  | .ok => (true, blank)
  | .fails done => (false, fun i => if i.val < done then 0xFF else p i)

/-- Write a range, which has to lie inside the partition. -/
def write (p : Partition n) (off : ℕ) (data : List UInt8) (io : FlashIo) : Bool × Partition n :=
  if off + data.length ≤ n then
    match io with
    | .ok => (true, p.program off data)
    | .fails done => (false, p.program off (data.take done))
  else (false, p)

theorem write_fst {p : Partition n} {off : ℕ} {data : List UInt8} {io : FlashIo} :
    (p.write off data io).1 = true ↔ off + data.length ≤ n ∧ io = .ok := by
  unfold write
  split
  · rename_i hfits
    cases io <;> simp [hfits]
  · rename_i hover
    simp [hover]

@[simp] theorem eraseAll_ok (p : Partition n) : p.eraseAll .ok = (true, blank) := rfl

theorem eraseAll_fst {p : Partition n} {io : FlashIo} : (p.eraseAll io).1 = true ↔ io = .ok := by
  cases io <;> simp [eraseAll]

theorem length_slice {p : Partition n} {off len : ℕ} (h : off + len ≤ n) :
    (p.slice off len).length = len := by
  simp only [slice, List.length_take, List.length_drop, List.length_ofFn]
  omega

/-- An erase that got to work has wiped the first byte, whatever was there. -/
theorem eraseAll_head (p : Partition n) {io : FlashIo} (h : io.Touches) (hn : 0 < n) :
    (p.eraseAll io).2 ⟨0, hn⟩ = 0xFF := by
  cases io with
  | ok => rfl
  | fails done => exact if_pos h

theorem eraseAll_untouched (p : Partition n) {io : FlashIo} (h : ¬ io.Touches) :
    p.eraseAll io = (false, p) := by
  cases io with
  | ok => exact absurd trivial h
  | fails done =>
      show (false, fun i : Fin n => if i.val < done then (0xFF : UInt8) else p i) = (false, p)
      have hzero : done = 0 := Nat.eq_zero_of_not_pos h
      subst hzero
      rfl

/-! ### Files on an erased partition -/

/-- A file on an erased partition. -/
def image (file : List UInt8) : Partition n := fun i => file.getD i.val 0xFF

/-- A partition of which so many bytes are erased. -/
def wiped (p : Partition n) (k : ℕ) : Partition n := fun i => if i.val < k then 0xFF else p i

@[simp] theorem image_nil : (image [] : Partition n) = blank := rfl

@[simp] theorem wiped_zero (p : Partition n) : p.wiped 0 = p := rfl

theorem wiped_all (p : Partition n) : p.wiped n = blank := by
  funext i
  exact if_pos i.isLt

/-- A second erase goes as far as the longer of the two. -/
theorem wiped_wiped (p : Partition n) (j k : ℕ) : (p.wiped j).wiped k = p.wiped (max j k) := by
  funext i
  simp only [wiped]
  split_ifs <;> first | rfl | omega

/-- **An erase** leaves a front part erased. -/
theorem eraseAll_wiped (p : Partition n) (io : FlashIo) : ∃ k, (p.eraseAll io).2 = p.wiped k := by
  cases io with
  | ok => exact ⟨n, (wiped_all p).symm⟩
  | fails done => exact ⟨done, rfl⟩

/-- Programming can only clear bits, and behind a file all of them are set. -/
theorem program_image (file data : List UInt8) :
    (image file : Partition n).program file.length data = image (file ++ data) := by
  funext i
  simp only [program, image, List.getD, List.getElem?_append]
  by_cases hbehind : file.length ≤ i.val
  · rw [if_pos hbehind, if_neg (Nat.not_lt.mpr hbehind), List.getElem?_eq_none hbehind]
    cases data[i.val - file.length]? with
    | none => rfl
    | some b => exact (UInt8.and_comm _ _).trans UInt8.and_neg_one
  · rw [if_neg hbehind, if_pos (Nat.lt_of_not_le hbehind)]

/-- **A write behind a file** leaves the file and a leading part of the data, all of it when it succeeds. -/
theorem write_image (file data : List UInt8) (io : FlashIo) :
    (∃ k, ((image file : Partition n).write file.length data io).2 = image (file ++ data.take k)) ∧
      (((image file : Partition n).write file.length data io).1 = true →
        ((image file : Partition n).write file.length data io).2 = image (file ++ data)) := by
  unfold write
  by_cases hfits : file.length + data.length ≤ n
  · rw [if_pos hfits]
    cases io with
    | ok => exact ⟨⟨data.length, by rw [List.take_length, program_image]⟩, fun _ => program_image file data⟩
    | fails done => exact ⟨⟨done, program_image file _⟩, fun h => absurd h Bool.false_ne_true⟩
  · rw [if_neg hfits]
    exact ⟨⟨0, by rw [List.take_zero, List.append_nil]⟩, fun h => absurd h Bool.false_ne_true⟩

/-- A part of a partition that holds a file is that part of the file. -/
theorem image_take_image {m : ℕ} (file : List UInt8) (hfits : file.length ≤ n) (k : ℕ) :
    (image ((List.ofFn (image file : Partition n)).take k) : Partition m) = image (file.take k) := by
  funext i
  simp only [image, List.getD, List.getElem?_take, List.getElem?_ofFn]
  by_cases hpart : i.val < k
  · rw [if_pos hpart, if_pos hpart]
    by_cases hin : i.val < n
    · simp [hin]
    · have hout : file[i.val]? = none := List.getElem?_eq_none (Nat.le_trans hfits (Nat.le_of_not_lt hin))
      simp [hin, hout]
  · rw [if_neg hpart, if_neg hpart]

end Partition

end RtkdataFw.Lib
