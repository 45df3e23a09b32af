import Mathlib.Data.List.Basic
import Mathlib.Data.List.Nodup

/-!
# Packed arrays

An array of nullable cells with a count: the cells below the count are in use, those from it on are null.  An
entry is added behind the last one, and one is removed by moving those behind it down by a cell.  An access
outside the array is a fault; it is `none` of the operation.

* `shiftDown_eq` — what the moving loop leaves behind;
* `push_holds` — adding an entry;
* `remove_holds` — removing the first entry that is equal to a given one.

Nothing here names a particular program.
-/

namespace RtkdataFw.Lib

variable {α : Type*}

structure Packed (α : Type*) where
  cells : List (Option α)
  count : ℕ
  deriving DecidableEq

namespace Packed

/-- An array of null cells. -/
def empty (cap : ℕ) : Packed α := ⟨List.replicate cap none, 0⟩

/-- `cells[k] = v`. -/
def store (cells : List (Option α)) (k : ℕ) (v : Option α) : Option (List (Option α)) :=
  if k < cells.length then some (cells.set k v) else none

/-- `if (count < cap) { cells[count++] = a; added = true; }`. -/
def push (cap : ℕ) (p : Packed α) (a : α) : Option (Packed α × Bool) :=
  if p.count < cap then (store p.cells p.count (some a)).map fun cells => (⟨cells, p.count + 1⟩, true)
  else some (p, false)

/-- `for (; left > 0; ++j) cells[j - 1] = cells[j];`, with the number of rounds that are left. -/
def shiftDown (cells : List (Option α)) (j : ℕ) : ℕ → Option (List (Option α))
  | 0 => some cells
  | left + 1 => cells[j]?.bind fun v => (store cells (j - 1) v).bind fun cells => shiftDown cells (j + 1) left

/-- The search for an entry, and its removal. -/
def removeFrom [DecidableEq α] (p : Packed α) (a : α) (k : ℕ) : ℕ → Option (Packed α)
  | 0 => some p
  | left + 1 => p.cells[k]?.bind fun v =>
      if v = some a then
        (shiftDown p.cells (k + 1) (p.count - (k + 1))).bind fun cells =>
          (store cells (p.count - 1) none).map fun cells => ⟨cells, p.count - 1⟩
      else removeFrom p a (k + 1) left

def remove [DecidableEq α] (p : Packed α) (a : α) : Option (Packed α) := removeFrom p a 0 p.count

/-- The array of `cap` cells holds these entries, in their order. -/
structure Holds (cap : ℕ) (p : Packed α) (xs : List α) : Prop where
  cells : p.cells = xs.map some ++ List.replicate (cap - xs.length) none
  count : p.count = xs.length
  fits : xs.length ≤ cap

variable {cap : ℕ} {p : Packed α} {xs : List α}

theorem empty_holds (cap : ℕ) : Holds cap (empty (α := α) cap) [] := ⟨rfl, rfl, Nat.zero_le _⟩

/-- The cell at an index is the entry at it. -/
theorem Holds.getElem? (h : Holds cap p xs) {k : ℕ} (hk : k < p.count) : p.cells[k]? = some xs[k]? := by
  rw [h.count] at hk
  rw [h.cells, List.getElem?_append_left (by rwa [List.length_map]), List.getElem?_map,
    List.getElem?_eq_getElem hk]
  rfl

theorem store_append (pre post : List (Option α)) (v w : Option α) :
    store (pre ++ w :: post) pre.length v = some (pre ++ v :: post) := by
  rw [store, if_pos (by simp), List.set_append_right _ _ (Nat.le_refl _), Nat.sub_self]
  rfl

/-! ### Adding -/

theorem push_holds (h : Holds cap p xs) (hroom : xs.length < cap) (a : α) :
    ∃ p', push cap p a = some (p', true) ∧ Holds cap p' (xs ++ [a]) := by
  have hcount : p.count = (xs.map some : List (Option α)).length := by rw [h.count, List.length_map]
  have hpad : List.replicate (cap - xs.length) (none : Option α) =
      none :: List.replicate (cap - (xs.length + 1)) none := by
    rw [← List.replicate_succ]
    congr 1
    omega
  have hstore : store p.cells p.count (some a) =
      some (xs.map some ++ some a :: List.replicate (cap - (xs.length + 1)) none) := by
    rw [h.cells, hcount, hpad, store_append]
  refine ⟨⟨xs.map some ++ some a :: List.replicate (cap - (xs.length + 1)) none, p.count + 1⟩, ?_, ⟨?_, ?_, ?_⟩⟩
  · rw [push, if_pos (by rw [h.count]; exact hroom), hstore]
    rfl
  · simp
  · simp [h.count]
  · rw [List.length_append, List.length_singleton]
    exact hroom

/-! ### Removing -/

/-- **The moving loop** copies each cell of `mid` one down, over `v`; the last one stays in its old cell, too. -/
theorem shiftDown_eq (pre mid post : List (Option α)) (v : Option α) :
    shiftDown (pre ++ v :: (mid ++ post)) (pre.length + 1) mid.length =
      some (pre ++ mid ++ (v :: mid).getLast (List.cons_ne_nil _ _) :: post) := by
  induction mid generalizing pre v with
  | nil => simp [shiftDown]
  | cons w mid ih =>
      have hread : (pre ++ v :: (w :: mid ++ post))[pre.length + 1]? = some w := by
        rw [List.getElem?_append_right (by omega), Nat.add_sub_cancel_left]
        rfl
      rw [List.length_cons, shiftDown, hread, Option.bind_some, Nat.add_sub_cancel, store_append, Option.bind_some]
      have hsplit : pre ++ w :: (w :: mid ++ post) = (pre ++ [w]) ++ w :: (mid ++ post) := by simp
      have hlen : pre.length + 1 + 1 = (pre ++ [w]).length + 1 := by rw [List.length_append, List.length_singleton]
      rw [hsplit, hlen, ih]
      simp

variable [DecidableEq α]

/-- One step of the search at a cell that is not equal. -/
theorem removeFrom_skip {a b : α} {k left : ℕ} (hcell : p.cells[k]? = some (some b)) (hne : b ≠ a) :
    removeFrom p a k (left + 1) = removeFrom p a (k + 1) left := by
  rw [removeFrom, hcell, Option.bind_some, if_neg fun h => hne (Option.some.inj h)]

/-- The removal, at the cell that the search has found. -/
theorem removeFrom_found {pre post : List α} {a : α} (h : Holds cap p (pre ++ a :: post)) (left : ℕ) :
    ∃ p', removeFrom p a pre.length (left + 1) = some p' ∧ Holds cap p' (pre ++ post) := by
  have hlen : p.count = pre.length + post.length + 1 := by
    rw [h.count, List.length_append, List.length_cons, Nat.add_assoc]
  have hfits := h.fits
  rw [List.length_append, List.length_cons] at hfits
  have hcell : p.cells[pre.length]? = some (some a) := by
    rw [h.getElem? (by omega), List.getElem?_append_right (Nat.le_refl _), Nat.sub_self]
    rfl
  let pad : List (Option α) := List.replicate (cap - (pre ++ a :: post).length) none
  have hcells : p.cells = pre.map some ++ some a :: (post.map some ++ pad) := by
    rw [h.cells, List.map_append, List.map_cons, List.append_assoc]
    rfl
  have hshift : shiftDown p.cells (pre.length + 1) (p.count - (pre.length + 1)) =
      some (pre.map some ++ post.map some ++ (some a :: post.map some).getLast (List.cons_ne_nil _ _) :: pad) := by
    have hmoved := shiftDown_eq (pre.map some) (post.map some) pad (some a)
    have hleft : p.count - (pre.length + 1) = (post.map some).length := by
      rw [List.length_map]
      omega
    rw [List.length_map] at hmoved
    rw [hcells, hleft, hmoved]
  have hlast : p.count - 1 = (pre.map some ++ post.map some : List (Option α)).length := by
    rw [List.length_append, List.length_map, List.length_map]
    omega
  refine ⟨⟨pre.map some ++ post.map some ++ none :: pad, p.count - 1⟩, ?_, ⟨?_, ?_, ?_⟩⟩
  · rw [removeFrom, hcell, Option.bind_some, if_pos rfl, hshift, Option.bind_some, hlast, store_append]
    rfl
  · have hpad : none :: pad = List.replicate (cap - (pre ++ post).length) none := by
      show none :: List.replicate (cap - (pre ++ a :: post).length) none = _
      rw [← List.replicate_succ, List.length_append, List.length_append, List.length_cons]
      congr 1
      omega
    rw [hpad, List.map_append]
  · show p.count - 1 = _
    rw [List.length_append]
    omega
  · rw [List.length_append]
    omega

theorem removeFrom_holds {pre rest : List α} {a : α} (h : Holds cap p (pre ++ rest)) (hpre : a ∉ pre) :
    ∃ p', removeFrom p a pre.length rest.length = some p' ∧ Holds cap p' (pre ++ rest.erase a) := by
  induction rest generalizing pre with
  | nil => exact ⟨p, rfl, h⟩
  | cons b rest ih =>
      by_cases hba : b = a
      · subst hba
        rw [List.erase_cons_head]
        exact removeFrom_found h rest.length
      · have hcell : p.cells[pre.length]? = some (some b) := by
          rw [h.getElem? (by rw [h.count]; simp), List.getElem?_append_right (Nat.le_refl _), Nat.sub_self]
          rfl
        have hsplit : pre ++ b :: rest = (pre ++ [b]) ++ rest := by simp
        rw [hsplit] at h
        have hmiss : a ∉ pre ++ [b] := by
          rw [List.mem_append, List.mem_singleton]
          exact fun hmem => hmem.elim hpre fun hab => hba hab.symm
        obtain ⟨p', hremoved, hholds⟩ := ih h hmiss
        rw [List.length_append, List.length_singleton] at hremoved
        refine ⟨p', ?_, ?_⟩
        · rw [List.length_cons, removeFrom_skip hcell hba, hremoved]
        · rw [List.erase_cons_tail (by simpa using hba)]
          rwa [List.append_assoc, List.singleton_append] at hholds

/-- **Removing** takes the first equal entry out, and nothing else. -/
theorem remove_holds (h : Holds cap p xs) (a : α) :
    ∃ p', remove p a = some p' ∧ Holds cap p' (xs.erase a) := by
  have hall : ∃ p', removeFrom p a ([] : List α).length xs.length = some p' ∧ Holds cap p' ([] ++ xs.erase a) :=
    removeFrom_holds h List.not_mem_nil
  rwa [List.length_nil, ← h.count, List.nil_append] at hall

end Packed

end RtkdataFw.Lib
