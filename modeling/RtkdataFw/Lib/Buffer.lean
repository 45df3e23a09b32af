import Mathlib.Algebra.Ring.Nat
import Mathlib.Data.List.TakeDrop
import Mathlib.Tactic.Common

/-!
# Arrays of a fixed size, with checked accesses

`Buffer α n` is a C array of `n` elements.  A read or a write that leaves it is `none`; so are the machine
operations `sub?` and `fit?` when an unsigned difference would go below zero or a value would not fit its
width.  A program that is `some` on all its inputs has none of these faults.

* `view` — the elements in front, as a list;
* `view_write`, `view_copyDown` — what a `memcpy` to the end of a view and a `memmove` to the front of the array
  leave in it;
* `view_resize` — a `realloc` to a larger size.
-/

namespace RtkdataFw.Lib

variable {α : Type*} {n : ℕ}

/-- Unsigned subtraction, unless it would wrap. -/
def sub? (a b : ℕ) : Option ℕ := if b ≤ a then some (a - b) else none

/-- A value of a `w`-bit variable, unless it would be cut. -/
def fit? (w a : ℕ) : Option ℕ := if a < 2 ^ w then some a else none

theorem sub?_eq {a b : ℕ} (h : b ≤ a) : sub? a b = some (a - b) := if_pos h

theorem fit?_eq {w a : ℕ} (h : a < 2 ^ w) : fit? w a = some a := if_pos h

structure Buffer (α : Type*) (n : ℕ) where
  data : List α
  size : data.length = n

namespace Buffer

/-- An array of one value. -/
def fill (n : ℕ) (x : α) : Buffer α n := ⟨List.replicate n x, List.length_replicate⟩

/-- `b[i]`. -/
def get? (b : Buffer α n) (i : ℕ) : Option α := b.data[i]?

/-- The elements `b[off]` to `b[off + k - 1]`. -/
def read? (b : Buffer α n) (off k : ℕ) : Option (List α) :=
  if off + k ≤ n then some ((b.data.drop off).take k) else none

/-- `memcpy(b + off, xs, ..)`. -/
def write? (b : Buffer α n) (off : ℕ) (xs : List α) : Option (Buffer α n) :=
  if h : off + xs.length ≤ n then
    some {
      data := b.data.take off ++ xs ++ b.data.drop (off + xs.length)
      size := by
        have := b.size
        simp only [List.length_append, List.length_take, List.length_drop]
        omega }
  else none

/-- `memmove(b, b + off, k)`: everything is read before anything is written. -/
def copyDown? (b : Buffer α n) (off k : ℕ) : Option (Buffer α n) := (b.read? off k).bind (b.write? 0)

/-- Memory as it was found. -/
def found (n : ℕ) (junk : ℕ → α) : Buffer α n :=
  ⟨(List.range n).map junk, by rw [List.length_map, List.length_range]⟩

/-- `realloc`: the elements that were there, then memory as it was found. -/
def resize (b : Buffer α n) (m : ℕ) (junk : ℕ → α) : Buffer α m where
  data := (b.data ++ (List.range m).map junk).take m
  size := by
    rw [List.length_take, List.length_append, List.length_map, List.length_range]
    omega

/-- The first `k` elements. -/
def view (b : Buffer α n) (k : ℕ) : List α := b.data.take k

theorem length_view (b : Buffer α n) {k : ℕ} (h : k ≤ n) : (b.view k).length = k := by
  rw [view, List.length_take, b.size, Nat.min_eq_left h]

@[simp] theorem view_zero (b : Buffer α n) : b.view 0 = [] := rfl

theorem view_of_le (b : Buffer α n) {j k : ℕ} (h : j ≤ k) : (b.view k).take j = b.view j := by
  rw [view, view, List.take_take, Nat.min_eq_left h]

/-- An element of the view. -/
theorem get?_eq_view (b : Buffer α n) {i k : ℕ} (h : i < k) : b.get? i = (b.view k)[i]? := by
  rw [get?, view, List.getElem?_take_of_lt h]

theorem get?_getD (b : Buffer α n) {i k : ℕ} (h : i < k) (hk : k ≤ n) (d : α) :
    b.get? i = some ((b.view k).getD i d) := by
  have hlen := b.length_view hk
  rw [b.get?_eq_view h, List.getD_eq_getElem?_getD, List.getElem?_eq_getElem (by omega), Option.getD_some]

theorem read?_zero (b : Buffer α n) {k : ℕ} (h : k ≤ n) : b.read? 0 k = some (b.view k) :=
  if_pos (by omega)

/-- **Writing at the end of a view** appends to it. -/
theorem view_write (b : Buffer α n) (off : ℕ) (xs : List α) (h : off + xs.length ≤ n) :
    ∃ b', b.write? off xs = some b' ∧ b'.view (off + xs.length) = b.view off ++ xs := by
  refine ⟨_, dif_pos h, ?_⟩
  have hlen := b.length_view (show off ≤ n by omega)
  rw [view] at hlen
  have hfront : (b.data.take off ++ xs).length = off + xs.length := by rw [List.length_append, hlen]
  simp only [view]
  rw [← hfront]
  exact List.take_left

/-- Writing one element. -/
theorem get?_write_one (b : Buffer α n) {off : ℕ} (h : off < n) (x : α) :
    ∃ b', b.write? off [x] = some b' ∧ ∀ i, b'.get? i = if i = off then some x else b.get? i := by
  refine ⟨_, dif_pos h, ?_⟩
  have hlt : off < b.data.length := by rw [b.size]; exact h
  have hset : b.data.take off ++ [x] ++ b.data.drop (off + [x].length) = b.data.set off x := by
    rw [List.set_eq_take_append_cons_drop, if_pos hlt, List.append_assoc]
    rfl
  intro i
  rw [get?, get?]
  simp only [hset]
  by_cases hi : i = off
  · rw [if_pos hi, hi, List.getElem?_set_self hlt]
  · rw [if_neg hi, List.getElem?_set_ne (Ne.symm hi)]

/-- **Moving down** drops the front of a view. -/
theorem view_copyDown (b : Buffer α n) (off k : ℕ) (h : off + k ≤ n) :
    ∃ b', b.copyDown? off k = some b' ∧ b'.view k = (b.view (off + k)).drop off := by
  have hread : b.read? off k = some ((b.data.drop off).take k) := if_pos h
  have hlen : ((b.data.drop off).take k).length = k := by
    rw [List.length_take, List.length_drop, b.size]
    omega
  obtain ⟨b', hwrite, hview⟩ := b.view_write 0 ((b.data.drop off).take k) (by omega)
  refine ⟨b', ?_, ?_⟩
  · rw [copyDown?, hread]
    exact hwrite
  · rw [hlen, Nat.zero_add, view_zero, List.nil_append] at hview
    rw [hview, view, List.drop_take, Nat.add_sub_cancel_left]

/-- **Growing** keeps every view. -/
theorem view_resize (b : Buffer α n) {k m : ℕ} (hk : k ≤ n) (hm : n ≤ m) (junk : ℕ → α) :
    (b.resize m junk).view k = b.view k := by
  rw [view, view, resize, List.take_take, Nat.min_eq_left (Nat.le_trans hk hm)]
  exact List.take_append_of_le_length (by rw [b.size]; exact hk)

end Buffer

end RtkdataFw.Lib
