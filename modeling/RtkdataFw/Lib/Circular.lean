import RtkdataFw.Lib.Buffer

/-!
# A queue in a circular array

The queue runs from `head` up to, not including, `tail`, going round at the end of the array; one element
stays free, so that `head = tail` means empty.

* `next`, `gap` — the following index, and how many steps lead from one index to another;
* `Holds b head tail xs` — the queue is `xs`;
* `Holds.push`, `Holds.pop`, `Holds.full_iff` — writing at the tail appends, moving the head on drops the
  front, and the array is full with one element fewer than it has.
-/

namespace RtkdataFw.Lib.Circular

variable {α : Type*} {n : ℕ}

/-- The index after `i` in an array of `n`. -/
def next (n i : ℕ) : ℕ := if i + 1 ≥ n then 0 else i + 1

/-- The number of steps from `head` to `tail`. -/
def gap (n head tail : ℕ) : ℕ := if head ≤ tail then tail - head else tail + n - head

theorem next_cases {i : ℕ} (h : i < n) :
    (next n i = 0 ∧ i + 1 = n) ∨ (next n i = i + 1 ∧ i + 1 < n) := by
  rw [next]
  split <;> omega

theorem next_lt {i : ℕ} (h : i < n) : next n i < n := by
  rcases next_cases h with ⟨hnext, _⟩ | ⟨hnext, _⟩ <;> omega

theorem gap_lt {head tail : ℕ} (hh : head < n) (ht : tail < n) : gap n head tail < n := by
  rw [gap]
  split <;> omega

theorem gap_eq_zero_iff {head tail : ℕ} (hh : head < n) : gap n head tail = 0 ↔ head = tail := by
  rw [gap]
  split <;> omega

/-- Moving the head on takes one step off. -/
theorem gap_next_head {head tail : ℕ} (hh : head < n) (ht : tail < n) (hne : head ≠ tail) :
    gap n (next n head) tail + 1 = gap n head tail := by
  rw [gap, gap]
  rcases next_cases hh with ⟨hnext, hend⟩ | ⟨hnext, hlt⟩
  · rw [hnext]
    split <;> split <;> omega
  · rw [hnext]
    split <;> split <;> omega

/-- One free element is left when the tail is right behind the head. -/
theorem next_eq_iff {head tail : ℕ} (hh : head < n) (ht : tail < n) :
    next n tail = head ↔ gap n head tail + 1 = n := by
  rw [gap]
  rcases next_cases ht with ⟨hnext, hend⟩ | ⟨hnext, hlt⟩
  · rw [hnext]
    split <;> omega
  · rw [hnext]
    split <;> omega

/-- The elements from `head` to `tail` are `xs`. -/
def Spells (b : Buffer α n) : ℕ → ℕ → List α → Prop
  | head, tail, [] => head = tail
  | head, tail, x :: xs => head ≠ tail ∧ b.get? head = some x ∧ Spells b (next n head) tail xs

structure Holds (b : Buffer α n) (head tail : ℕ) (xs : List α) : Prop where
  head_lt : head < n
  tail_lt : tail < n
  spells : Spells b head tail xs

theorem Spells.length_eq {b : Buffer α n} {head tail : ℕ} {xs : List α} (h : Spells b head tail xs)
    (hh : head < n) (ht : tail < n) : xs.length = gap n head tail := by
  induction xs generalizing head with
  | nil => exact ((gap_eq_zero_iff hh).mpr h).symm
  | cons x xs ih =>
      obtain ⟨hne, _, hrest⟩ := h
      rw [List.length_cons, ih hrest (next_lt hh)]
      exact gap_next_head hh ht hne

theorem Holds.length_eq {b : Buffer α n} {head tail : ℕ} {xs : List α} (h : Holds b head tail xs) :
    xs.length = gap n head tail := h.spells.length_eq h.head_lt h.tail_lt

theorem Holds.length_lt {b : Buffer α n} {head tail : ℕ} {xs : List α} (h : Holds b head tail xs) :
    xs.length < n := by
  rw [h.length_eq]
  exact gap_lt h.head_lt h.tail_lt

theorem holds_nil (b : Buffer α n) {i : ℕ} (h : i < n) : Holds b i i [] := ⟨h, h, rfl⟩

theorem Holds.nil_iff {b : Buffer α n} {head tail : ℕ} {xs : List α} (h : Holds b head tail xs) :
    head = tail ↔ xs = [] := by
  rw [← gap_eq_zero_iff h.head_lt, ← h.length_eq, List.length_eq_zero_iff]

/-- **Full** is one element short of the array. -/
theorem Holds.full_iff {b : Buffer α n} {head tail : ℕ} {xs : List α} (h : Holds b head tail xs) :
    next n tail = head ↔ xs.length + 1 = n := by
  rw [next_eq_iff h.head_lt h.tail_lt, h.length_eq]

/-- Writing at the tail is seen by nobody in between. -/
theorem Spells.write {b b' : Buffer α n} {head tail : ℕ} {xs : List α} (h : Spells b head tail xs)
    (hh : head < n) (ht : tail < n) {x : α} (hget : ∀ i, b'.get? i = if i = tail then some x else b.get? i)
    (hfree : next n tail ≠ head) (hlen : xs.length + 1 < n) :
    Spells b' head (next n tail) (xs ++ [x]) := by
  induction xs generalizing head with
  | nil =>
      have heq : head = tail := h
      refine ⟨hfree.symm, ?_, ?_⟩
      · rw [hget, if_pos heq]
      · rw [heq]
        rfl
  | cons y xs ih =>
      have hgap := h.length_eq hh ht
      obtain ⟨hne, hy, hrest⟩ := h
      have hgap' := hrest.length_eq (next_lt hh) ht
      rw [List.length_cons] at hlen
      refine ⟨hfree.symm, ?_, ih hrest (next_lt hh) ?_ (by omega)⟩
      · rw [hget, if_neg hne, hy]
      · rw [ne_eq, next_eq_iff (next_lt hh) ht]
        omega

/-- **Push.** -/
theorem Holds.push {b : Buffer α n} {head tail : ℕ} {xs : List α} (h : Holds b head tail xs)
    (hroom : next n tail ≠ head) (x : α) :
    ∃ b', b.write? tail [x] = some b' ∧ Holds b' head (next n tail) (xs ++ [x]) := by
  obtain ⟨b', hwrite, hget⟩ := b.get?_write_one h.tail_lt x
  have hlen := h.length_lt
  rw [ne_eq, h.full_iff] at hroom
  refine ⟨b', hwrite, h.head_lt, next_lt h.tail_lt, ?_⟩
  exact h.spells.write h.head_lt h.tail_lt hget (fun heq => hroom (h.full_iff.mp heq)) (by omega)

/-- **Pop.** -/
theorem Holds.pop {b : Buffer α n} {head tail : ℕ} {x : α} {xs : List α} (h : Holds b head tail (x :: xs)) :
    head ≠ tail ∧ b.get? head = some x ∧ Holds b (next n head) tail xs :=
  ⟨h.spells.1, h.spells.2.1, next_lt h.head_lt, h.tail_lt, h.spells.2.2⟩

end RtkdataFw.Lib.Circular
