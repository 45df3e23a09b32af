import Mathlib.Data.List.Infix
import Mathlib.Order.Bounds.Basic

/-!
# Occurrences of a pattern in a list

`OccursAt p l i` says that the pattern `p` stands in `l` at position `i`.

* `occursAt_append` — positions past a first part are positions of the rest;
* `findFrom_eq_some_iff`, `findFrom_eq_none_iff` — the search position by position finds the least one;
* `OccursAt.apart` — a pattern whose first element does not come again in it does not overlap itself;
* `prefix_of_ordered` — an ordered list that holds the first elements of another one begins it.
-/

namespace RtkdataFw.Lib

variable {α : Type*} {p q l : List α} {i j : ℕ}

def OccursAt (p l : List α) (i : ℕ) : Prop := p <+: l.drop i

instance [DecidableEq α] (p l : List α) (i : ℕ) : Decidable (OccursAt p l i) :=
  inferInstanceAs (Decidable (_ <+: _))

theorem occursAt_zero : OccursAt p l 0 ↔ p <+: l := Iff.rfl

theorem occursAt_drop (p l : List α) (i j : ℕ) : OccursAt p (l.drop i) j ↔ OccursAt p l (i + j) := by
  rw [OccursAt, OccursAt, List.drop_drop]

theorem occursAt_append (p a l : List α) (i : ℕ) :
    OccursAt p (a ++ l) (a.length + i) ↔ OccursAt p l i := by
  rw [← occursAt_drop, List.drop_left]

theorem OccursAt.le_length (h : OccursAt p l i) (hp : p ≠ []) : i + p.length ≤ l.length := by
  have hlen := List.IsPrefix.length_le h
  have hpos := List.length_pos_of_ne_nil hp
  rw [List.length_drop] at hlen
  omega

/-- The elements of the pattern, one by one. -/
theorem OccursAt.getElem? (h : OccursAt p l i) (hj : j < p.length) : l[i + j]? = p[j]? := by
  obtain ⟨t, ht⟩ := h
  rw [← List.getElem?_drop, ← ht, List.getElem?_append_left hj]

/-- What stands in a list still stands there when more follows. -/
theorem OccursAt.append (h : OccursAt p l i) (hi : i ≤ l.length) (m : List α) :
    OccursAt p (l ++ m) i := by
  rw [OccursAt, List.drop_append_of_le_length hi]
  exact h.trans (List.prefix_append _ _)

/-- What stands in a list, and ends before the rest, stands in the first part. -/
theorem OccursAt.of_append {m : List α} (h : OccursAt p (l ++ m) i) (hend : i + p.length ≤ l.length) :
    OccursAt p l i := by
  rw [OccursAt, List.drop_append_of_le_length (by omega)] at h
  apply List.prefix_of_prefix_length_le h (List.prefix_append _ m)
  rw [List.length_drop]
  omega

/-! ### Searching -/

/-- The first of the `left` positions from `i` on at which `p` stands. -/
def findFrom [DecidableEq α] (p l : List α) (i : ℕ) : ℕ → Option ℕ
  | 0 => none
  | left + 1 => if OccursAt p l i then some i else findFrom p l (i + 1) left

theorem findFrom_eq_none_iff [DecidableEq α] {left : ℕ} :
    findFrom p l i left = none ↔ ∀ k, i ≤ k → k < i + left → ¬ OccursAt p l k := by
  induction left generalizing i with
  | zero =>
      apply iff_of_true rfl
      intro k hle hlt
      omega
  | succ left ih =>
      rw [findFrom]
      by_cases h : OccursAt p l i
      · rw [if_pos h]
        exact iff_of_false (by simp) fun hnone => hnone i (Nat.le_refl i) (by omega) h
      · rw [if_neg h, ih]
        constructor
        · intro hnone k hle hlt
          rcases Nat.eq_or_lt_of_le hle with rfl | hlt'
          · exact h
          · exact hnone k hlt' (by omega)
        · intro hnone k hle hlt
          exact hnone k (by omega) (by omega)

theorem findFrom_eq_some_iff [DecidableEq α] {left : ℕ} :
    findFrom p l i left = some j ↔ IsLeast {k | i ≤ k ∧ OccursAt p l k} j ∧ j < i + left := by
  induction left generalizing i with
  | zero =>
      apply iff_of_false (by simp [findFrom])
      intro h
      obtain ⟨⟨⟨hle, _⟩, _⟩, hlt⟩ := h
      omega
  | succ left ih =>
      rw [findFrom]
      by_cases h : OccursAt p l i
      · rw [if_pos h, Option.some_inj]
        constructor
        · rintro rfl
          exact ⟨⟨⟨Nat.le_refl i, h⟩, fun k hk => hk.1⟩, by omega⟩
        · intro h
          obtain ⟨⟨⟨hle, _⟩, hmin⟩, _⟩ := h
          exact Nat.le_antisymm hle (hmin ⟨Nat.le_refl i, h⟩)
      · rw [if_neg h, ih]
        -- nothing stands at `i`, so the positions from `i` on are those from `i + 1` on
        have hset : {k | i + 1 ≤ k ∧ OccursAt p l k} = {k | i ≤ k ∧ OccursAt p l k} := by
          ext k
          constructor
          · exact fun hk => ⟨Nat.le_of_succ_le hk.1, hk.2⟩
          · intro h
            obtain ⟨hle, hk⟩ := h
            exact ⟨Nat.lt_of_le_of_ne hle fun heq => h (heq ▸ hk), hk⟩
        rw [hset, Nat.add_right_comm, Nat.add_assoc]

/-! ### Patterns that begin in one place only -/

/-- **No overlap.**  Two occurrences are at least a pattern apart. -/
theorem OccursAt.apart {a : α} (ha : a ∉ q) (hi : OccursAt (a :: q) l i) (hj : OccursAt (a :: q) l j)
    (hlt : i < j) : i + (a :: q).length ≤ j := by
  by_contra hover
  have hlen : j - i < (a :: q).length := by omega
  have hhead : l[i + (j - i)]? = some a := by
    rw [show i + (j - i) = j + 0 by omega]
    exact hj.getElem? (by simp)
  rw [hi.getElem? hlen, show j - i = (j - i - 1) + 1 by omega, List.getElem?_cons_succ] at hhead
  exact ha (List.mem_of_getElem? hhead)

/-! ### Ordered lists -/

/-- **First elements.**  Both lists are ordered, and the first one holds the elements of the second that
have `P`, which no later element has without the earlier ones. -/
theorem prefix_of_ordered {r : α → α → Prop} (hasymm : ∀ x y, r x y → ¬ r y x) {P : α → Prop} {xs ys : List α}
    (hxs : xs.Pairwise r) (hys : ys.Pairwise r) (hdown : ∀ x ∈ ys, ∀ y ∈ ys, r x y → P y → P x)
    (hmem : ∀ x, x ∈ xs ↔ x ∈ ys ∧ P x) : xs <+: ys := by
  induction ys generalizing xs with
  | nil =>
      have hempty : xs = [] := List.eq_nil_iff_forall_not_mem.mpr fun x hx =>
        absurd ((hmem x).mp hx).1 List.not_mem_nil
      rw [hempty]
  | cons y ys ih =>
      cases xs with
      | nil => exact List.nil_prefix
      | cons x xs =>
          obtain ⟨hyrest, hytail⟩ := List.pairwise_cons.mp hys
          obtain ⟨hxrest, hxtail⟩ := List.pairwise_cons.mp hxs
          have hx := (hmem x).mp List.mem_cons_self
          have hhead : x = y := by
            rcases List.mem_cons.mp hx.1 with heq | hlater
            · exact heq
            · -- `y` comes before `x`, so it would stand behind `x` in the first list
              have hyx := hyrest x hlater
              have hy := (hmem y).mpr ⟨List.mem_cons_self, hdown y List.mem_cons_self x hx.1 hyx hx.2⟩
              rcases List.mem_cons.mp hy with heq | hbehind
              · exact heq.symm
              · exact absurd (hxrest y hbehind) (hasymm y x hyx)
          subst hhead
          refine List.cons_prefix_cons.mpr ⟨rfl, ih hxtail hytail ?_ ?_⟩
          · intro u hu v hv
            exact hdown u (List.mem_cons_of_mem x hu) v (List.mem_cons_of_mem x hv)
          intro z
          constructor
          · intro hz
            obtain ⟨hzmem, hPz⟩ := (hmem z).mp (List.mem_cons_of_mem x hz)
            rcases List.mem_cons.mp hzmem with rfl | hzmem
            · exact absurd (hxrest z hz) fun h => hasymm z z h h
            · exact ⟨hzmem, hPz⟩
          · intro hz
            rcases List.mem_cons.mp ((hmem z).mpr ⟨List.mem_cons_of_mem x hz.1, hz.2⟩) with rfl | hz'
            · exact absurd (hyrest z hz.1) fun h => hasymm z z h h
            · exact hz'

end RtkdataFw.Lib
