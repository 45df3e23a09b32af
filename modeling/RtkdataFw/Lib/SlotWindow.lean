import Mathlib.Tactic.Common

/-!
# Slots written round robin

Entry `i` of a sequence goes to slot `i % N`, so a slot holds the latest entry that went there and the
last `N` entries are all still to be found.

* `Window.set` — writing the next entry keeps what a reader relies on;
* `Window.get` — the entries that are still resident.
-/

namespace RtkdataFw.Lib

variable {β : Type*} {N : ℕ}

/-- Reading a slot after writing one. -/
theorem get_set (slots : Vector β N) (i : ℕ) (hi : i < N) (x : β) (j : ℕ) (hj : j < N) :
    (slots.set i x hi).get ⟨j, hj⟩ = if i = j then x else slots.get ⟨j, hj⟩ :=
  Vector.getElem_set hi hj

theorem get_replicate (x : β) (i : Fin N) : (Vector.replicate N x).get i = x :=
  Vector.getElem_replicate i.isLt

/-- The slots hold the last `N` of the first `n` entries of `view`. -/
def Window (slots : Vector β N) (n : ℕ) (view : ℕ → β) : Prop :=
  ∀ i < n, n ≤ i + N → ∀ h : i % N < N, slots[i % N] = view i

namespace Window

theorem empty (slots : Vector β N) (view : ℕ → β) : Window slots 0 view :=
  fun i hi => absurd hi (Nat.not_lt_zero i)

theorem get {slots : Vector β N} {n : ℕ} {view : ℕ → β} (h : Window slots n view) {i : ℕ}
    (hi : i < n) (hres : n ≤ i + N) (hN : i % N < N) : slots[i % N] = view i :=
  h i hi hres hN

/-- Two entries less than `N` apart are in different slots. -/
theorem mod_ne {i n : ℕ} (hlt : i < n) (hnear : n < i + N) : i % N ≠ n % N := by
  intro heq
  have hdvd : N ∣ n - i := Nat.dvd_of_mod_eq_zero (Nat.sub_mod_eq_zero_of_mod_eq heq.symm)
  have hle := Nat.le_of_dvd (by omega) hdvd
  omega

/-- **Writing the next entry.**  It goes where the entry `N` before it was. -/
theorem set {slots : Vector β N} {n : ℕ} {view view' : ℕ → β} (h : Window slots n view)
    (hsame : ∀ i < n, view' i = view i) (hN : n % N < N) :
    Window (slots.set (n % N) (view' n)) (n + 1) view' := by
  intro i hi hres hiN
  rcases Nat.lt_succ_iff_lt_or_eq.mp hi with hlt | rfl
  · rw [Vector.getElem_set_ne _ _ (mod_ne hlt (by omega)).symm, h i hlt (by omega) hiN, hsame i hlt]
  · rw [Vector.getElem_set_self]

end Window

end RtkdataFw.Lib
