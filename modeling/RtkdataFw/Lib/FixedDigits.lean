import Mathlib.Data.Nat.Digits.Defs
import Mathlib.Tactic.Common
import Mathlib.Tactic.Ring

/-!
# Numbers of a fixed number of digits

`fixedDigits b w n` has the lowest `w` digits of `n` to the base `b`, the lowest first, as the bytes of a word in
memory and, from the other end, a padded number in text have them.

* `ofDigits_fixedDigits` — a number below `b ^ w` reads back;
* `ofDigits_chars` — also from the characters of its digits, when these have a value;
* `fixedChars_inj` — so it is told by them.
-/

namespace RtkdataFw.Lib

def fixedDigits (b : ℕ) : ℕ → ℕ → List ℕ
  | 0, _ => []
  | w + 1, n => n % b :: fixedDigits b w (n / b)

@[simp] theorem fixedDigits_length (b w n : ℕ) : (fixedDigits b w n).length = w := by
  induction w generalizing n with
  | zero => rfl
  | succ w ih => rw [fixedDigits, List.length_cons, ih]

theorem fixedDigits_lt {b : ℕ} (hb : 0 < b) (w n : ℕ) : ∀ d ∈ fixedDigits b w n, d < b := by
  induction w generalizing n with
  | zero => exact List.forall_mem_nil _
  | succ w ih =>
      rw [fixedDigits, List.forall_mem_cons]
      exact ⟨Nat.mod_lt n hb, ih (n / b)⟩

/-- **What fits reads back.** -/
theorem ofDigits_fixedDigits {b w n : ℕ} (hn : n < b ^ w) : Nat.ofDigits b (fixedDigits b w n) = n := by
  induction w generalizing n with
  | zero =>
      rw [Nat.pow_zero, Nat.lt_one_iff] at hn
      rw [hn]
      rfl
  | succ w ih =>
      have hdiv : n / b < b ^ w := Nat.div_lt_of_lt_mul (by rwa [pow_succ'] at hn)
      rw [fixedDigits, Nat.ofDigits_cons, ih hdiv]
      exact Nat.mod_add_div n b

variable {α : Type*} {char : ℕ → α} {value : α → ℕ} {b w : ℕ}

theorem ofDigits_chars (hb : 0 < b) (hvalue : ∀ d < b, value (char d) = d) {n : ℕ} (hn : n < b ^ w) :
    Nat.ofDigits b (((fixedDigits b w n).map char).map value) = n := by
  have hmap : ((fixedDigits b w n).map char).map value = fixedDigits b w n := by
    rw [List.map_map]
    conv_rhs => rw [← List.map_id (fixedDigits b w n)]
    exact List.map_congr_left fun d hd => hvalue d (fixedDigits_lt hb w n d hd)
  rw [hmap, ofDigits_fixedDigits hn]

theorem fixedChars_inj (hb : 0 < b) (hvalue : ∀ d < b, value (char d) = d) {m n : ℕ} (hm : m < b ^ w)
    (hn : n < b ^ w) : (fixedDigits b w m).map char = (fixedDigits b w n).map char ↔ m = n := by
  constructor
  · intro h
    rw [← ofDigits_chars hb hvalue hm, h, ofDigits_chars hb hvalue hn]
  · intro h
    rw [h]

end RtkdataFw.Lib
