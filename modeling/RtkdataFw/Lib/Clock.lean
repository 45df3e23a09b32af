import Mathlib.Algebra.Ring.Nat
import Mathlib.Tactic.Common

/-!
# Ages read off a 32-bit clock

A device keeps the low 32 bits of a clock that never goes back and takes unsigned differences.  The
difference is the time that went by modulo `2 ^ 32`, when the first reading was taken first; taken the
other way round it wraps.

* `age32_of_le`, `age32_le` — readings in order: the age is the elapsed time modulo `2 ^ 32`, so it is
  never too large;
* `after32_of_le`, `after32_of_ge` — the sign of a difference: whether the time that went by lies in the
  first or in the second half of a period.
-/

namespace RtkdataFw.Lib

/-- The age at clock value `now` of something stamped at clock value `stamp`. -/
def age32 (now stamp : ℕ) : UInt32 := UInt32.ofNat now - UInt32.ofNat stamp

theorem toNat_ofNat_mod (n : ℕ) : (UInt32.ofNat n).toNat = n % 2 ^ 32 := by
  rw [UInt32.toNat_ofNat']

theorem age32_of_le {now stamp : ℕ} (h : stamp ≤ now) :
    (age32 now stamp).toNat = (now - stamp) % 2 ^ 32 := by
  rw [age32, UInt32.toNat_sub, toNat_ofNat_mod, toNat_ofNat_mod]
  omega

theorem age32_le {now stamp : ℕ} (h : stamp ≤ now) : (age32 now stamp).toNat ≤ now - stamp := by
  rw [age32_of_le h]
  exact Nat.mod_le _ _

/-- The difference of two readings is positive as a signed number. -/
def after32 (now stamp : ℕ) : Prop := 0 < (age32 now stamp).toInt32

instance (now stamp : ℕ) : Decidable (after32 now stamp) := inferInstanceAs (Decidable (_ < _))

/-- `d` milliseconds lead into the first half of a period of the clock. -/
def FirstHalf (d : ℕ) : Prop := 0 < d % 2 ^ 32 ∧ d % 2 ^ 32 < 2 ^ 31

instance (d : ℕ) : Decidable (FirstHalf d) := inferInstanceAs (Decidable (_ ∧ _))

theorem toInt32_pos (x : UInt32) : 0 < x.toInt32 ↔ 0 < x.toNat ∧ x.toNat < 2 ^ 31 := by
  have hlt := x.toNat_lt
  have hint : x.toInt32.toInt = if 2 * x.toNat < 2 ^ 32 then (x.toNat : ℤ) else x.toNat - (2 ^ 32 : ℕ) :=
    BitVec.toInt_eq_toNat_cond x.toBitVec
  rw [Int32.lt_iff_toInt_lt, Int32.toInt_zero, hint]
  split <;> omega

theorem after32_of_le {now stamp : ℕ} (h : stamp ≤ now) : after32 now stamp ↔ FirstHalf (now - stamp) := by
  rw [after32, toInt32_pos, age32_of_le h, FirstHalf]

/-- Readings taken the other way round. -/
theorem after32_of_ge {now stamp : ℕ} (h : now ≤ stamp) :
    after32 now stamp ↔ 2 ^ 31 < (stamp - now) % 2 ^ 32 := by
  have hage : (age32 now stamp).toNat = (2 ^ 32 - (stamp - now) % 2 ^ 32) % 2 ^ 32 := by
    rw [age32, UInt32.toNat_sub, toNat_ofNat_mod, toNat_ofNat_mod]
    omega
  rw [after32, toInt32_pos, hage]
  omega

end RtkdataFw.Lib
