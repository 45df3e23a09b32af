import Mathlib.Algebra.Ring.Parity
import Mathlib.Data.BitVec

/-!
# Most-significant-bit-first shift registers

A `k`-bit cyclic redundancy register kept in a `W`-bit word: one shift moves the word up a place and,
when a one reaches bit `k`, adds the polynomial, whose own top term sits there.

* `shiftBit_xor`, `shifts_xor` — shifting is linear in exclusive or;
* `shiftBit_below` — a register below bit `k` stays below it;
* `shifts_eq_shiftLeft` — a register whose top bits are clear only moves up;
* `shifts_split` — the shifts of a register are those of its top part and the rest moved up: the fact
  that lets a table of the top parts replace the bit-by-bit loop;
* `feedBits_xor`, `feedBits_eq_shifts` — a message fed bit by bit: linear, and at most `k` bits are one word
  fed at once;
* `feedBits_burst` — with a constant term in the polynomial no set bits within `k` places leave the register
  empty;
* `feedBits_odd` — with an even number of terms no odd number of set bits does.
-/

namespace RtkdataFw.Lib.ShiftRegister

variable {W : ℕ}

/-- One place up; a one that reaches bit `k` is taken out by the polynomial. -/
def shiftBit (k : ℕ) (poly c : BitVec W) : BitVec W :=
  if (c <<< 1).getLsbD k then (c <<< 1) ^^^ poly else c <<< 1

/-- `m` places up. -/
def shifts (k : ℕ) (poly : BitVec W) : ℕ → BitVec W → BitVec W
  | 0, c => c
  | m + 1, c => shifts k poly m (shiftBit k poly c)

/-- No bit at or above place `k`. -/
def Below (k : ℕ) (c : BitVec W) : Prop := ∀ i, k ≤ i → c.getLsbD i = false

theorem Below.xor {k : ℕ} {a b : BitVec W} (ha : Below k a) (hb : Below k b) :
    Below k (a ^^^ b) := by
  intro i hi
  rw [BitVec.getLsbD_xor, ha i hi, hb i hi]
  rfl

theorem below_zero (k : ℕ) : Below k (0#W) := fun i _ => by simp

/-- A word below `2 ^ k` has no bit at or above `k`. -/
theorem below_of_toNat_lt {k : ℕ} {c : BitVec W} (h : c.toNat < 2 ^ k) : Below k c := by
  intro i hi
  rw [BitVec.getLsbD]
  exact Nat.testBit_lt_two_pow (h.trans_le (Nat.pow_le_pow_right (by decide) hi))

theorem toNat_lt_of_below {k : ℕ} {c : BitVec W} (h : Below k c) : c.toNat < 2 ^ k := by
  apply Nat.lt_pow_two_of_testBit
  intro i hi
  exact h i hi

/-! ### Linearity -/

theorem shiftBit_xor (k : ℕ) (poly a b : BitVec W) :
    shiftBit k poly (a ^^^ b) = shiftBit k poly a ^^^ shiftBit k poly b := by
  have hcancel : ∀ x y : BitVec W, x ^^^ y = (x ^^^ poly) ^^^ (y ^^^ poly) := by
    intro x y
    rw [BitVec.xor_assoc x poly, BitVec.xor_comm y poly, ← BitVec.xor_assoc poly poly,
      BitVec.xor_self, BitVec.zero_xor]
  unfold shiftBit
  rw [BitVec.shiftLeft_xor_distrib, BitVec.getLsbD_xor]
  cases (a <<< 1).getLsbD k <;> cases (b <<< 1).getLsbD k
  · simp
  · simp [BitVec.xor_assoc]
  · simp only [Bool.xor_false, ite_true, Bool.false_eq_true, ite_false]
    rw [BitVec.xor_assoc, BitVec.xor_comm (b <<< 1) poly, ← BitVec.xor_assoc]
  · simpa using hcancel (a <<< 1) (b <<< 1)

theorem shifts_xor (k : ℕ) (poly : BitVec W) (m : ℕ) (a b : BitVec W) :
    shifts k poly m (a ^^^ b) = shifts k poly m a ^^^ shifts k poly m b := by
  induction m generalizing a b with
  | zero => rfl
  | succ m ih => simp only [shifts, shiftBit_xor, ih]

/-! ### The register stays below its top place -/

/-- The polynomial of a `k`-bit register: its top term is bit `k`. -/
structure IsPoly (k : ℕ) (poly : BitVec W) : Prop where
  top : poly.getLsbD k = true
  below : Below (k + 1) poly

theorem getLsbD_shiftLeft_one (c : BitVec W) (i : ℕ) :
    (c <<< 1).getLsbD (i + 1) = (decide (i + 1 < W) && c.getLsbD i) := by
  simp [BitVec.getLsbD_shiftLeft]

theorem shiftBit_below {k : ℕ} {poly c : BitVec W} (hp : IsPoly k poly) (hc : Below k c) :
    Below k (shiftBit k poly c) := by
  have hup : Below (k + 1) (c <<< 1) := by
    intro i hi
    obtain ⟨j, rfl⟩ := Nat.exists_eq_add_of_le' (show 1 ≤ i by omega)
    rw [getLsbD_shiftLeft_one, hc j (by omega), Bool.and_false]
  intro i hi
  unfold shiftBit
  rcases Nat.eq_or_lt_of_le hi with rfl | hi
  · split
    · rename_i htop
      rw [BitVec.getLsbD_xor, htop, hp.top]
      rfl
    · rename_i htop
      simpa using htop
  · split
    · exact (hup.xor hp.below) i hi
    · exact hup i hi

theorem shifts_below {k : ℕ} {poly : BitVec W} (hp : IsPoly k poly) (m : ℕ) {c : BitVec W}
    (hc : Below k c) : Below k (shifts k poly m c) := by
  induction m generalizing c with
  | zero => exact hc
  | succ m ih => exact ih (shiftBit_below hp hc)

/-! ### Clear top bits only move up -/

theorem shifts_eq_shiftLeft {k : ℕ} (poly : BitVec W) {m : ℕ} {c : BitVec W} {j : ℕ}
    (hc : Below j c) (hj : j + m ≤ k) : shifts k poly m c = c <<< m := by
  induction m generalizing c j with
  | zero => simp [shifts]
  | succ m ih =>
      have hup : Below (j + 1) (c <<< 1) := by
        intro i hi
        obtain ⟨i', rfl⟩ := Nat.exists_eq_add_of_le' (show 1 ≤ i by omega)
        rw [getLsbD_shiftLeft_one, hc i' (by omega), Bool.and_false]
      have hbit : shiftBit k poly c = c <<< 1 := by
        rw [shiftBit, hup k (by omega)]
        rfl
      rw [shifts, hbit, ih hup (by omega), ← BitVec.shiftLeft_add, Nat.add_comm]

/-- **The table split.**  `m` shifts of a register are those of `hi` and the rest `lo` moved up,
whenever `lo` leaves the top `m` places clear. -/
theorem shifts_split {k : ℕ} (poly : BitVec W) {m j : ℕ} {hi lo : BitVec W} (hlo : Below j lo)
    (hj : j + m ≤ k) : shifts k poly m (hi ^^^ lo) = shifts k poly m hi ^^^ (lo <<< m) := by
  rw [shifts_xor, shifts_eq_shiftLeft poly hlo hj]

/-! ### Bits fed one at a time -/

/-- The bit `b` at place `i`. -/
def placeBit (i : ℕ) (b : Bool) : BitVec W := if b then BitVec.twoPow W i else 0#W

/-- One message bit: added at the top place of the register, then one shift. -/
def feedBit (k : ℕ) (poly c : BitVec W) (b : Bool) : BitVec W := shiftBit k poly (c ^^^ placeBit (k - 1) b)

/-- A message, most significant bit first. -/
def feedBits (k : ℕ) (poly c : BitVec W) (bs : List Bool) : BitVec W := bs.foldl (feedBit k poly) c

/-- Bits from place `k - 1` down. -/
def topWord : ℕ → List Bool → BitVec W
  | _, [] => 0#W
  | k, b :: bs => placeBit (k - 1) b ^^^ topWord (k - 1) bs

theorem getLsbD_placeBit (i : ℕ) (b : Bool) (j : ℕ) :
    (placeBit i b : BitVec W).getLsbD j = (b && decide (j < W) && decide (i = j)) := by
  cases b
  · simp [placeBit]
  · simp [placeBit, BitVec.getLsbD_twoPow]
    grind

theorem below_placeBit {i k : ℕ} (h : i < k) (b : Bool) : Below k (placeBit i b : BitVec W) := by
  intro j hj
  rw [getLsbD_placeBit, decide_eq_false (show ¬ i = j by omega), Bool.and_false]

theorem placeBit_xor (i : ℕ) (a b : Bool) :
    (placeBit i (a ^^ b) : BitVec W) = placeBit i a ^^^ placeBit i b := by
  cases a <;> cases b <;> simp [placeBit]

theorem placeBit_shiftLeft (i m : ℕ) (b : Bool) :
    (placeBit i b : BitVec W) <<< m = placeBit (i + m) b := by
  cases b
  · simp [placeBit]
  · simp [placeBit, BitVec.twoPow_eq, BitVec.shiftLeft_add]

theorem below_topWord (k : ℕ) {bs : List Bool} (h : bs.length ≤ k) : Below k (topWord k bs : BitVec W) := by
  induction bs generalizing k with
  | nil => exact below_zero k
  | cons b bs ih =>
      rw [List.length_cons] at h
      apply (below_placeBit (by omega) b).xor
      intro i hi
      exact ih (k - 1) (by omega) i (by omega)

theorem topWord_append (k : ℕ) (bs cs : List Bool) :
    (topWord k (bs ++ cs) : BitVec W) = topWord k bs ^^^ topWord (k - bs.length) cs := by
  induction bs generalizing k with
  | nil => simp [topWord]
  | cons b bs ih =>
      rw [List.cons_append, topWord, ih, topWord, BitVec.xor_assoc, List.length_cons,
        Nat.sub_sub, Nat.add_comm 1]

theorem topWord_add {k : ℕ} (m : ℕ) {bs : List Bool} (h : bs.length ≤ k) :
    (topWord (k + m) bs : BitVec W) = topWord k bs <<< m := by
  induction bs generalizing k with
  | nil => simp [topWord]
  | cons b bs ih =>
      rw [List.length_cons] at h
      rw [topWord, topWord, BitVec.shiftLeft_xor_distrib, ← ih (by omega), placeBit_shiftLeft,
        show k + m - 1 = k - 1 + m by omega]

theorem feedBits_append (k : ℕ) (poly c : BitVec W) (bs cs : List Bool) :
    feedBits k poly c (bs ++ cs) = feedBits k poly (feedBits k poly c bs) cs := List.foldl_append

theorem feedBits_concat (k : ℕ) (poly c : BitVec W) (bs : List Bool) (b : Bool) :
    feedBits k poly c (bs ++ [b]) = feedBit k poly (feedBits k poly c bs) b := feedBits_append k poly c bs [b]

theorem shifts_succ (k : ℕ) (poly : BitVec W) (m : ℕ) (c : BitVec W) :
    shifts k poly (m + 1) c = shiftBit k poly (shifts k poly m c) := by
  induction m generalizing c with
  | zero => rfl
  | succ m ih => exact ih (shiftBit k poly c)

/-- **At most `k` bits are one word.**  Feeding them is adding them at the top places, then as many shifts. -/
theorem feedBits_eq_shifts (k : ℕ) (poly c : BitVec W) {bs : List Bool} (h : bs.length ≤ k) :
    feedBits k poly c bs = shifts k poly bs.length (c ^^^ topWord k bs) := by
  induction bs using List.reverseRecOn with
  | nil => simp [feedBits, shifts, topWord]
  | append_singleton bs b ih =>
      rw [List.length_append, List.length_singleton] at h
      -- the last bit could have been added before the shifts of the others, as far below the top
      have hlast : placeBit (k - 1) b = shifts k poly bs.length (placeBit (k - bs.length - 1) b) := by
        rw [shifts_eq_shiftLeft poly (below_placeBit (Nat.lt_succ_self _) b) (by omega), placeBit_shiftLeft]
        congr 1
        omega
      have hword : (topWord (k - bs.length) [b] : BitVec W) = placeBit (k - bs.length - 1) b := by
        simp [topWord]
      rw [feedBits_concat, ih (by omega), feedBit, hlast, ← shifts_xor, ← shifts_succ, topWord_append, hword,
        BitVec.xor_assoc, List.length_append, List.length_singleton]

/-- Feeding is linear in exclusive or. -/
theorem feedBits_xor (k : ℕ) (poly : BitVec W) {bs cs : List Bool} (h : bs.length = cs.length) (c d : BitVec W) :
    feedBits k poly (c ^^^ d) (List.zipWith xor bs cs) = feedBits k poly c bs ^^^ feedBits k poly d cs := by
  induction bs generalizing cs c d with
  | nil =>
      rw [List.length_nil] at h
      rw [List.eq_nil_of_length_eq_zero h.symm]
      rfl
  | cons b bs ih =>
      cases cs with
      | nil => exact absurd h (Nat.succ_ne_zero _)
      | cons b' cs =>
          have hstep : feedBit k poly (c ^^^ d) (xor b b') = feedBit k poly c b ^^^ feedBit k poly d b' := by
            rw [feedBit, feedBit, feedBit, ← shiftBit_xor, placeBit_xor]
            congr 1
            ac_rfl
          show feedBits k poly (feedBit k poly (c ^^^ d) (xor b b')) (List.zipWith xor bs cs) = _
          rw [hstep]
          exact ih (Nat.succ.inj h) _ _

theorem shiftBit_zero (k : ℕ) (poly : BitVec W) : shiftBit k poly 0#W = 0#W := by simp [shiftBit]

theorem feedBits_zeros (k : ℕ) (poly c : BitVec W) (n : ℕ) :
    feedBits k poly c (List.replicate n false) = shifts k poly n c := by
  induction n generalizing c with
  | zero => rfl
  | succ n ih =>
      rw [List.replicate_succ]
      show feedBits k poly (feedBit k poly c false) (List.replicate n false) = _
      rw [ih]
      simp [feedBit, placeBit, shifts]

theorem shifts_zero (k : ℕ) (poly : BitVec W) (m : ℕ) : shifts k poly m 0#W = 0#W := by
  induction m with
  | zero => rfl
  | succ m ih => rw [shifts, shiftBit_zero, ih]

/-! ### Nothing is forgotten: a polynomial with a constant term -/

theorem IsPoly.lt_width {k : ℕ} {poly : BitVec W} (hp : IsPoly k poly) : k < W := by
  by_contra h
  have htop := hp.top
  rw [BitVec.getLsbD_of_ge _ _ (Nat.not_lt.mp h)] at htop
  exact Bool.false_ne_true htop

/-- A register that a shift empties was empty. -/
theorem eq_zero_of_shiftBit {k : ℕ} {poly c : BitVec W} (hp : IsPoly k poly)
    (hone : poly.getLsbD 0 = true) (hc : Below k c) (h : shiftBit k poly c = 0#W) : c = 0#W := by
  have hk := hp.lt_width
  have hup : c <<< 1 = 0#W := by
    unfold shiftBit at h
    split at h
    · -- place 0 of the register moved up is clear, that of the polynomial is not
      have hzero := congrArg (fun x : BitVec W => x.getLsbD 0) h
      simp [BitVec.getLsbD_shiftLeft, hone] at hzero
    · exact h
  apply BitVec.eq_of_getLsbD_eq
  intro i hi
  rw [BitVec.getLsbD_zero]
  by_cases hik : i < k
  · have hbit := congrArg (fun x : BitVec W => x.getLsbD (i + 1)) hup
    rw [getLsbD_shiftLeft_one, decide_eq_true (show i + 1 < W by omega), Bool.true_and] at hbit
    exact hbit.trans BitVec.getLsbD_zero
  · exact hc i (Nat.not_lt.mp hik)

theorem eq_zero_of_shifts {k : ℕ} {poly : BitVec W} (hp : IsPoly k poly)
    (hone : poly.getLsbD 0 = true) (m : ℕ) {c : BitVec W} (hc : Below k c)
    (h : shifts k poly m c = 0#W) : c = 0#W := by
  induction m generalizing c with
  | zero => exact h
  | succ m ih => exact eq_zero_of_shiftBit hp hone hc (ih (shiftBit_below hp hc) h)

/-- A word of clear bits only. -/
theorem topWord_eq_zero {k : ℕ} (hk : k ≤ W) {bs : List Bool} (hlen : bs.length ≤ k)
    (h : (topWord k bs : BitVec W) = 0#W) : ∀ b ∈ bs, b = false := by
  induction bs generalizing k with
  | nil => exact List.forall_mem_nil _
  | cons b bs ih =>
      rw [List.length_cons] at hlen
      have hrest : Below (k - 1) (topWord (k - 1) bs : BitVec W) := below_topWord (k - 1) (by omega)
      have hb : b = false := by
        have htop := congrArg (fun x : BitVec W => x.getLsbD (k - 1)) h
        rw [topWord, BitVec.getLsbD_xor, hrest (k - 1) (Nat.le_refl _), getLsbD_placeBit, decide_eq_true rfl,
          decide_eq_true (show k - 1 < W by omega), Bool.and_true, Bool.and_true, Bool.xor_false] at htop
        exact htop.trans BitVec.getLsbD_zero
      have hword : (topWord (k - 1) bs : BitVec W) = 0#W := by
        rw [hb, topWord] at h
        simpa [placeBit] using h
      intro b' hmem
      rcases List.mem_cons.mp hmem with heq | hmem
      · exact heq.trans hb
      · exact ih (by omega) (by omega) hword b' hmem

/-- **Bursts are noticed.**  Set bits within `k` places leave a register that is not empty. -/
theorem feedBits_burst {k : ℕ} {poly : BitVec W} (hp : IsPoly k poly) (hone : poly.getLsbD 0 = true)
    {bs : List Bool} (hlen : bs.length ≤ k) (hset : true ∈ bs) (n m : ℕ) :
    feedBits k poly 0#W (List.replicate n false ++ bs ++ List.replicate m false) ≠ 0#W := by
  intro h
  rw [feedBits_append, feedBits_append, feedBits_zeros, feedBits_zeros, shifts_zero,
    feedBits_eq_shifts k poly _ hlen, BitVec.zero_xor] at h
  have hword : Below k (topWord k bs : BitVec W) := below_topWord k hlen
  have hshift := eq_zero_of_shifts hp hone m (shifts_below hp bs.length hword) h
  have hzero := eq_zero_of_shifts hp hone bs.length hword hshift
  exact absurd (topWord_eq_zero hp.lt_width.le hlen hzero true hset) (by decide)

/-! ### Parity: a polynomial of even weight -/

/-- The exclusive or of the bits below place `n`. -/
def parityBelow (f : ℕ → Bool) : ℕ → Bool
  | 0 => false
  | n + 1 => parityBelow f n ^^ f n

def parity (c : BitVec W) : Bool := parityBelow c.getLsbD W

theorem parityBelow_xor (f g : ℕ → Bool) (n : ℕ) :
    parityBelow (fun i => f i ^^ g i) n = (parityBelow f n ^^ parityBelow g n) := by
  induction n with
  | zero => rfl
  | succ n ih =>
      rw [parityBelow, ih, parityBelow, parityBelow, Bool.xor_assoc, Bool.xor_assoc,
        Bool.xor_left_comm (parityBelow g n)]

theorem parityBelow_succ (f : ℕ → Bool) (n : ℕ) :
    parityBelow f (n + 1) = (f 0 ^^ parityBelow (fun i => f (i + 1)) n) := by
  induction n with
  | zero => simp [parityBelow]
  | succ n ih => rw [parityBelow, ih, parityBelow, Bool.xor_assoc]

theorem parityBelow_congr {f g : ℕ → Bool} {n : ℕ} (h : ∀ i < n, f i = g i) :
    parityBelow f n = parityBelow g n := by
  induction n with
  | zero => rfl
  | succ n ih => rw [parityBelow, parityBelow, ih fun i hi => h i (by omega), h n (Nat.lt_succ_self n)]

theorem parity_xor (a b : BitVec W) : parity (a ^^^ b) = (parity a ^^ parity b) := by
  rw [parity, parity, parity, ← parityBelow_xor]
  congr 1
  funext i
  exact BitVec.getLsbD_xor

theorem parity_zero : parity (0#W) = false := by
  have hself := parity_xor (0#W) (0#W)
  rw [BitVec.xor_self, Bool.xor_self] at hself
  exact hself

/-- Moving up loses no bit while the last place is clear. -/
theorem parity_shiftLeft_one {c : BitVec W} {k : ℕ} (hc : Below k c) (hk : k < W) :
    parity (c <<< 1) = parity c := by
  obtain ⟨w, rfl⟩ : ∃ w, W = w + 1 := ⟨W - 1, by omega⟩
  have hmove : ∀ i < w, (c <<< 1).getLsbD (i + 1) = c.getLsbD i := by
    intro i hi
    rw [getLsbD_shiftLeft_one, decide_eq_true (by omega), Bool.true_and]
  have hlow : (c <<< 1).getLsbD 0 = false := by simp
  rw [parity, parityBelow_succ, hlow, Bool.false_xor, parityBelow_congr hmove, parity, parityBelow,
    hc w (by omega), Bool.xor_false]

theorem parity_shiftBit {k : ℕ} {poly c : BitVec W} (hp : IsPoly k poly) (heven : parity poly = false)
    (hc : Below k c) : parity (shiftBit k poly c) = parity c := by
  unfold shiftBit
  split
  · rw [parity_xor, heven, Bool.xor_false, parity_shiftLeft_one hc hp.lt_width]
  · exact parity_shiftLeft_one hc hp.lt_width

theorem parityBelow_place (i : ℕ) (b : Bool) (n : ℕ) :
    parityBelow (fun j => b && decide (i = j)) n = (b && decide (i < n)) := by
  induction n with
  | zero => simp [parityBelow]
  | succ n ih =>
      rw [parityBelow, ih]
      cases b
      · rfl
      · grind

theorem parity_placeBit {i : ℕ} (hi : i < W) (b : Bool) : parity (placeBit i b : BitVec W) = b := by
  have hbits : ∀ j < W, (placeBit i b : BitVec W).getLsbD j = (b && decide (i = j)) := by
    intro j hj
    rw [getLsbD_placeBit, decide_eq_true hj, Bool.and_true]
  rw [parity, parityBelow_congr hbits, parityBelow_place, decide_eq_true hi, Bool.and_true]

/-- **The register keeps the parity of the message.** -/
theorem parity_feedBits {k : ℕ} {poly : BitVec W} (hp : IsPoly k poly) (heven : parity poly = false)
    (hk : 0 < k) (bs : List Bool) {c : BitVec W} (hc : Below k c) :
    parity (feedBits k poly c bs) = (parity c ^^ decide (Odd (bs.count true))) := by
  have hw := hp.lt_width
  induction bs generalizing c with
  | nil => simp [feedBits]
  | cons b bs ih =>
      have hin : Below k (c ^^^ placeBit (k - 1) b) := hc.xor (below_placeBit (by omega) b)
      have hbit : parity (feedBit k poly c b) = (parity c ^^ b) := by
        rw [feedBit, parity_shiftBit hp heven hin, parity_xor, parity_placeBit (by omega)]
      show parity (feedBits k poly (feedBit k poly c b) bs) = _
      have hrest : Below k (feedBit k poly c b) := shiftBit_below hp hin
      rw [ih hrest, hbit, Bool.xor_assoc]
      congr 1
      cases b
      · simp
      · rw [List.count_cons_self, Bool.true_xor, ← decide_not, decide_eq_decide]
        exact Nat.odd_add_one.symm

theorem feedBits_odd {k : ℕ} {poly : BitVec W} (hp : IsPoly k poly) (heven : parity poly = false)
    (hk : 0 < k) {bs : List Bool} (hodd : Odd (bs.count true)) : feedBits k poly 0#W bs ≠ 0#W := by
  intro h
  have hparity := parity_feedBits hp heven hk bs (below_zero k)
  rw [h, parity_zero, decide_eq_true hodd] at hparity
  exact Bool.false_ne_true hparity

end RtkdataFw.Lib.ShiftRegister
