import RtkdataFw.Lib.CStr

/-!
# Base64

Three bytes are four symbols of six bits each; a last group of one or two bytes is filled up with padding.

* `decode_encode` — what is encoded decodes;
* `eq_of_decode` — two texts that agree up to case and decode to the same bytes are the same.
-/

namespace RtkdataFw.Lib

namespace Base64

/-- The symbol of six bits. -/
def symbol (i : ℕ) : UInt8 :=
  if i < 26 then UInt8.ofNat (i + 65)
  else if i < 52 then UInt8.ofNat (i + 71)
  else if i < 62 then UInt8.ofNat (i - 4)
  else if i = 62 then 43
  else 47

/-- The six bits of a symbol. -/
def index (c : UInt8) : Option ℕ :=
  if 65 ≤ c.toNat ∧ c.toNat ≤ 90 then some (c.toNat - 65)
  else if 97 ≤ c.toNat ∧ c.toNat ≤ 122 then some (c.toNat - 71)
  else if 48 ≤ c.toNat ∧ c.toNat ≤ 57 then some (c.toNat + 4)
  else if c = 43 then some 62
  else if c = 47 then some 63
  else none

def pad : UInt8 := 61

def encode : List UInt8 → List UInt8
  | [] => []
  | [a] => [symbol (a.toNat / 4), symbol (a.toNat % 4 * 16), pad, pad]
  | [a, b] =>
      [symbol (a.toNat / 4), symbol (a.toNat % 4 * 16 + b.toNat / 16), symbol (b.toNat % 16 * 4), pad]
  | a :: b :: c :: bs =>
      symbol (a.toNat / 4) :: symbol (a.toNat % 4 * 16 + b.toNat / 16) ::
        symbol (b.toNat % 16 * 4 + c.toNat / 64) :: symbol (c.toNat % 64) :: encode bs

/-! ### Decoding -/

/-- The bytes that begin in the first, the second and the third symbol of a group. -/
def firstByte (x y : ℕ) : UInt8 := UInt8.ofNat (x * 4 + y / 16)

def secondByte (y z : ℕ) : UInt8 := UInt8.ofNat (y % 16 * 16 + z / 4)

def thirdByte (z w : ℕ) : UInt8 := UInt8.ofNat (z % 4 * 64 + w)

/-- A group that ends in padding.  Bits that belong to no byte are not looked at. -/
def decodePadded (a b c : UInt8) : Option (List UInt8) := do
  let x ← index a
  let y ← index b
  if c = pad then return [firstByte x y]
  else
    let z ← index c
    return [firstByte x y, secondByte y z]

def decode : List UInt8 → Option (List UInt8)
  | [] => some []
  | a :: b :: c :: d :: s =>
      if d = pad then if s = [] then decodePadded a b c else none
      else do
        let x ← index a
        let y ← index b
        let z ← index c
        let w ← index d
        let bs ← decode s
        return firstByte x y :: secondByte y z :: thirdByte z w :: bs
  | _ => none

theorem index_symbol : ∀ i < 64, index (symbol i) = some i := by decide

theorem symbol_ne_pad : ∀ i < 64, symbol i ≠ pad := by decide

theorem index_lt {c : UInt8} {i : ℕ} (h : index c = some i) : i < 64 := by
  unfold index at h
  split at h
  · cases h
    omega
  split at h
  · cases h
    omega
  split at h
  · cases h
    omega
  split at h
  · cases h
    decide
  split at h
  · cases h
    decide
  · cases h

theorem symbol_ne_zero (i : ℕ) : symbol i ≠ 0 := by
  have hsmall : ∀ j < 64, symbol j ≠ 0 := by decide
  rcases Nat.lt_or_ge i 64 with hi | hi
  · exact hsmall i hi
  · rw [symbol, if_neg (by omega), if_neg (by omega), if_neg (by omega), if_neg (by omega)]
    decide

/-- An encoded text is a C string. -/
theorem zero_notMem_encode (bs : List UInt8) : 0 ∉ encode bs := by
  have hsymbol : ∀ i, ¬ 0 = symbol i := fun i => Ne.symm (symbol_ne_zero i)
  induction bs using encode.induct with
  | case1 => exact List.not_mem_nil
  | case2 a => simp [encode, hsymbol, pad]
  | case3 a b => simp [encode, hsymbol, pad]
  | case4 a b c bs ih => simp [encode, hsymbol, ih]

/-! ### Round trip -/

theorem firstByte_eq (a : UInt8) {y : ℕ} (hy : y < 16) :
    firstByte (a.toNat / 4) (a.toNat % 4 * 16 + y) = a := by
  unfold firstByte
  rw [(by omega : a.toNat / 4 * 4 + (a.toNat % 4 * 16 + y) / 16 = a.toNat), UInt8.ofNat_toNat]

theorem secondByte_eq (b : UInt8) {x z : ℕ} (hz : z < 4) :
    secondByte (x * 16 + b.toNat / 16) (b.toNat % 16 * 4 + z) = b := by
  have hb := b.toNat_lt
  unfold secondByte
  rw [(by omega : (x * 16 + b.toNat / 16) % 16 * 16 + (b.toNat % 16 * 4 + z) / 4 = b.toNat),
    UInt8.ofNat_toNat]

theorem thirdByte_eq (c : UInt8) {y : ℕ} :
    thirdByte (y * 4 + c.toNat / 64) (c.toNat % 64) = c := by
  have hc := c.toNat_lt
  unfold thirdByte
  rw [(by omega : (y * 4 + c.toNat / 64) % 4 * 64 + c.toNat % 64 = c.toNat), UInt8.ofNat_toNat]

/-- **What is encoded decodes.** -/
theorem decode_encode (bs : List UInt8) : decode (encode bs) = some bs := by
  induction bs using encode.induct with
  | case1 => rfl
  | case2 a =>
      have ha := a.toNat_lt
      rw [encode, decode, if_pos rfl, if_pos rfl, decodePadded, index_symbol _ (by omega),
        index_symbol _ (by omega)]
      show some [firstByte _ (a.toNat % 4 * 16 + 0)] = _
      rw [firstByte_eq a (by decide)]
  | case3 a b =>
      have ha := a.toNat_lt
      have hb := b.toNat_lt
      rw [encode, decode, if_pos rfl, if_pos rfl, decodePadded, index_symbol _ (by omega),
        index_symbol _ (by omega), index_symbol _ (by omega)]
      show (if symbol (b.toNat % 16 * 4) = pad then _ else
        some [firstByte _ _, secondByte _ (b.toNat % 16 * 4 + 0)]) = _
      rw [if_neg (symbol_ne_pad _ (by omega)), firstByte_eq a (by omega), secondByte_eq b (by decide)]
  | case4 a b c bs ih =>
      have ha := a.toNat_lt
      have hb := b.toNat_lt
      have hc := c.toNat_lt
      rw [encode, decode, if_neg (symbol_ne_pad _ (by omega)), index_symbol _ (by omega),
        index_symbol _ (by omega), index_symbol _ (by omega), index_symbol _ (by omega), ih]
      show some (firstByte _ _ :: secondByte _ _ :: thirdByte _ _ :: bs) = _
      rw [firstByte_eq a (by omega), secondByte_eq b (by omega), thirdByte_eq]

/-! ### Case -/

/-- The two cases of a letter are 26 symbols apart. -/
theorem eq_of_index {c d : UInt8} {i j : ℕ} (h : lower c = lower d) (hc : index c = some i)
    (hd : index d = some j) (hhigh : i / 16 = j / 16) : c = d := by
  rcases eq_or_case_of_lower h with heq | ⟨hlo, hhi, hcase⟩ | ⟨hlo, hhi, hcase⟩
  · exact heq
  · rw [index, if_pos ⟨hlo, hhi⟩, Option.some.injEq] at hc
    rw [index, if_neg (by omega), if_pos (by omega), Option.some.injEq] at hd
    omega
  · rw [index, if_neg (by omega), if_pos (by omega), Option.some.injEq] at hc
    rw [index, if_pos ⟨hlo, hhi⟩, Option.some.injEq] at hd
    omega

theorem eq_pad_of_lower {c d : UInt8} (h : lower c = lower d) (hc : c = pad) : d = pad := by
  have hpad : c.toNat = 61 := by
    rw [hc]
    rfl
  rcases eq_or_case_of_lower h with heq | ⟨hlo, -, -⟩ | ⟨hlo, -, hcase⟩
  · rw [← heq, hc]
  · omega
  · omega

theorem ofNat_inj {m n : ℕ} (h : UInt8.ofNat m = UInt8.ofNat n) (hm : m < 256) (hn : n < 256) : m = n := by
  have hnat := congrArg UInt8.toNat h
  rw [UInt8.toNat_ofNat', UInt8.toNat_ofNat'] at hnat
  omega

section Injective

variable {x y z w x' y' z' w' : ℕ}

theorem firstByte_inj (h : firstByte x y = firstByte x' y') (hx : x < 64) (hy : y < 64) (hx' : x' < 64)
    (hy' : y' < 64) : x = x' ∧ y / 16 = y' / 16 := by
  have hnat := ofNat_inj h (by omega) (by omega)
  omega

theorem secondByte_inj (h : secondByte y z = secondByte y' z') (hz : z < 64) (hz' : z' < 64) :
    y % 16 = y' % 16 ∧ z / 4 = z' / 4 := by
  have hnat := ofNat_inj h (by omega) (by omega)
  omega

theorem thirdByte_inj (h : thirdByte z w = thirdByte z' w') (hw : w < 64) (hw' : w' < 64) : w = w' := by
  have hnat := ofNat_inj h (by omega) (by omega)
  omega

end Injective

theorem decodePadded_some {a b c : UInt8} {bs : List UInt8} (h : decodePadded a b c = some bs) :
    ∃ x y, index a = some x ∧ index b = some y ∧
      ((c = pad ∧ bs = [firstByte x y]) ∨
        ∃ z, c ≠ pad ∧ index c = some z ∧ bs = [firstByte x y, secondByte y z]) := by
  unfold decodePadded at h
  obtain ⟨x, hx, h⟩ := Option.bind_eq_some_iff.mp h
  obtain ⟨y, hy, h⟩ := Option.bind_eq_some_iff.mp h
  refine ⟨x, y, hx, hy, ?_⟩
  split at h
  · rename_i hpad
    exact Or.inl ⟨hpad, (Option.some.inj h).symm⟩
  · rename_i hpad
    obtain ⟨z, hz, h⟩ := Option.bind_eq_some_iff.mp h
    exact Or.inr ⟨z, hpad, hz, (Option.some.inj h).symm⟩

/-- The last group of two texts that agree up to case and decode to the same. -/
theorem eq_of_decodePadded {a b c a' b' c' : UInt8} {bs : List UInt8} (ha : lower a = lower a')
    (hb : lower b = lower b') (hc : lower c = lower c') (h : decodePadded a b c = some bs)
    (h' : decodePadded a' b' c' = some bs) : a = a' ∧ b = b' ∧ c = c' := by
  obtain ⟨x, y, hx, hy, h⟩ := decodePadded_some h
  obtain ⟨x', y', hx', hy', h'⟩ := decodePadded_some h'
  have hfirst : firstByte x y = firstByte x' y' → a = a' ∧ b = b' := by
    intro hbyte
    obtain ⟨hxx, hyy⟩ := firstByte_inj hbyte (index_lt hx) (index_lt hy) (index_lt hx') (index_lt hy')
    exact ⟨eq_of_index ha hx hx' (by rw [hxx]), eq_of_index hb hy hy' hyy⟩
  rcases h with ⟨hpad, h⟩ | ⟨z, hpad, hz, h⟩
  · rcases h' with ⟨hpad', h'⟩ | ⟨z', hpad', hz', h'⟩
    · rw [h, List.cons.injEq] at h'
      obtain ⟨haa, hbb⟩ := hfirst h'.1
      exact ⟨haa, hbb, hpad.trans hpad'.symm⟩
    · exact absurd (eq_pad_of_lower hc hpad) hpad'
  · rcases h' with ⟨hpad', h'⟩ | ⟨z', hpad', hz', h'⟩
    · exact absurd (eq_pad_of_lower hc.symm hpad') hpad
    · rw [h, List.cons.injEq, List.cons.injEq] at h'
      obtain ⟨haa, hbb⟩ := hfirst h'.1
      obtain ⟨-, hzz⟩ := secondByte_inj h'.2.1 (index_lt hz) (index_lt hz')
      exact ⟨haa, hbb, eq_of_index hc hz hz' (by omega)⟩

theorem decode_some {a b c d : UInt8} {s bs : List UInt8} (h : decode (a :: b :: c :: d :: s) = some bs) :
    (d = pad ∧ s = [] ∧ decodePadded a b c = some bs) ∨
      ∃ x y z w rest, d ≠ pad ∧ index a = some x ∧ index b = some y ∧ index c = some z ∧
        index d = some w ∧ decode s = some rest ∧
          bs = firstByte x y :: secondByte y z :: thirdByte z w :: rest := by
  rw [decode] at h
  split at h
  · rename_i hpad
    split at h
    · rename_i hs
      exact Or.inl ⟨hpad, hs, h⟩
    · cases h
  · rename_i hpad
    obtain ⟨x, hx, h⟩ := Option.bind_eq_some_iff.mp h
    obtain ⟨y, hy, h⟩ := Option.bind_eq_some_iff.mp h
    obtain ⟨z, hz, h⟩ := Option.bind_eq_some_iff.mp h
    obtain ⟨w, hw, h⟩ := Option.bind_eq_some_iff.mp h
    obtain ⟨rest, hrest, h⟩ := Option.bind_eq_some_iff.mp h
    exact Or.inr ⟨x, y, z, w, rest, hpad, hx, hy, hz, hw, hrest, (Option.some.inj h).symm⟩

/-- A text that agrees with a group and what follows it up to case. -/
theorem group_of_lower {a b c d : UInt8} {s t : List UInt8}
    (h : (a :: b :: c :: d :: s).map lower = t.map lower) :
    ∃ a' b' c' d' s', t = a' :: b' :: c' :: d' :: s' ∧ lower a = lower a' ∧ lower b = lower b' ∧
      lower c = lower c' ∧ lower d = lower d' ∧ s.map lower = s'.map lower := by
  obtain ⟨a', t₁, rfl, ha, h₁⟩ := List.map_eq_cons_iff.mp h.symm
  obtain ⟨b', t₂, rfl, hb, h₂⟩ := List.map_eq_cons_iff.mp h₁
  obtain ⟨c', t₃, rfl, hc, h₃⟩ := List.map_eq_cons_iff.mp h₂
  obtain ⟨d', s', rfl, hd, h₄⟩ := List.map_eq_cons_iff.mp h₃
  exact ⟨a', b', c', d', s', rfl, ha.symm, hb.symm, hc.symm, hd.symm, h₄.symm⟩

/-- One group, when the rest is settled. -/
theorem eq_of_decode_group {a b c d a' b' c' d' : UInt8} {s s' bs : List UInt8} (ha : lower a = lower a')
    (hb : lower b = lower b') (hc : lower c = lower c') (hd : lower d = lower d')
    (hs : ∀ rest, decode s = some rest → decode s' = some rest → s = s')
    (h : decode (a :: b :: c :: d :: s) = some bs) (h' : decode (a' :: b' :: c' :: d' :: s') = some bs) :
    a :: b :: c :: d :: s = a' :: b' :: c' :: d' :: s' := by
  rcases decode_some h with ⟨hpad, rfl, hlast⟩ | ⟨x, y, z, w, rest, hpad, hx, hy, hz, hw, hrest, rfl⟩
  · rcases decode_some h' with ⟨hpad', rfl, hlast'⟩ | ⟨_, _, _, _, _, hpad', _⟩
    · obtain ⟨rfl, rfl, rfl⟩ := eq_of_decodePadded ha hb hc hlast hlast'
      rw [hpad, hpad']
    · exact absurd (eq_pad_of_lower hd hpad) hpad'
  · rcases decode_some h' with ⟨hpad', _⟩ | ⟨x', y', z', w', rest', -, hx', hy', hz', hw', hrest', hbytes⟩
    · exact absurd (eq_pad_of_lower hd.symm hpad') hpad
    · rw [List.cons.injEq, List.cons.injEq, List.cons.injEq] at hbytes
      obtain ⟨hfirst, hsecond, hthird, rfl⟩ := hbytes
      obtain ⟨hxx, hyy⟩ := firstByte_inj hfirst (index_lt hx) (index_lt hy) (index_lt hx') (index_lt hy')
      obtain ⟨hyy', hzz⟩ := secondByte_inj hsecond (index_lt hz) (index_lt hz')
      have hww := thirdByte_inj hthird (index_lt hw) (index_lt hw')
      rw [eq_of_index ha hx hx' (by omega), eq_of_index hb hy hy' hyy, eq_of_index hc hz hz' (by omega),
        eq_of_index hd hw hw' (by omega), hs rest hrest hrest']

/-- **Two texts that agree up to case and decode to the same bytes are the same.** -/
theorem eq_of_decode {t t' bs : List UInt8} (hcase : t.map lower = t'.map lower)
    (h : decode t = some bs) (h' : decode t' = some bs) : t = t' := by
  induction t using decode.induct generalizing t' bs with
  | case1 => exact (List.map_eq_nil_iff.mp hcase.symm).symm
  | case2 a b c =>
      obtain ⟨a', b', c', d', s', rfl, ha, hb, hc, hd, hs⟩ := group_of_lower hcase
      exact eq_of_decode_group ha hb hc hd (fun _ _ _ => (List.map_eq_nil_iff.mp hs.symm).symm) h h'
  | case3 a b c s hs =>
      rw [decode, if_pos rfl, if_neg hs] at h
      cases h
  | case4 a b c d s _ ih =>
      obtain ⟨a', b', c', d', s', rfl, ha, hb, hc, hd, hs⟩ := group_of_lower hcase
      exact eq_of_decode_group ha hb hc hd (fun _ hrest hrest' => ih hs hrest hrest') h h'
  | case5 t hnil hgroup =>
      rw [decode] at h
      · cases h
      · exact hnil
      · exact hgroup

end Base64

end RtkdataFw.Lib
