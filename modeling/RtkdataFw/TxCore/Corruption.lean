import RtkdataFw.TxCore.RtcmFrame

/-!
# What the checksum of a frame detects

* `byteBits`, `bitsOf`, `bitErrors` — the bits of a message, most significant bit first, and where two
  messages differ;
* `rtcmCrc24q_toBitVec` — the table-driven checksum is the register fed with these bits;
* `crc_agrees_iff` — a message ends in its checksum when the checksum of all of it is zero;
* `crc24q_correct` — the calls of the code answer the bitwise checksum, with which every message is closed;
* `corruption_detected` — an odd number of bit errors, or any errors within 24 bits, are a checksum error,
  and the frame is never passed on.
-/

namespace RtkdataFw.TxCore

open RtkdataFw.Lib.Resync RtkdataFw.Lib.ShiftRegister

/-! ### Messages as bits -/

/-- The bits of a byte, most significant first. -/
def byteBits (d : UInt8) : List Bool := (List.range 8).map d.toBitVec.getMsbD

def bitsOf (data : List UInt8) : List Bool := data.flatMap byteBits

/-- Where two messages of one length differ. -/
def bitErrors (f f' : List UInt8) : List Bool := List.zipWith xor (bitsOf f) (bitsOf f')

theorem length_byteBits (d : UInt8) : (byteBits d).length = 8 := by simp [byteBits]

theorem length_bitsOf (data : List UInt8) : (bitsOf data).length = 8 * data.length := by
  induction data with
  | nil => rfl
  | cons d data ih =>
      rw [bitsOf, List.flatMap_cons, List.length_append, length_byteBits, List.length_cons]
      have htail : (data.flatMap byteBits).length = 8 * data.length := ih
      omega

theorem byteBits_injective : Function.Injective byteBits := by
  intro d d' h
  apply UInt8.toBitVec_inj.mp
  apply BitVec.eq_of_getMsbD_eq
  intro i hi
  exact (List.map_inj_left.mp h) i (List.mem_range.mpr hi)

theorem bitsOf_injective {f f' : List UInt8} (hlen : f.length = f'.length)
    (h : bitsOf f = bitsOf f') : f = f' := by
  induction f generalizing f' with
  | nil => exact (List.eq_nil_of_length_eq_zero hlen.symm).symm
  | cons d f ih =>
      cases f' with
      | nil => exact absurd hlen (Nat.succ_ne_zero _)
      | cons d' f' =>
          rw [bitsOf, bitsOf, List.flatMap_cons, List.flatMap_cons] at h
          obtain ⟨hd, hf⟩ := List.append_inj h ((length_byteBits d).trans (length_byteBits d').symm)
          rw [byteBits_injective hd, ih (Nat.succ.inj hlen) hf]

/-- Messages without a bit error are the same. -/
theorem eq_of_no_errors {bs cs : List Bool} (hlen : bs.length = cs.length)
    (h : true ∉ List.zipWith xor bs cs) : bs = cs := by
  induction bs generalizing cs with
  | nil => exact (List.eq_nil_of_length_eq_zero hlen.symm).symm
  | cons b bs ih =>
      cases cs with
      | nil => exact absurd hlen (Nat.succ_ne_zero _)
      | cons c cs =>
          rw [List.zipWith_cons_cons, List.mem_cons, not_or] at h
          have hbit : b = c := by
            have hne := h.1
            revert hne
            cases b <;> cases c <;> decide
          rw [hbit, ih (Nat.succ.inj hlen) h.2]

theorem error_of_ne {f f' : List UInt8} (hlen : f.length = f'.length) (hne : f ≠ f') :
    true ∈ bitErrors f f' := by
  by_contra hno
  apply hne
  apply bitsOf_injective hlen
  apply eq_of_no_errors _ hno
  rw [length_bitsOf, length_bitsOf, hlen]

/-! ### The checksum as the register fed with the bits -/

/-- A byte is its bits in the low eight places. -/
theorem topWord_byteBits (d : UInt8) : topWord 8 (byteBits d) = d.toUInt32.toBitVec := by
  have hall : ∀ n < 256, topWord 8 (byteBits (UInt8.ofNat n)) = (UInt8.ofNat n).toUInt32.toBitVec := by
    decide +kernel
  have hd := hall d.toNat d.toNat_lt
  rwa [UInt8.ofNat_toNat] at hd

theorem crc24qBitwiseByte_toBitVec (crc : UInt32) (d : UInt8) :
    (crc24qBitwiseByte crc d).toBitVec = feedBits 24 crc24qPoly.toBitVec crc.toBitVec (byteBits d) := by
  have hword : topWord 24 (byteBits d) = (d.toUInt32 <<< 16).toBitVec := by
    rw [topWord_add (k := 8) 16 (length_byteBits d).le, topWord_byteBits]
    simp
  rw [feedBits_eq_shifts _ _ _ (by rw [length_byteBits]; decide), hword, length_byteBits,
    crc24qBitwiseByte, crcShifts_toBitVec, UInt32.toBitVec_xor]

/-- **The checksum is the register fed with the bits.** -/
theorem rtcmCrc24q_toBitVec (data : List UInt8) :
    (rtcmCrc24q data).toBitVec = feedBits 24 crc24qPoly.toBitVec 0#32 (bitsOf data) := by
  have hfold : ∀ crc : UInt32, (data.foldl crc24qBitwiseByte crc).toBitVec =
      feedBits 24 crc24qPoly.toBitVec crc.toBitVec (bitsOf data) := by
    induction data with
    | nil => exact fun crc => rfl
    | cons d data ih =>
        intro crc
        rw [List.foldl_cons, ih, crc24qBitwiseByte_toBitVec, ← feedBits_append]
        rfl
  rw [rtcmCrc24q, (foldl_crc24qByte data fits_zero).1]
  exact hfold 0

/-- The three last bytes, as bits. -/
theorem wantCrc_toBitVec (body : List UInt8) (c2 c1 c0 : UInt8) :
    (wantCrc (body ++ [c2, c1, c0]) (body.length + 3)).toBitVec = topWord 24 (bitsOf [c2, c1, c0]) := by
  have hbits : bitsOf [c2, c1, c0] = byteBits c2 ++ (byteBits c1 ++ byteBits c0) := by simp [bitsOf]
  have hbelow : ∀ d : UInt8, Below 8 d.toUInt32.toBitVec := by
    intro d
    apply below_of_toNat_lt
    exact d.toNat_lt
  have h16 : (c2.toUInt32 <<< 16).toBitVec = c2.toUInt32.toBitVec <<< 16 := by simp
  have h8 : (c1.toUInt32 <<< 8).toBitVec = c1.toUInt32.toBitVec <<< 8 := by simp
  rw [wantCrc_concat, hbits, topWord_append, topWord_append,
    length_byteBits, length_byteBits, topWord_add (k := 8) 16 (length_byteBits c2).le,
    topWord_add (k := 8) 8 (length_byteBits c1).le, topWord_byteBits, topWord_byteBits, topWord_byteBits]
  simp only [UInt32.toBitVec_or, h16, h8]
  -- the three bytes share no place
  apply BitVec.eq_of_getLsbD_eq
  intro i hi
  simp only [BitVec.getLsbD_or, BitVec.getLsbD_xor, BitVec.getLsbD_shiftLeft]
  by_cases hi8 : i < 8
  · simp [hi8, show i < 16 by omega]
  · rw [hbelow c0 i (by omega)]
    by_cases hi16 : i < 16
    · simp [hi16]
    · rw [hbelow c1 (i - 8) (by omega)]
      simp

/-- A message of three bytes or more, its end apart. -/
theorem exists_checked (l : List UInt8) (h : 3 ≤ l.length) :
    ∃ body c2 c1 c0, l = body ++ [c2, c1, c0] ∧ l.length = body.length + 3 := by
  obtain ⟨c2, c1, c0, hend⟩ := List.length_eq_three.mp
    (show (l.drop (l.length - 3)).length = 3 by rw [List.length_drop]; omega)
  refine ⟨l.take (l.length - 3), c2, c1, c0, ?_, ?_⟩
  · rw [← hend, List.take_append_drop]
  · rw [List.length_take]
    omega

theorem length_bitsOf_checked (c2 c1 c0 : UInt8) : (bitsOf [c2, c1, c0]).length = 24 := length_bitsOf _

theorem bitsOf_append (l m : List UInt8) : bitsOf (l ++ m) = bitsOf l ++ bitsOf m := List.flatMap_append

/-- **The checksum agrees when the whole message leaves the register empty.** -/
theorem crc_agrees_iff {l : List UInt8} (h : 3 ≤ l.length) :
    rtcmCrc24q (l.take (l.length - 3)) = wantCrc l l.length ↔ rtcmCrc24q l = 0 := by
  obtain ⟨body, c2, c1, c0, rfl, hlen⟩ := exists_checked l h
  have hbody : (body ++ [c2, c1, c0]).take ((body ++ [c2, c1, c0]).length - 3) = body := by
    rw [hlen, Nat.add_sub_cancel]
    exact List.take_left
  have hend := length_bitsOf_checked c2 c1 c0
  have hfits : Fits (rtcmCrc24q body) := fits_iff.mpr (rtcmCrc24q_lt body)
  have hwant : Below 24 (topWord 24 (bitsOf [c2, c1, c0]) : BitVec 32) := below_topWord 24 hend.le
  have hwhole : (rtcmCrc24q (body ++ [c2, c1, c0])).toBitVec =
      shifts 24 crc24qPoly.toBitVec 24
        ((rtcmCrc24q body).toBitVec ^^^ topWord 24 (bitsOf [c2, c1, c0])) := by
    rw [rtcmCrc24q_toBitVec, bitsOf_append, feedBits_append, ← rtcmCrc24q_toBitVec,
      feedBits_eq_shifts _ _ _ hend.le, hend]
  rw [hbody, hlen, ← UInt32.toBitVec_inj, ← UInt32.toBitVec_inj, wantCrc_toBitVec, hwhole]
  constructor
  · intro heq
    rw [heq, BitVec.xor_self]
    exact shifts_zero 24 _ 24
  · intro hzero
    have hsum := eq_zero_of_shifts isPoly_crc24q (by decide) 24 (Below.xor hfits hwant) hzero
    exact BitVec.xor_eq_zero_iff.mp hsum

/-- The three bytes that a checksum is written as, most significant first. -/
def crcBytes (crc : UInt32) : List UInt8 := [(crc >>> 16).toUInt8, (crc >>> 8).toUInt8, crc.toUInt8]

theorem wantCrc_crcBytes (body : List UInt8) {crc : UInt32} (h : crc.toNat < 2 ^ 24) :
    wantCrc (body ++ crcBytes crc) (body.length + 3) = crc := by
  have h16 : (crc >>> 16).toNat = crc.toNat / 2 ^ 16 := by
    rw [UInt32.toNat_shiftRight, Nat.shiftRight_eq_div_pow]
    rfl
  have h8 : (crc >>> 8).toNat = crc.toNat / 2 ^ 8 := by
    rw [UInt32.toNat_shiftRight, Nat.shiftRight_eq_div_pow]
    rfl
  rw [crcBytes, ← UInt32.toNat_inj, wantCrc_toNat, UInt32.toNat_toUInt8, UInt32.toNat_toUInt8,
    UInt32.toNat_toUInt8, h16, h8]
  omega

/-- **A message that ends in its own checksum leaves the register empty.** -/
theorem rtcmCrc24q_append_crcBytes (data : List UInt8) :
    rtcmCrc24q (data ++ crcBytes (rtcmCrc24q data)) = 0 := by
  have hlen : (data ++ crcBytes (rtcmCrc24q data)).length = data.length + 3 := by
    rw [List.length_append]
    rfl
  apply (crc_agrees_iff (by omega)).mp
  rw [hlen, Nat.add_sub_cancel, List.take_left, wantCrc_crcBytes data (rtcmCrc24q_lt data)]

/-- **The checksum of the code is CRC-24Q.**  Of whatever calls are made from power-up on, each call of
`rtcm_crc24q` answers the bitwise checksum of its message; and a message followed by its own checksum
has checksum 0. -/
theorem crc24q_correct :
    (∀ calls : List CrcCall, crcCalls.outputs crcStatics calls = calls.flatMap CrcCall.answer) ∧
    (∀ data : List UInt8, rtcmCrc24q data = crc24qBitwise data) ∧
    ∀ data : List UInt8, rtcmCrc24q (data ++ crcBytes (rtcmCrc24q data)) = 0 :=
  ⟨outputs_crcCalls crcStatics_ok, rtcmCrc24q_eq_bitwise, rtcmCrc24q_append_crcBytes⟩

theorem IsRtcmFrame.crc_zero {f : List UInt8} (h : IsRtcmFrame f) : rtcmCrc24q f = 0 := by
  obtain ⟨b1, b2, t, _, _, _, _, hcrc⟩ := rtcmJudge_frame ((rtcmJudge_eq_frame_iff f).mpr h)
  exact (crc_agrees_iff ((by decide : 3 ≤ 6).trans h.length_bounds.1)).mp hcrc

/-! ### Errors -/

/-- The checksum of a corrupted frame is that of its errors. -/
theorem crc_of_errors {f f' : List UInt8} (hf : IsRtcmFrame f) (hlen : f'.length = f.length) :
    (rtcmCrc24q f').toBitVec = feedBits 24 crc24qPoly.toBitVec 0#32 (bitErrors f f') := by
  have hbits : (bitsOf f).length = (bitsOf f').length := by rw [length_bitsOf, length_bitsOf, hlen]
  have hsum := feedBits_xor 24 crc24qPoly.toBitVec hbits 0#32 0#32
  rw [BitVec.xor_self, ← rtcmCrc24q_toBitVec, ← rtcmCrc24q_toBitVec, hf.crc_zero] at hsum
  rw [bitErrors, hsum]
  exact BitVec.zero_xor.symm

/-- All errors within 24 consecutive bits. -/
def IsBurst (errors : List Bool) : Prop := ∃ i, ∀ j, errors[j]? = some true → i ≤ j ∧ j < i + 24

theorem IsBurst.split {errors : List Bool} (h : IsBurst errors) (hset : true ∈ errors) :
    ∃ n bs m, errors = List.replicate n false ++ bs ++ List.replicate m false ∧ bs.length ≤ 24 ∧ true ∈ bs := by
  obtain ⟨i, hi⟩ := h
  have hfalse : ∀ {l : List Bool}, true ∉ l → l = List.replicate l.length false := by
    intro l hno
    apply List.eq_replicate_of_mem
    intro b hb
    cases b
    · rfl
    · exact absurd hb hno
  have hbefore : true ∉ errors.take i := by
    intro hmem
    obtain ⟨j, hj⟩ := List.mem_iff_getElem?.mp hmem
    rw [List.getElem?_take] at hj
    split at hj
    · have := (hi j hj).1
      omega
    · cases hj
  have hbehind : true ∉ errors.drop (i + 24) := by
    intro hmem
    obtain ⟨j, hj⟩ := List.mem_iff_getElem?.mp hmem
    rw [List.getElem?_drop] at hj
    have := (hi _ hj).2
    omega
  have hsplit : errors = errors.take i ++ (errors.drop i).take 24 ++ errors.drop (i + 24) := by
    rw [List.append_assoc, ← List.drop_drop, List.take_append_drop, List.take_append_drop]
  refine ⟨(errors.take i).length, (errors.drop i).take 24, (errors.drop (i + 24)).length, ?_, ?_, ?_⟩
  · rw [← hfalse hbefore, ← hfalse hbehind]
    exact hsplit
  · exact List.length_take_le _ _
  · rw [hsplit, List.mem_append, List.mem_append] at hset
    rcases hset with (hset | hset) | hset
    · exact absurd hset hbefore
    · exact hset
    · exact absurd hset hbehind

/-- **The errors CRC-24Q detects.** -/
theorem crc_detects {f f' : List UInt8} (hf : IsRtcmFrame f) (hlen : f'.length = f.length)
    (herr : Odd ((bitErrors f f').count true) ∨ f ≠ f' ∧ IsBurst (bitErrors f f')) :
    rtcmCrc24q f' ≠ 0 := by
  intro hzero
  have hcrc := crc_of_errors hf hlen
  rw [hzero] at hcrc
  rcases herr with hodd | ⟨hne, hburst⟩
  · exact feedBits_odd isPoly_crc24q (by decide) (by decide) hodd hcrc.symm
  · obtain ⟨n, bs, m, hsplit, hshort, hset⟩ := hburst.split (error_of_ne hlen.symm hne)
    rw [hsplit] at hcrc
    exact feedBits_burst isPoly_crc24q (by decide) hshort hset n m hcrc.symm

/-! ### The parser on a corrupted frame -/

/-- Tokens never take back a checksum error. -/
theorem le_foldl_credit_crcErrors (ts : List Tok) (p : RtcmParser) :
    p.crcErrors ≤ (ts.foldl credit p).crcErrors := by
  induction ts generalizing p with
  | nil => exact Nat.le_refl _
  | cons t ts ih =>
      refine Nat.le_trans ?_ (ih (credit p t))
      cases t with
      | junk r b => exact Nat.le_add_right _ _
      | frame f => exact Nat.le_refl _

/-- A frame's header with another ending is one frame long, and its checksum decides. -/
theorem rtcmJudge_corrupted {f f' : List UInt8} (hf : IsRtcmFrame f) (hlen : f'.length = f.length)
    (hhead : f'.take 3 = f.take 3) (hcrc : rtcmCrc24q (f'.take (f'.length - 3)) ≠ wantCrc f' f'.length) :
    rtcmJudge f' = .skip .crc := by
  obtain ⟨b1, b2, t, rfl, hres, hneed, _, _⟩ := rtcmJudge_frame ((rtcmJudge_eq_frame_iff f).mpr hf)
  obtain ⟨t', rfl⟩ : ∃ t', f' = preamble :: b1 :: b2 :: t' := by
    refine ⟨f'.drop 3, ?_⟩
    conv_lhs => rw [← List.take_append_drop 3 f', hhead]
    rfl
  rw [← hlen] at hneed
  rw [hneed] at hcrc
  rw [rtcmJudge_header, if_neg (not_not.mpr hres), if_neg (by omega), if_neg hcrc]

/-- **Corruption is detected.**  A well-formed frame whose header came through but whose other bits have an odd
number of errors, or any within 24 consecutive bits, fails its checksum; a fresh parser counts the error and
does not pass the frame on. -/
theorem corruption_detected {f : List UInt8} (hf : IsRtcmFrame f) (f' : List UInt8)
    (hlen : f'.length = f.length) (hhead : f'.take 3 = f.take 3)
    (herr : Odd ((bitErrors f f').count true) ∨ f ≠ f' ∧ IsBurst (bitErrors f f')) :
    rtcmCrc24q (f'.take (f'.length - 3)) ≠ wantCrc f' f'.length ∧
      ∀ cs : List (List UInt8), cs.flatten = f' → ∃ p es, feedChunks rtcmParserInit cs = some (p, es) ∧
        1 ≤ p.crcErrors ∧ ∀ e ∈ es, e.2 ≠ f' := by
  have hbound := hf.length_bounds
  have hcrc : rtcmCrc24q (f'.take (f'.length - 3)) ≠ wantCrc f' f'.length := by
    intro hagree
    exact crc_detects hf hlen herr ((crc_agrees_iff (by omega)).mp hagree)
  have hjudge := rtcmJudge_corrupted hf hlen hhead hcrc
  refine ⟨hcrc, ?_⟩
  intro cs hcs
  refine ⟨_, _, feedChunks_init cs, ?_, ?_⟩
  · rw [hcs]
    cases f' with
    | nil => cases hjudge
    | cons b t =>
        have hscan := scan_of_skip rtcmFraming hjudge
        show 1 ≤ ((scan rtcmFraming (b :: t)).1.foldl credit (rtcmParserInit.over (b :: t))).crcErrors
        rw [hscan]
        exact le_foldl_credit_crcErrors (scan rtcmFraming t).1
          (credit (rtcmParserInit.over (b :: t)) (.junk .crc b))
  · intro e he heq
    have hframe : rtcmJudge e.2 = .frame e.2.length := judge_of_mem rtcmFraming (mem_of_mem_place he)
    rw [heq, hjudge] at hframe
    cases hframe

/-- The frame without payload, the last bit of its checksum spoilt. -/
theorem corruption_detected_emptyFrame :
    rtcmCrc24q [0xD3, 0x00, 0x00] ≠ wantCrc [0xD3, 0x00, 0x00, 0x47, 0xEA, 0x4A] 6 ∧
      ∀ cs : List (List UInt8), cs.flatten = [0xD3, 0x00, 0x00, 0x47, 0xEA, 0x4A] →
        ∃ p es, feedChunks rtcmParserInit cs = some (p, es) ∧ 1 ≤ p.crcErrors ∧
          ∀ e ∈ es, e.2 ≠ [0xD3, 0x00, 0x00, 0x47, 0xEA, 0x4A] :=
  corruption_detected (f := emptyFrame.bytes) ⟨emptyFrame, rfl⟩ [0xD3, 0x00, 0x00, 0x47, 0xEA, 0x4A] rfl rfl
    (Or.inl (by decide))

end RtkdataFw.TxCore
