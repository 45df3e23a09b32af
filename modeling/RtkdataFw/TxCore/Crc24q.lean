import RtkdataFw.Lib.Machine
import RtkdataFw.Lib.ShiftRegister
import Mathlib.Data.List.GetD

/-!
# CRC-24Q: the table-driven checksum is the bitwise one

`ntrip_tx_core.c` keeps the 24-bit register in a 32-bit word and reads one table entry a byte;
`crc24qBitwise` is the eight-shifts-a-byte definition (polynomial `0x1864CFB`, initial value 0, most
significant bit first, no final exclusive or).

* `rtcmCrc24q_eq_bitwise` — the two agree on every byte string;
* `crcCalls` — the table as the static variable it is, built by whichever call comes first, and
  `outputs_crcCalls`, that no call ever reads it unbuilt;
* `rtcmCrc24q_lt` — the checksum fits in three bytes.
-/

namespace RtkdataFw.TxCore

open RtkdataFw.Lib.ShiftRegister

def crc24qPoly : UInt32 := 0x1864CFB

/-- One round of the inner loop: `crc <<= 1; if (crc & 0x1000000u) crc ^= CRC24Q_POLY;`. -/
def crcShift (crc : UInt32) : UInt32 :=
  let crc : UInt32 := crc <<< 1
  if crc &&& 0x1000000 ≠ 0 then crc ^^^ crc24qPoly else crc

def crcShifts : ℕ → UInt32 → UInt32
  | 0, crc => crc
  | b + 1, crc => crcShifts b (crcShift crc)

/-- `s_crc24q_table` as `crc24q_build_table` fills it. -/
def crc24qBuildTable : List UInt32 :=
  (List.range 256).map fun i => crcShifts 8 (UInt32.ofNat i <<< 16) &&& 0xFFFFFF

/-- The loop body of `rtcm_crc24q`. -/
def crc24qByte (crc : UInt32) (d : UInt8) : UInt32 :=
  let i : UInt32 := ((crc >>> 16) ^^^ d.toUInt32) &&& 0xFF
  ((crc <<< 8) &&& 0xFFFFFF) ^^^ crc24qBuildTable.getD i.toNat 0

def rtcmCrc24q (data : List UInt8) : UInt32 := data.foldl crc24qByte 0

/-- Eight shifts for one byte. -/
def crc24qBitwiseByte (crc : UInt32) (d : UInt8) : UInt32 := crcShifts 8 (crc ^^^ (d.toUInt32 <<< 16))

/-- The bit-by-bit CRC-24Q. -/
def crc24qBitwise (data : List UInt8) : UInt32 := data.foldl crc24qBitwiseByte 0 &&& 0xFFFFFF

/-! ### The code's register as a shift register -/

theorem isPoly_crc24q : IsPoly 24 crc24qPoly.toBitVec where
  top := by decide
  below := below_of_toNat_lt (by decide)

theorem and_bit24_ne_zero (c : UInt32) :
    (c &&& 0x1000000 ≠ 0) ↔ c.toBitVec.getLsbD 24 = true := by
  have hmask : ∀ i < 32, (0x1000000#32).getLsbD i = decide (i = 24) := by decide
  rw [ne_eq, ← UInt32.toBitVec_inj, UInt32.toBitVec_and]
  show ¬(c.toBitVec &&& 0x1000000#32 = 0#32) ↔ _
  rw [← Bool.not_eq_false, not_iff_not]
  constructor
  · intro h
    have h24 := congrArg (fun x : BitVec 32 => x.getLsbD 24) h
    simpa [BitVec.getLsbD_and, hmask 24 (by decide)] using h24
  · intro h
    apply BitVec.eq_of_getLsbD_eq
    intro i hi
    rw [BitVec.getLsbD_and, hmask i hi, BitVec.getLsbD_zero]
    by_cases h24 : i = 24
    · rw [h24, h, Bool.false_and]
    · simp [h24]

theorem crcShift_toBitVec (c : UInt32) :
    (crcShift c).toBitVec = shiftBit 24 crc24qPoly.toBitVec c.toBitVec := by
  unfold crcShift shiftBit
  simp only [and_bit24_ne_zero]
  have hone : (c <<< 1).toBitVec = c.toBitVec <<< 1 := by simp
  rw [hone]
  split <;> simp

theorem crcShifts_toBitVec (m : ℕ) (c : UInt32) :
    (crcShifts m c).toBitVec = shifts 24 crc24qPoly.toBitVec m c.toBitVec := by
  induction m generalizing c with
  | zero => rfl
  | succ m ih => rw [crcShifts, ih, crcShift_toBitVec, shifts]

/-! ### One byte from the table -/

/-- A register in use: only the low 24 bits of the word. -/
def Fits (crc : UInt32) : Prop := Below 24 crc.toBitVec

theorem fits_zero : Fits 0 := below_zero 24

theorem Fits.shifts {c : UInt32} (h : Fits c) (m : ℕ) : Fits (crcShifts m c) := by
  rw [Fits, crcShifts_toBitVec]
  exact shifts_below isPoly_crc24q m h

theorem getLsbD_ffffff {i : ℕ} : (0xFFFFFF#32).getLsbD i = decide (i < 24) := by
  by_cases hi : i < 32
  · revert i
    decide
  · simp [BitVec.getLsbD_of_ge _ _ (Nat.le_of_not_lt hi), show ¬ i < 24 by omega]

/-- Masking a 24-bit register changes nothing. -/
theorem Fits.mask {c : UInt32} (h : Fits c) : c &&& 0xFFFFFF = c := by
  apply UInt32.toBitVec_inj.mp
  rw [UInt32.toBitVec_and]
  show c.toBitVec &&& 0xFFFFFF#32 = c.toBitVec
  apply BitVec.eq_of_getLsbD_eq
  intro i _
  rw [BitVec.getLsbD_and, getLsbD_ffffff]
  by_cases hi : i < 24
  · simp [hi]
  · rw [h i (by omega), Bool.false_and]

theorem fits_iff {c : UInt32} : Fits c ↔ c.toNat < 2 ^ 24 :=
  ⟨toNat_lt_of_below, below_of_toNat_lt⟩

/-- The top byte of the register with the data byte added: the table index. -/
def tableIndex (crc : UInt32) (d : UInt8) : UInt32 := (crc >>> 16) ^^^ d.toUInt32

theorem tableIndex_lt {crc : UInt32} (h : Fits crc) (d : UInt8) :
    (tableIndex crc d).toNat < 256 := by
  rw [fits_iff] at h
  have htop : (crc >>> 16).toNat < 2 ^ 8 := by
    rw [UInt32.toNat_shiftRight]
    show crc.toNat >>> 16 < 2 ^ 8
    rw [Nat.shiftRight_eq_div_pow]
    omega
  have hd : d.toUInt32.toNat < 2 ^ 8 := by
    rw [UInt8.toNat_toUInt32]
    exact d.toNat_lt
  rw [tableIndex, UInt32.toNat_xor]
  exact Nat.xor_lt_two_pow htop hd

theorem and_ff_of_lt {i : UInt32} (h : i.toNat < 256) : i &&& 0xFF = i := by
  apply UInt32.toNat_inj.mp
  rw [UInt32.toNat_and]
  exact Nat.and_two_pow_sub_one_of_lt_two_pow (n := 8) h

/-- The entry the code reads. -/
theorem crc24qBuildTable_getD {i : UInt32} (h : i.toNat < 256) :
    crc24qBuildTable.getD i.toNat 0 = crcShifts 8 (i <<< 16) &&& 0xFFFFFF := by
  rw [crc24qBuildTable, List.getD_eq_getElem _ _ (by simpa using h)]
  simp

/-- **One table byte is eight shifts.** -/
theorem crc24qByte_eq {crc : UInt32} (h : Fits crc) (d : UInt8) :
    crc24qByte crc d = crc24qBitwiseByte crc d := by
  have hlt := tableIndex_lt h d
  have hffff : ∀ i < 32, (0xFFFF#32).getLsbD i = decide (i < 16) := by decide
  have hlow : Below 16 (crc.toBitVec &&& 0xFFFF#32) := below_of_toNat_lt (by
    rw [BitVec.toNat_and]
    exact Nat.lt_of_le_of_lt Nat.and_le_right (by decide))
  -- the register plus the byte: the index in the top places, the low half below it
  have hsplit : (crc ^^^ (d.toUInt32 <<< 16)).toBitVec =
      (tableIndex crc d <<< 16).toBitVec ^^^ (crc.toBitVec &&& 0xFFFF#32) := by
    apply BitVec.eq_of_getLsbD_eq
    intro i hi
    simp only [tableIndex, UInt32.toBitVec_xor, UInt32.toBitVec_shiftLeft,
      UInt32.toBitVec_shiftRight, BitVec.getLsbD_xor, BitVec.getLsbD_and, hffff i hi]
    by_cases h16 : i < 16
    · simp [h16]
    · have hback : 16 + (i - 16) = i := by omega
      simp [h16, hi, hback]
  -- what is left of the low half after eight places up
  have hup : (crc.toBitVec &&& 0xFFFF#32) <<< 8 = ((crc <<< 8) &&& 0xFFFFFF).toBitVec := by
    apply BitVec.eq_of_getLsbD_eq
    intro i hi
    have hmask : (UInt32.toBitVec 0xFFFFFF).getLsbD i = decide (i < 24) := getLsbD_ffffff
    have hshift : (crc <<< 8).toBitVec = crc.toBitVec <<< 8 := by simp
    rw [UInt32.toBitVec_and, hshift, BitVec.getLsbD_and, BitVec.getLsbD_shiftLeft,
      BitVec.getLsbD_shiftLeft, BitVec.getLsbD_and, hmask, hffff (i - 8) (by omega)]
    by_cases h8 : i < 8
    · simp [h8]
    · rw [show decide (i - 8 < 16) = decide (i < 24) from by rw [decide_eq_decide]; omega,
        ← Bool.and_assoc]
  apply UInt32.toBitVec_inj.mp
  rw [crc24qBitwiseByte, crcShifts_toBitVec, hsplit, shifts_split _ hlow (by decide), hup]
  have hidx : crc24qByte crc d =
      ((crc <<< 8) &&& 0xFFFFFF) ^^^ crc24qBuildTable.getD (tableIndex crc d).toNat 0 := by
    rw [← and_ff_of_lt hlt]
    rfl
  have hentry : Fits (crcShifts 8 (tableIndex crc d <<< 16)) := by
    apply Fits.shifts
    rw [fits_iff, UInt32.toNat_shiftLeft, Nat.shiftLeft_eq]
    show (tableIndex crc d).toNat * 2 ^ 16 % 2 ^ 32 < 2 ^ 24
    omega
  rw [hidx, crc24qBuildTable_getD hlt, hentry.mask, UInt32.toBitVec_xor, crcShifts_toBitVec,
    BitVec.xor_comm]

theorem Fits.byte {crc : UInt32} (h : Fits crc) (d : UInt8) : Fits (crc24qByte crc d) := by
  rw [crc24qByte_eq h]
  have hd : Fits (d.toUInt32 <<< 16) := by
    have := d.toNat_lt
    rw [fits_iff, UInt32.toNat_shiftLeft, UInt8.toNat_toUInt32, Nat.shiftLeft_eq]
    show d.toNat * 2 ^ 16 % 2 ^ 32 < 2 ^ 24
    omega
  apply Fits.shifts
  rw [Fits, UInt32.toBitVec_xor]
  exact Below.xor h hd

theorem foldl_crc24qByte (data : List UInt8) {crc : UInt32} (h : Fits crc) :
    data.foldl crc24qByte crc = data.foldl crc24qBitwiseByte crc ∧
      Fits (data.foldl crc24qByte crc) := by
  induction data generalizing crc with
  | nil => exact ⟨rfl, h⟩
  | cons d data ih =>
      rw [List.foldl_cons, List.foldl_cons, ← crc24qByte_eq h]
      exact ih (h.byte d)

/-- **The table-driven checksum is the bitwise CRC-24Q.** -/
theorem rtcmCrc24q_eq_bitwise (data : List UInt8) : rtcmCrc24q data = crc24qBitwise data := by
  obtain ⟨heq, hfits⟩ := foldl_crc24qByte data fits_zero
  rw [crc24qBitwise, rtcmCrc24q, ← heq, hfits.mask]

theorem rtcmCrc24q_lt (data : List UInt8) : (rtcmCrc24q data).toNat < 2 ^ 24 :=
  fits_iff.mp (foldl_crc24qByte data fits_zero).2

/-! ### The static table -/

/-- `s_crc24q_table` and `s_crc24q_table_ready`. -/
structure CrcStatics where
  table : List UInt32
  ready : Bool

/-- Static variables start as zeros. -/
def crcStatics : CrcStatics := ⟨List.replicate 256 0, false⟩

/-- `if (!s_crc24q_table_ready) crc24q_build_table();`. -/
def CrcStatics.ensure (s : CrcStatics) : CrcStatics := if s.ready then s else ⟨crc24qBuildTable, true⟩

/-- The loop of `rtcm_crc24q` over the table as it stands. -/
def CrcStatics.crc (s : CrcStatics) (data : List UInt8) : UInt32 :=
  data.foldl (fun (crc : UInt32) (d : UInt8) =>
    let i : UInt32 := ((crc >>> 16) ^^^ d.toUInt32) &&& 0xFF
    ((crc <<< 8) &&& 0xFFFFFF) ^^^ s.table.getD i.toNat 0) 0

/-- The calls that touch the table. -/
inductive CrcCall
  | parserInit
  | crc24q (data : List UInt8)

def crcCalls : Lib.Machine CrcStatics CrcCall UInt32 where
  step s _ := s.ensure
  out s call :=
    match call with
    | .parserInit => []
    | .crc24q data => [s.ensure.crc data]

/-- What a call should answer. -/
def CrcCall.answer : CrcCall → List UInt32
  | .parserInit => []
  | .crc24q data => [crc24qBitwise data]

/-- The table is what `crc24q_build_table` makes whenever the flag says so. -/
def CrcStatics.Ok (s : CrcStatics) : Prop := s.ready = true → s.table = crc24qBuildTable

theorem CrcStatics.Ok.ensure {s : CrcStatics} (h : s.Ok) : s.ensure = ⟨crc24qBuildTable, true⟩ := by
  obtain ⟨table, ready⟩ := s
  cases ready with
  | false => rfl
  | true =>
      have htable : table = crc24qBuildTable := h rfl
      rw [htable]
      rfl

theorem CrcStatics.Ok.call {s : CrcStatics} (h : s.Ok) (call : CrcCall) :
    (crcCalls.step s call).Ok ∧ crcCalls.out s call = call.answer := by
  have hstep : crcCalls.step s call = ⟨crc24qBuildTable, true⟩ := h.ensure
  refine ⟨?_, ?_⟩
  · rw [hstep]
    exact fun _ => rfl
  · cases call with
    | parserInit => rfl
    | crc24q data =>
        show [s.ensure.crc data] = [crc24qBitwise data]
        rw [h.ensure, ← rtcmCrc24q_eq_bitwise]
        rfl

/-- **No call reads an unbuilt table.** -/
theorem outputs_crcCalls {s : CrcStatics} (h : s.Ok) (calls : List CrcCall) :
    crcCalls.outputs s calls = calls.flatMap CrcCall.answer := by
  induction calls generalizing s with
  | nil => rfl
  | cons call calls ih =>
      obtain ⟨hok, hout⟩ := h.call call
      rw [Lib.Machine.outputs_cons, hout, ih hok, List.flatMap_cons]

theorem crcStatics_ok : crcStatics.Ok := fun h => absurd h Bool.false_ne_true

end RtkdataFw.TxCore
