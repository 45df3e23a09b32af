import RtkdataFw.TxCore.Crc24q
import Mathlib.Tactic.Common

/-!
# The RTCM3 parser of `ntrip_tx_core.c`

`RtcmParser` is `rtcm_parser_t`: `buf` is the array up to `have`, so `have` is its length; the 64-bit
lifetime counters are naturals.  The callback is a list of what it was called with, in order: each
frame with the number of bytes accounted for before it (`bytes_ok + bytes_discarded`), which is its
position in the stream fed since `rtcm_parser_init`.

* `parserHuntInBuf`, `parserPass`, `parserProcess` — the hunt in the buffer, one round of the
  `for (;;)` loop, and the loop, which ends because every round that goes on shortens the buffer;
* `feedPass`, `feedLoop`, `rtcmParserFeed` — one round of the `while (i < len)` loop and the loop; a
  loop that went round without ending would be `none`.
-/

namespace RtkdataFw.TxCore

def rtcmMaxFrameB : ℕ := 1029

/-- The RTCM3 preamble. -/
def preamble : UInt8 := 0xD3

structure RtcmParser where
  buf : List UInt8
  need : ℕ
  framesOk : ℕ
  bytesOk : ℕ
  bytesDiscarded : ℕ
  crcErrors : ℕ
  deriving DecidableEq, Repr

/-- A call of the frame callback: where the frame starts in the stream, and the frame. -/
abbrev Emission := ℕ × List UInt8

def rtcmParserInit : RtcmParser := ⟨[], 0, 0, 0, 0, 0⟩

/-- The stream position of `buf[0]`. -/
def RtcmParser.offset (p : RtcmParser) : ℕ := p.bytesOk + p.bytesDiscarded

/-- `parser_hunt_in_buf`: drop `buf[0, from)` and everything up to the next preamble. -/
def parserHuntInBuf (p : RtcmParser) (start : ℕ) : RtcmParser :=
  let rest := (p.buf.drop start).dropWhile (· ≠ preamble)
  { p with
    buf := rest
    need := 0
    bytesDiscarded := p.bytesDiscarded + (p.buf.length - rest.length) }

/-- The full frame length a header asks for: `(((buf[1] & 0x03u) << 8) | buf[2]) + 6u`. -/
def frameNeed (b1 b2 : UInt8) : ℕ := (((b1 &&& 0x03).toNat <<< 8) ||| b2.toNat) + 6

/-- The three checksum bytes of a frame of length `need`, most significant first. -/
def wantCrc (buf : List UInt8) (need : ℕ) : UInt32 :=
  ((buf.getD (need - 3) 0).toUInt32 <<< 16) ||| ((buf.getD (need - 2) 0).toUInt32 <<< 8) |||
    (buf.getD (need - 1) 0).toUInt32

/-- A round of the loop in `parser_process` returns, or goes on after the callbacks it made. -/
inductive ParserPass where
  | done (p : RtcmParser)
  | again (p : RtcmParser) (emitted : List Emission)

/-- The frame at the front of the buffer is consumed; bytes beyond it may have been buffered. -/
def consumeFrame (p : RtcmParser) (need : ℕ) : RtcmParser :=
  let p : RtcmParser :=
    { p with
      framesOk := p.framesOk + 1
      bytesOk := p.bytesOk + need
      buf := p.buf.drop need
      need := 0 }
  if p.buf ≠ [] ∧ p.buf.head? ≠ some preamble then parserHuntInBuf p 0 else p

/-- What is left after a frame is hunted through, unless it is empty or begins with a preamble. -/
theorem consumeFrame_cases (p : RtcmParser) (need : ℕ) :
    consumeFrame p need = parserHuntInBuf
        { p with
          framesOk := p.framesOk + 1
          bytesOk := p.bytesOk + need
          buf := p.buf.drop need
          need := 0 } 0 ∨
    ((p.buf.drop need = [] ∨ (p.buf.drop need).head? = some preamble) ∧ consumeFrame p need =
        { p with
          framesOk := p.framesOk + 1
          bytesOk := p.bytesOk + need
          buf := p.buf.drop need
          need := 0 }) := by
  by_cases h : p.buf.drop need ≠ [] ∧ (p.buf.drop need).head? ≠ some preamble
  · exact .inl (if_pos h)
  · refine .inr ⟨?_, if_neg h⟩
    rw [not_and_or, not_not, not_not] at h
    exact h

/-- One round of `for (;;)` in `parser_process`. -/
def parserPass (p : RtcmParser) : ParserPass :=
  match p.buf with
  | _ :: b1 :: b2 :: _ =>
      if b1 &&& 0xFC ≠ 0 then
        .again (parserHuntInBuf p 1) []
      else
        let need := frameNeed b1 b2
        let p : RtcmParser := { p with need := need }
        if p.buf.length < need then
          .done p
        else if rtcmCrc24q (p.buf.take (need - 3)) = wantCrc p.buf need then
          .again (consumeFrame p need) [(p.offset, p.buf.take need)]
        else
          .again (parserHuntInBuf { p with crcErrors := p.crcErrors + 1 } 1) []
  | _ => .done { p with need := 0 }

/-! ### The loop ends -/

theorem parserHuntInBuf_length_le (p : RtcmParser) (start : ℕ) :
    (parserHuntInBuf p start).buf.length ≤ p.buf.length - start := by
  have h := (List.dropWhile_suffix (fun b => decide (b ≠ preamble)) (l := p.buf.drop start)).length_le
  rw [List.length_drop] at h
  exact h

theorem six_le_frameNeed (b1 b2 : UInt8) : 6 ≤ frameNeed b1 b2 := Nat.le_add_left _ _

theorem frameNeed_le (b1 b2 : UInt8) : frameNeed b1 b2 ≤ rtcmMaxFrameB := by
  have h1 : (b1 &&& 0x03).toNat < 2 ^ 2 := by
    rw [UInt8.toNat_and]
    exact Nat.lt_of_le_of_lt Nat.and_le_right (by decide)
  have h2 : (b1 &&& 0x03).toNat <<< 8 < 2 ^ 10 := by
    rw [Nat.shiftLeft_eq]
    omega
  have h3 : b2.toNat < 2 ^ 10 := b2.toNat_lt.trans (by decide)
  have := Nat.or_lt_two_pow h2 h3
  rw [frameNeed, rtcmMaxFrameB]
  omega

theorem consumeFrame_length_le (p : RtcmParser) (need : ℕ) :
    (consumeFrame p need).buf.length ≤ p.buf.length - need := by
  rcases consumeFrame_cases p need with h | ⟨_, h⟩
  · rw [h]
    apply (parserHuntInBuf_length_le _ 0).trans
    simp
  · rw [h]
    simp

/-- A buffer too short for a header makes the round return. -/
theorem parserPass_short {p : RtcmParser} (h : p.buf.length < 3) :
    parserPass p = .done { p with need := 0 } := by
  unfold parserPass
  split
  · rename_i hbuf
    simp only [hbuf, List.length_cons] at h
    omega
  · rfl

theorem parserPass_header {p : RtcmParser} {b0 b1 b2 : UInt8} {t : List UInt8}
    (hb : p.buf = b0 :: b1 :: b2 :: t) :
    parserPass p =
      if b1 &&& 0xFC ≠ 0 then .again (parserHuntInBuf p 1) []
      else if p.buf.length < frameNeed b1 b2 then .done { p with need := frameNeed b1 b2 }
      else if rtcmCrc24q (p.buf.take (frameNeed b1 b2 - 3)) = wantCrc p.buf (frameNeed b1 b2) then
        .again (consumeFrame { p with need := frameNeed b1 b2 } (frameNeed b1 b2))
          [(p.offset, p.buf.take (frameNeed b1 b2))]
      else
        .again (parserHuntInBuf
          { p with need := frameNeed b1 b2, crcErrors := p.crcErrors + 1 } 1) [] := by
  unfold parserPass
  split
  · rename_i hbuf
    rw [hb] at hbuf
    cases hbuf
    rfl
  · rename_i hno
    exact absurd hb (hno _ _ _ _)

/-- **Progress.**  A round that goes on has shortened the buffer. -/
theorem parserPass_again_lt {p q : RtcmParser} {es : List Emission}
    (h : parserPass p = .again q es) : q.buf.length < p.buf.length := by
  by_cases hshort : p.buf.length < 3
  · rw [parserPass_short hshort] at h
    cases h
  obtain ⟨b0, b1, b2, t, hbuf⟩ : ∃ b0 b1 b2 t, p.buf = b0 :: b1 :: b2 :: t := by
    rcases hbuf : p.buf with _ | ⟨b0, _ | ⟨b1, _ | ⟨b2, t⟩⟩⟩
    · simp [hbuf] at hshort
    · simp [hbuf] at hshort
    · simp [hbuf] at hshort
    · exact ⟨b0, b1, b2, t, rfl⟩
  rw [parserPass_header hbuf] at h
  by_cases hres : b1 &&& 0xFC ≠ 0
  · rw [if_pos hres] at h
    cases h
    have := parserHuntInBuf_length_le p 1
    omega
  rw [if_neg hres] at h
  by_cases hlen : p.buf.length < frameNeed b1 b2
  · rw [if_pos hlen] at h
    cases h
  rw [if_neg hlen] at h
  by_cases hcrc : rtcmCrc24q (p.buf.take (frameNeed b1 b2 - 3)) = wantCrc p.buf (frameNeed b1 b2)
  · rw [if_pos hcrc] at h
    cases h
    have hneed := six_le_frameNeed b1 b2
    have := consumeFrame_length_le { p with need := frameNeed b1 b2 } (frameNeed b1 b2)
    simp only at this
    omega
  · rw [if_neg hcrc] at h
    cases h
    have := parserHuntInBuf_length_le
      { p with need := frameNeed b1 b2, crcErrors := p.crcErrors + 1 } 1
    simp only at this
    omega

/-- `parser_process`: rounds until one returns. -/
def parserProcess (p : RtcmParser) : RtcmParser × List Emission :=
  match h : parserPass p with
  | .done q => (q, [])
  | .again q es =>
      have _hlt := parserPass_again_lt h
      ((parserProcess q).1, es ++ (parserProcess q).2)
termination_by p.buf.length

theorem parserProcess_done {p q : RtcmParser} (h : parserPass p = .done q) :
    parserProcess p = (q, []) := by
  rw [parserProcess]
  split
  · rename_i heq
    rw [h] at heq
    cases heq
    rfl
  · rename_i heq
    rw [h] at heq
    cases heq

theorem parserProcess_again {p q : RtcmParser} {es : List Emission}
    (h : parserPass p = .again q es) :
    parserProcess p = ((parserProcess q).1, es ++ (parserProcess q).2) := by
  rw [parserProcess]
  split
  · rename_i heq
    rw [h] at heq
    cases heq
  · rename_i heq
    rw [h] at heq
    cases heq
    rfl

/-! ### Feeding -/

/-- The next decision point: 3 bytes for the header, then `need` bytes for the whole frame. -/
def RtcmParser.target (p : RtcmParser) : ℕ := if p.buf.length < 3 then 3 else p.need

/-- `memcpy` to the end of what is buffered. -/
def RtcmParser.over (p : RtcmParser) (data : List UInt8) : RtcmParser :=
  { p with buf := p.buf ++ data }

/-- Top up toward the next decision point, and decide when it is reached. -/
def topUp (p : RtcmParser) (data : List UInt8) : RtcmParser × List UInt8 × List Emission :=
  let take := min (p.target - p.buf.length) data.length
  let q := p.over (data.take take)
  if q.buf.length = p.target then
    ((parserProcess q).1, data.drop take, (parserProcess q).2)
  else
    (q, data.drop take, [])

/-- One round of `while (i < len)`: the parser, the input that is left, the callbacks.  With nothing
buffered, the preamble is hunted for directly in the input. -/
def feedPass (p : RtcmParser) (data : List UInt8) : RtcmParser × List UInt8 × List Emission :=
  if p.buf = [] then
    let found := data.dropWhile (· ≠ preamble)
    let p : RtcmParser :=
      { p with bytesDiscarded := p.bytesDiscarded + (data.length - found.length) }
    match found with
    | [] => (p, [], [])
    | _ :: rest => topUp { p with buf := [preamble] } rest
  else
    topUp p data

/-- The loop of `rtcm_parser_feed` with a bound on its rounds. -/
def feedLoop : ℕ → RtcmParser → List UInt8 → Option (RtcmParser × List Emission)
  | _, p, [] => some (p, [])
  | 0, _, _ :: _ => none
  | fuel + 1, p, b :: data =>
      let r := feedPass p (b :: data)
      (feedLoop fuel r.1 r.2.1).map fun q => (q.1, r.2.2 ++ q.2)

/-- `rtcm_parser_feed`: a round for each byte is enough when every round takes one. -/
def rtcmParserFeed (p : RtcmParser) (data : List UInt8) : Option (RtcmParser × List Emission) :=
  feedLoop data.length p data

/-- Several calls of `rtcm_parser_feed`, one for each chunk. -/
def feedChunks : RtcmParser → List (List UInt8) → Option (RtcmParser × List Emission)
  | p, [] => some (p, [])
  | p, c :: cs => do
      let r ← rtcmParserFeed p c
      let q ← feedChunks r.1 cs
      return (q.1, r.2 ++ q.2)

end RtkdataFw.TxCore
