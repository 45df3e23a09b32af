import RtkdataFw.Lib.Buffer
import RtkdataFw.TxCore.RtcmFrame

/-!
# The parser in its array

`ParserMem` is `rtcm_parser_t` with the whole of `buf[RTCM_MAX_FRAME_B]`, whatever stands beyond `have`.  Its
functions are those of `Parser` with every index checked against the array, every unsigned subtraction against
zero and every 16-bit value against its width: `none` is a fault, or a loop of `parser_process` that did not end
within the passes its buffer allows.

* `ParserMem.abs` — what `Parser` keeps of it;
* `memHuntInBuf_eq`, `memPass_eq`, `memProcess_eq`, `memFeedPass_eq` — from a buffer in use there is no fault, and
  the result is that of the function without the array;
* `parser_memory_safe` — so there is none from `rtcm_parser_init` on, whatever is fed.
-/

namespace RtkdataFw.TxCore

open RtkdataFw.Lib

structure ParserMem where
  buf : Buffer UInt8 rtcmMaxFrameB
  have_ : ℕ
  need : ℕ
  framesOk : ℕ
  bytesOk : ℕ
  bytesDiscarded : ℕ
  crcErrors : ℕ

/-- `rtcm_parser_init`: all zeros. -/
def memInit : ParserMem := ⟨Buffer.fill rtcmMaxFrameB 0, 0, 0, 0, 0, 0, 0⟩

def ParserMem.abs (m : ParserMem) : RtcmParser where
  buf := m.buf.view m.have_
  need := m.need
  framesOk := m.framesOk
  bytesOk := m.bytesOk
  bytesDiscarded := m.bytesDiscarded
  crcErrors := m.crcErrors

/-- `while (i < p->have && p->buf[i] != 0xD3) i++;`. -/
def huntIndex (m : ParserMem) (i : ℕ) : Option ℕ :=
  if _h : i < m.have_ then
    match m.buf.get? i with
    | none => none
    | some b => if b ≠ preamble then (fit? 16 (i + 1)).bind fun _ => huntIndex m (i + 1) else some i
  else some i
termination_by m.have_ - i

/-- `parser_hunt_in_buf`. -/
def memHuntInBuf (m : ParserMem) (start : ℕ) : Option ParserMem := do
  let i ← huntIndex m start
  let m : ParserMem := { m with bytesDiscarded := m.bytesDiscarded + i }
  if i < m.have_ then
    let left ← sub? m.have_ i
    let buf ← m.buf.copyDown? i left
    return { m with buf := buf, have_ := left, need := 0 }
  else
    return { m with have_ := 0, need := 0 }

/-- The three checksum bytes: `buf[need - 3]`, `buf[need - 2]`, `buf[need - 1]`. -/
def memWant (buf : Buffer UInt8 rtcmMaxFrameB) (need : ℕ) : Option UInt32 := do
  let c2 ← (sub? need 3).bind buf.get?
  let c1 ← (sub? need 2).bind buf.get?
  let c0 ← (sub? need 1).bind buf.get?
  return (c2.toUInt32 <<< 16) ||| (c1.toUInt32 <<< 8) ||| c0.toUInt32

/-- `if (p->have > need) memmove(p->buf, p->buf + need, (size_t)(p->have - need));`. -/
def memShift (m : ParserMem) (need left : ℕ) : Option (Buffer UInt8 rtcmMaxFrameB) :=
  if m.have_ > need then m.buf.copyDown? need left else some m.buf

/-- `if (p->have > 0 && p->buf[0] != 0xD3) parser_hunt_in_buf(p, 0);`. -/
def memSettle (m : ParserMem) : Option ParserMem :=
  if m.have_ > 0 then do
    let b0 ← m.buf.get? 0
    if b0 ≠ preamble then memHuntInBuf m 0 else return m
  else
    some m

/-- The frame at the front is consumed. -/
def memConsume (m : ParserMem) (need : ℕ) : Option ParserMem := do
  let left ← sub? m.have_ need
  let buf ← memShift m need left
  memSettle
    { m with
      framesOk := m.framesOk + 1
      bytesOk := m.bytesOk + need
      buf := buf
      have_ := left
      need := 0 }

inductive MemPass where
  | done (m : ParserMem)
  | again (m : ParserMem) (emitted : List Emission)

/-- The checksum test on a frame that is all there. -/
def memCheck (m : ParserMem) (need : ℕ) : Option MemPass := do
  let want ← memWant m.buf need
  let body ← (sub? need 3).bind (m.buf.read? 0)
  if rtcmCrc24q body = want then
    let frame ← m.buf.read? 0 need
    let q ← memConsume m need
    return .again q [(m.bytesOk + m.bytesDiscarded, frame)]
  else
    let q ← memHuntInBuf { m with crcErrors := m.crcErrors + 1 } 1
    return .again q []

/-- One round of `for (;;)` in `parser_process`. -/
def memPass (m : ParserMem) : Option MemPass :=
  if m.have_ < 3 then some (.done { m with need := 0 })
  else do
    let b1 ← m.buf.get? 1
    if b1 &&& 0xFC ≠ 0 then
      let q ← memHuntInBuf m 1
      return .again q []
    else
      let b2 ← m.buf.get? 2
      let need ← fit? 16 (frameNeed b1 b2)
      let m : ParserMem := { m with need := need }
      if m.have_ < need then return .done m else memCheck m need

/-- `parser_process`, with a bound on its rounds. -/
def memProcess : ℕ → ParserMem → Option (ParserMem × List Emission)
  | 0, _ => none
  | fuel + 1, m => do
      match ← memPass m with
      | .done q => return (q, [])
      | .again q es =>
          let r ← memProcess fuel q
          return (r.1, es ++ r.2)

/-- Top up toward the next decision point, and decide when it is reached. -/
def memTopUp (m : ParserMem) (data : List UInt8) : Option (ParserMem × List UInt8 × List Emission) := do
  let target := if m.have_ < 3 then 3 else m.need
  let want ← sub? target m.have_
  let take := min want data.length
  let buf ← m.buf.write? m.have_ (data.take take)
  let took ← fit? 16 take
  let have_ ← fit? 16 (m.have_ + took)
  let m : ParserMem := { m with buf := buf, have_ := have_ }
  if m.have_ = target then
    let r ← memProcess (m.have_ + 1) m
    return (r.1, data.drop take, r.2)
  else
    return (m, data.drop take, [])

/-- One round of `while (i < len)`. -/
def memFeedPass (m : ParserMem) (data : List UInt8) : Option (ParserMem × List UInt8 × List Emission) :=
  if m.have_ = 0 then
    let found := data.dropWhile (· ≠ preamble)
    let m : ParserMem := { m with bytesDiscarded := m.bytesDiscarded + (data.length - found.length) }
    match found with
    | [] => some (m, [], [])
    | _ :: rest => do
        let buf ← m.buf.write? 0 [preamble]
        memTopUp { m with buf := buf, have_ := 1 } rest
  else
    memTopUp m data

/-- The loop of `rtcm_parser_feed` with a bound on its rounds. -/
def memFeedLoop : ℕ → ParserMem → List UInt8 → Option (ParserMem × List Emission)
  | _, m, [] => some (m, [])
  | 0, _, _ :: _ => none
  | fuel + 1, m, b :: data => do
      let r ← memFeedPass m (b :: data)
      let q ← memFeedLoop fuel r.1 r.2.1
      return (q.1, r.2.2 ++ q.2)

/-- Several calls of `rtcm_parser_feed`, one for each chunk; a round for each byte is enough. -/
def memFeedChunks : ParserMem → List (List UInt8) → Option (ParserMem × List Emission)
  | m, [] => some (m, [])
  | m, c :: cs => do
      let r ← memFeedLoop c.length m c
      let q ← memFeedChunks r.1 cs
      return (q.1, r.2 ++ q.2)

/-! ### The buffer in use -/

/-- No more is buffered than the array holds. -/
def ParserMem.Sized (m : ParserMem) : Prop := m.have_ ≤ rtcmMaxFrameB

theorem ParserMem.Sized.length {m : ParserMem} (h : m.Sized) : m.abs.buf.length = m.have_ :=
  m.buf.length_view h

/-- A 16-bit index into the array does not wrap. -/
theorem fit?_of_le {a : ℕ} (h : a ≤ rtcmMaxFrameB) : fit? 16 a = some a :=
  fit?_eq (Nat.lt_of_le_of_lt h (by decide))

section Hunt

variable {m : ParserMem}

/-- What the hunt from `start` leaves. -/
def huntRest (m : ParserMem) (start : ℕ) : List UInt8 := (m.abs.buf.drop start).dropWhile (· ≠ preamble)

/-- **The index where the hunt stops.**  What is left begins there. -/
theorem huntIndex_eq (hm : m.Sized) {i : ℕ} (hi : i ≤ m.have_) :
    huntIndex m i = some (m.have_ - (huntRest m i).length) := by
  induction hk : m.have_ - i generalizing i with
  | zero =>
      have hend : ¬ i < m.have_ := by omega
      have hdrop : m.abs.buf.drop i = [] := List.drop_of_length_le (by rw [hm.length]; omega)
      rw [huntIndex, dif_neg hend, huntRest, hdrop]
      show some i = some (m.have_ - 0)
      congr 1
      omega
  | succ k ih =>
      have hlt : i < m.have_ := by omega
      have hlen : i < m.abs.buf.length := by rw [hm.length]; exact hlt
      have hget : m.buf.get? i = some m.abs.buf[i] := by
        rw [m.buf.get?_eq_view hlt]
        exact List.getElem?_eq_getElem hlen
      have hdrop : m.abs.buf.drop i = m.abs.buf[i] :: m.abs.buf.drop (i + 1) :=
        List.drop_eq_getElem_cons hlen
      rw [huntIndex, dif_pos hlt, hget]
      dsimp only
      by_cases hpre : m.abs.buf[i] = preamble
      · rw [if_neg (not_not.mpr hpre), huntRest, hdrop,
          List.dropWhile_cons_of_neg (by simpa using hpre), ← hdrop, List.length_drop, hm.length]
        congr 1
        omega
      · have hfit : fit? 16 (i + 1) = some (i + 1) := fit?_of_le (Nat.le_trans hlt hm)
        rw [if_pos hpre, hfit, Option.bind_some, ih hlt (by omega), huntRest, huntRest, hdrop,
          List.dropWhile_cons_of_pos (by simpa using hpre)]

/-- **`parser_hunt_in_buf`** stays in the array. -/
theorem memHuntInBuf_eq (hm : m.Sized) {start : ℕ} (hs : start ≤ m.have_) :
    ∃ q, memHuntInBuf m start = some q ∧ q.abs = parserHuntInBuf m.abs start ∧ q.Sized ∧
      q.have_ ≤ m.have_ - start := by
  have hlen := hm.length
  have hsuffix : huntRest m start <:+ m.abs.buf := (List.dropWhile_suffix _).trans (List.drop_suffix _ _)
  have hrest : (huntRest m start).length ≤ m.have_ - start := by
    have hle := (List.dropWhile_suffix (· ≠ preamble) (l := m.abs.buf.drop start)).length_le
    rw [List.length_drop, hlen] at hle
    exact hle
  have hdrop : huntRest m start = m.abs.buf.drop (m.have_ - (huntRest m start).length) := by
    rw [← hlen]
    exact List.suffix_iff_eq_drop.mp hsuffix
  have hhunt : parserHuntInBuf m.abs start =
      { m.abs with
        buf := huntRest m start
        need := 0
        bytesDiscarded := m.bytesDiscarded + (m.have_ - (huntRest m start).length) } := by
    rw [← hlen]
    rfl
  rw [memHuntInBuf, huntIndex_eq hm hs, hhunt]
  simp only [Option.bind_eq_bind, Option.bind_some]
  by_cases hfound : m.have_ - (huntRest m start).length < m.have_
  · have hback : m.have_ - (m.have_ - (huntRest m start).length) = (huntRest m start).length := by omega
    obtain ⟨buf, hcopy, hview⟩ := m.buf.view_copyDown (m.have_ - (huntRest m start).length)
      (huntRest m start).length (by have : m.have_ ≤ rtcmMaxFrameB := hm; omega)
    rw [Nat.sub_add_cancel (by omega)] at hview
    rw [if_pos hfound, sub?_eq (by omega), hback, Option.bind_some, hcopy, Option.bind_some]
    have hmoved : buf.view (huntRest m start).length = huntRest m start := hview.trans hdrop.symm
    refine ⟨_, rfl, ?_, ?_, hrest⟩
    · simp only [ParserMem.abs, hmoved]
    · show (huntRest m start).length ≤ rtcmMaxFrameB
      exact (hrest.trans (Nat.sub_le _ _)).trans hm
  · have hnil : huntRest m start = [] := List.eq_nil_of_length_eq_zero (by omega)
    rw [if_neg hfound]
    refine ⟨_, rfl, ?_, Nat.zero_le _, Nat.zero_le _⟩
    simp only [ParserMem.abs, hnil, Buffer.view_zero]

end Hunt

/-! ### `parser_process` -/

section Process

variable {m : ParserMem}

/-- The checksum bytes of a frame that is there. -/
theorem memWant_eq (hm : m.Sized) {need : ℕ} (h3 : 3 ≤ need) (hneed : need ≤ m.have_) :
    memWant m.buf need = some (wantCrc m.abs.buf need) := by
  have hget : ∀ k, 1 ≤ k → k ≤ 3 →
      (sub? need k).bind m.buf.get? = some (m.abs.buf.getD (need - k) 0) := by
    intro k h1 hk
    rw [sub?_eq (by omega), Option.bind_some]
    exact m.buf.get?_getD (by omega) hm 0
  rw [memWant, hget 3 (by decide) (by decide), hget 2 (by decide) (by decide),
    hget 1 (by decide) (by decide)]
  rfl

theorem memShift_eq (hm : m.Sized) {need : ℕ} (hneed : need ≤ m.have_) :
    ∃ buf, memShift m need (m.have_ - need) = some buf ∧
      buf.view (m.have_ - need) = m.abs.buf.drop need := by
  by_cases hmore : m.have_ > need
  · obtain ⟨buf, hcopy, hview⟩ := m.buf.view_copyDown need (m.have_ - need)
      (by have : m.have_ ≤ rtcmMaxFrameB := hm; omega)
    rw [Nat.add_sub_cancel' hneed] at hview
    exact ⟨buf, (if_pos hmore).trans hcopy, hview⟩
  · refine ⟨m.buf, if_neg hmore, ?_⟩
    rw [Nat.sub_eq_zero_of_le (Nat.not_lt.mp hmore), Buffer.view_zero]
    exact (List.drop_of_length_le (by rw [hm.length]; omega)).symm

/-- **A buffer that is settled** is empty or begins with a preamble. -/
theorem memSettle_eq (hm : m.Sized) :
    ∃ q, memSettle m = some q ∧ q.Sized ∧ q.have_ ≤ m.have_ ∧
      q.abs = if m.abs.buf ≠ [] ∧ m.abs.buf.head? ≠ some preamble then parserHuntInBuf m.abs 0 else m.abs := by
  have hlen := hm.length
  rw [memSettle]
  by_cases hpos : m.have_ > 0
  · have hne : m.abs.buf ≠ [] := List.ne_nil_of_length_pos (by omega)
    have hhead := List.head?_eq_some_head hne
    have hget : m.buf.get? 0 = some (m.abs.buf.head hne) := by
      rw [m.buf.get?_eq_view hpos, ← List.head?_eq_getElem?]
      exact hhead
    rw [if_pos hpos, hget, hhead]
    simp only [Option.bind_eq_bind, Option.bind_some]
    by_cases hpre : m.abs.buf.head hne = preamble
    · rw [if_neg (not_not.mpr hpre), if_neg fun h => h.2 (congrArg some hpre)]
      exact ⟨m, rfl, hm, Nat.le_refl _, rfl⟩
    · rw [if_pos hpre, if_pos ⟨hne, fun h => hpre (Option.some.inj h)⟩]
      obtain ⟨q, hq, habs, hqsized, hle⟩ := memHuntInBuf_eq hm (Nat.zero_le _)
      exact ⟨q, hq, hqsized, hle, habs⟩
  · have hnil : m.abs.buf = [] := List.eq_nil_of_length_eq_zero (by omega)
    rw [if_neg hpos, if_neg fun h => h.1 hnil]
    exact ⟨m, rfl, hm, Nat.le_refl _, rfl⟩

/-- **Consuming the frame at the front.** -/
theorem memConsume_eq (hm : m.Sized) {need : ℕ} (hneed : need ≤ m.have_) :
    ∃ q, memConsume m need = some q ∧ q.abs = consumeFrame m.abs need ∧ q.Sized := by
  obtain ⟨buf, hmove, hview⟩ := memShift_eq hm hneed
  rw [memConsume, sub?_eq hneed]
  simp only [Option.bind_eq_bind, Option.bind_some, hmove]
  obtain ⟨q, hq, hqsized, _, habs⟩ := memSettle_eq (m := { m with
      framesOk := m.framesOk + 1
      bytesOk := m.bytesOk + need
      buf := buf
      have_ := m.have_ - need
      need := 0 }) ((Nat.sub_le _ _).trans hm)
  refine ⟨q, hq, ?_, hqsized⟩
  simp only [ParserMem.abs, hview] at habs
  exact habs

/-- A round without the array. -/
def MemPass.abs : MemPass → ParserPass
  | .done m => .done m.abs
  | .again m es => .again m.abs es

/-- The state a round leaves. -/
def MemPass.mem : MemPass → ParserMem
  | .done m => m
  | .again m _ => m

/-- **The checksum test** stays in the array. -/
theorem memCheck_eq (hm : m.Sized) {need : ℕ} (h3 : 3 ≤ need) (hneed : need ≤ m.have_) :
    ∃ r, memCheck m need = some r ∧ r.mem.Sized ∧
      r.abs = if rtcmCrc24q (m.abs.buf.take (need - 3)) = wantCrc m.abs.buf need then
          .again (consumeFrame m.abs need) [(m.abs.offset, m.abs.buf.take need)]
        else
          .again (parserHuntInBuf { m.abs with crcErrors := m.abs.crcErrors + 1 } 1) [] := by
  have hread : ∀ k ≤ m.have_, m.buf.read? 0 k = some (m.abs.buf.take k) := by
    intro k hk
    rw [m.buf.read?_zero (hk.trans hm), ← m.buf.view_of_le hk]
    rfl
  rw [memCheck, memWant_eq hm h3 hneed, sub?_eq h3]
  simp only [Option.bind_eq_bind, Option.bind_some]
  rw [hread _ (by omega), Option.bind_some]
  by_cases hcrc : rtcmCrc24q (m.abs.buf.take (need - 3)) = wantCrc m.abs.buf need
  · obtain ⟨q, hq, habs, hqsized⟩ := memConsume_eq hm hneed
    rw [if_pos hcrc, if_pos hcrc, hread _ hneed, Option.bind_some, hq, ← habs]
    exact ⟨_, rfl, hqsized, rfl⟩
  · obtain ⟨q, hq, habs, hqsized, _⟩ :=
      memHuntInBuf_eq (m := { m with crcErrors := m.crcErrors + 1 }) hm (show 1 ≤ m.have_ by omega)
    rw [if_neg hcrc, if_neg hcrc, hq]
    refine ⟨_, rfl, hqsized, ?_⟩
    show ParserPass.again q.abs [] = _
    rw [habs]
    rfl

/-- **One round of `parser_process`** stays in the array. -/
theorem memPass_eq (hm : m.Sized) :
    ∃ r, memPass m = some r ∧ r.mem.Sized ∧ r.abs = parserPass m.abs := by
  have hlen := hm.length
  by_cases hshort : m.have_ < 3
  · refine ⟨.done { m with need := 0 }, if_pos hshort, hm, ?_⟩
    rw [parserPass_short (by omega)]
    rfl
  obtain ⟨b0, b1, b2, t, hbuf⟩ : ∃ b0 b1 b2 t, m.abs.buf = b0 :: b1 :: b2 :: t := by
    rcases hbuf : m.abs.buf with _ | ⟨b0, _ | ⟨b1, _ | ⟨b2, t⟩⟩⟩
    · simp only [hbuf, List.length_nil] at hlen
      omega
    · simp only [hbuf, List.length_cons, List.length_nil] at hlen
      omega
    · simp only [hbuf, List.length_cons, List.length_nil] at hlen
      omega
    · exact ⟨b0, b1, b2, t, rfl⟩
  have hget : ∀ i < 3, m.buf.get? i = (b0 :: b1 :: b2 :: t)[i]? := by
    intro i hi
    rw [m.buf.get?_eq_view (show i < m.have_ by omega), ← hbuf]
    rfl
  have h1 : m.buf.get? 1 = some b1 := hget 1 (by decide)
  have h2 : m.buf.get? 2 = some b2 := hget 2 (by decide)
  rw [memPass, if_neg hshort, parserPass_header hbuf, h1]
  simp only [Option.bind_eq_bind, Option.bind_some]
  by_cases hres : b1 &&& 0xFC ≠ 0
  · rw [if_pos hres, if_pos hres]
    obtain ⟨q, hq, habs, hqsized, _⟩ := memHuntInBuf_eq hm (show 1 ≤ m.have_ by omega)
    rw [hq, ← habs]
    exact ⟨.again q [], rfl, hqsized, rfl⟩
  have h6 := six_le_frameNeed b1 b2
  rw [if_neg hres, if_neg hres, h2, Option.bind_some, fit?_of_le (frameNeed_le b1 b2), Option.bind_some, hlen]
  by_cases hwait : m.have_ < frameNeed b1 b2
  · rw [if_pos hwait, if_pos hwait]
    exact ⟨.done { m with need := frameNeed b1 b2 }, rfl, hm, rfl⟩
  rw [if_neg hwait, if_neg hwait]
  exact memCheck_eq (m := { m with need := frameNeed b1 b2 }) hm (by omega) (Nat.not_lt.mp hwait)

/-- **A round that goes on** has made the buffer shorter. -/
theorem memPass_again_lt (hm : m.Sized) {q : ParserMem} {es : List Emission}
    (h : memPass m = some (.again q es)) : q.Sized ∧ q.have_ < m.have_ := by
  obtain ⟨r, hr, hsized, habs⟩ := memPass_eq hm
  rw [h] at hr
  cases hr
  have hlt := parserPass_again_lt habs.symm
  have hq : q.abs.buf.length = q.have_ := ParserMem.Sized.length hsized
  rw [hq, hm.length] at hlt
  exact ⟨hsized, hlt⟩

/-- **`parser_process`**: a round for each buffered byte, and one more, is enough. -/
theorem memProcess_eq (hm : m.Sized) {fuel : ℕ} (hf : m.have_ < fuel) :
    ∃ q es, memProcess fuel m = some (q, es) ∧ q.Sized ∧ parserProcess m.abs = (q.abs, es) := by
  induction fuel generalizing m with
  | zero => exact absurd hf (Nat.not_lt_zero _)
  | succ fuel ih =>
      obtain ⟨r, hr, hsized, habs⟩ := memPass_eq hm
      rw [memProcess, hr]
      simp only [Option.bind_eq_bind, Option.bind_some]
      cases r with
      | done q => exact ⟨q, [], rfl, hsized, parserProcess_done habs.symm⟩
      | again q es =>
          obtain ⟨hq, hlt⟩ := memPass_again_lt hm hr
          obtain ⟨q', es', hrest, hsized', habs'⟩ := ih hq (by omega)
          dsimp only
          rw [hrest, Option.bind_some, parserProcess_again habs.symm, habs']
          exact ⟨q', es ++ es', rfl, hsized', rfl⟩

end Process

/-! ### `rtcm_parser_feed` -/

section Feed

variable {m : ParserMem}

/-- **Topping up** stays in the array when the decision point does. -/
theorem memTopUp_eq (hlt : m.have_ < m.abs.target) (hle : m.abs.target ≤ rtcmMaxFrameB) (data : List UInt8) :
    ∃ q rest es, memTopUp m data = some (q, rest, es) ∧ q.Sized ∧ topUp m.abs data = (q.abs, rest, es) := by
  have hm : m.Sized := (hlt.trans_le hle).le
  have hlen := hm.length
  have htarget : (if m.have_ < 3 then 3 else m.need) = m.abs.target := by
    rw [RtcmParser.target, hlen]
    rfl
  set take := min (m.abs.target - m.have_) data.length with htake
  have htaken : (data.take take).length = take := by
    rw [List.length_take]
    omega
  obtain ⟨buf, hwrite, hview⟩ := m.buf.view_write m.have_ (data.take take) (by omega)
  rw [htaken] at hview
  generalize hn : ({ m with buf := buf, have_ := m.have_ + take } : ParserMem) = n
  have hnabs : n.abs = m.abs.over (data.take take) := by
    rw [← hn, RtcmParser.over]
    simp only [ParserMem.abs, hview]
  have hnhave : n.have_ = m.have_ + take := by rw [← hn]
  have hnsized : n.Sized := by
    show n.have_ ≤ rtcmMaxFrameB
    omega
  rw [memTopUp, topUp]
  simp only [Option.bind_eq_bind, htarget, sub?_eq hlt.le, Option.bind_some, ← htake, hwrite,
    fit?_of_le (show take ≤ rtcmMaxFrameB by omega),
    fit?_of_le (show m.have_ + take ≤ rtcmMaxFrameB by omega), hn, hlen, ← hnabs, hnsized.length]
  rw [← hnhave]
  by_cases hfull : n.have_ = m.abs.target
  · obtain ⟨q, es, hq, hqsized, habs⟩ := memProcess_eq hnsized (Nat.lt_succ_self n.have_)
    rw [if_pos hfull, if_pos hfull, hq, habs]
    exact ⟨q, data.drop take, es, rfl, hqsized, rfl⟩
  · rw [if_neg hfull, if_neg hfull]
    exact ⟨n, data.drop take, [], rfl, hnsized, rfl⟩

theorem Digested.target_le {p : RtcmParser} (h : Digested p) : p.target ≤ rtcmMaxFrameB := by
  rw [RtcmParser.target]
  rcases h.cases with hb | ⟨_, hlen⟩ | ⟨b1, b2, t, _, _, hneed, _⟩
  · rw [hb]
    exact (by decide : 3 ≤ rtcmMaxFrameB)
  · rw [if_pos hlen]
    decide
  · have := frameNeed_le b1 b2
    split
    · decide
    · rw [hneed]
      exact this

/-- What holds between the rounds of `rtcm_parser_feed`. -/
structure ParserMem.Ok (m : ParserMem) : Prop where
  sized : m.Sized
  digested : Digested m.abs

theorem ParserMem.ok_init : memInit.Ok := ⟨Nat.zero_le _, digested_init⟩

/-- **One round of `rtcm_parser_feed`** stays in the array and takes a byte. -/
theorem memFeedPass_eq (hm : m.Ok) {data : List UInt8} (hd : data ≠ []) :
    ∃ q rest es, memFeedPass m data = some (q, rest, es) ∧ q.Ok ∧ rest.length < data.length ∧
      feedPass m.abs data = (q.abs, rest, es) := by
  have hlen := hm.sized.length
  obtain ⟨hdig, hless, _⟩ := feedPass_spec hm.digested hd
  obtain ⟨q, rest, es, hq, hsized, habs⟩ : ∃ q rest es, memFeedPass m data = some (q, rest, es) ∧ q.Sized ∧
      feedPass m.abs data = (q.abs, rest, es) := by
    rw [memFeedPass, feedPass]
    by_cases hzero : m.have_ = 0
    · have hnil : m.abs.buf = [] := List.eq_nil_of_length_eq_zero (by omega)
      rw [if_pos hzero, if_pos hnil]
      dsimp only
      generalize data.dropWhile (· ≠ preamble) = found
      cases found with
      | nil => exact ⟨_, [], [], rfl, hm.sized, rfl⟩
      | cons b rest =>
          obtain ⟨buf, hwrite, hview⟩ := m.buf.view_write 0 [preamble] (by decide)
          dsimp only
          rw [hwrite]
          simp only [Option.bind_eq_bind, Option.bind_some]
          generalize hn : ({ m with
            bytesDiscarded := m.bytesDiscarded + (data.length - (b :: rest).length)
            buf := buf
            have_ := 1 } : ParserMem) = n
          have hnabs : n.abs =
              { m.abs with
                buf := [preamble]
                bytesDiscarded := m.bytesDiscarded + (data.length - (b :: rest).length) } := by
            rw [← hn]
            exact congrArg (fun l => RtcmParser.mk l m.need m.framesOk m.bytesOk _ m.crcErrors) hview
          have hntarget : n.abs.target = 3 := by
            rw [hnabs]
            rfl
          have hnhave : n.have_ = 1 := by rw [← hn]
          have htop := memTopUp_eq (m := n) (by omega) (by rw [hntarget]; decide) rest
          rw [hnabs] at htop
          exact htop
    · have hne : m.abs.buf ≠ [] := fun h => hzero (by rw [← hlen, h]; rfl)
      have hlt := hm.digested.lt_target
      rw [hlen] at hlt
      rw [if_neg hzero, if_neg hne]
      exact memTopUp_eq hlt hm.digested.target_le data
  rw [habs] at hdig hless
  exact ⟨q, rest, es, hq, ⟨hsized, hdig⟩, hless, habs⟩

/-- **A call of `rtcm_parser_feed`.** -/
theorem memFeedLoop_eq (hm : m.Ok) {fuel : ℕ} {data : List UInt8} (hf : data.length ≤ fuel) :
    ∃ q es, memFeedLoop fuel m data = some (q, es) ∧ q.Ok ∧ feedLoop fuel m.abs data = some (q.abs, es) := by
  induction fuel generalizing m data with
  | zero =>
      rw [List.eq_nil_of_length_eq_zero (Nat.le_zero.mp hf)]
      exact ⟨m, [], rfl, hm, rfl⟩
  | succ fuel ih =>
      cases data with
      | nil => exact ⟨m, [], rfl, hm, rfl⟩
      | cons b data =>
          obtain ⟨q, rest, es, hq, hqok, hless, habs⟩ := memFeedPass_eq hm (List.cons_ne_nil b data)
          obtain ⟨q', es', hq', hqok', habs'⟩ := ih hqok (show rest.length ≤ fuel by omega)
          rw [memFeedLoop, feedLoop, hq, habs]
          simp only [Option.bind_eq_bind, Option.bind_some]
          rw [hq', habs']
          exact ⟨q', es ++ es', rfl, hqok', rfl⟩

/-- **Any calls of `rtcm_parser_feed`.** -/
theorem memFeedChunks_eq (hm : m.Ok) (cs : List (List UInt8)) :
    ∃ q es, memFeedChunks m cs = some (q, es) ∧ q.Ok ∧ feedChunks m.abs cs = some (q.abs, es) := by
  induction cs generalizing m with
  | nil => exact ⟨m, [], rfl, hm, rfl⟩
  | cons c cs ih =>
      obtain ⟨q, es, hq, hqok, habs⟩ := memFeedLoop_eq hm (Nat.le_refl c.length)
      obtain ⟨q', es', hq', hqok', habs'⟩ := ih hqok
      rw [memFeedChunks, feedChunks, rtcmParserFeed, hq, habs]
      simp only [Option.bind_eq_bind, Option.bind_some]
      rw [hq', habs']
      exact ⟨q', es ++ es', rfl, hqok', rfl⟩

end Feed

/-! ### The representation invariant -/

/-- What `rtcm_parser_feed` relies on: nothing buffered; or a preamble and less than a header; or a header with
clear reserved bits and less than the frame it asks for. -/
def ParserMem.Waits (m : ParserMem) : Prop :=
  m.have_ = 0 ∨
    (m.buf.get? 0 = some preamble ∧ m.have_ < 3) ∨
    ∃ b1 b2, m.buf.get? 0 = some preamble ∧ m.buf.get? 1 = some b1 ∧ m.buf.get? 2 = some b2 ∧
      b1 &&& 0xFC = 0 ∧ m.need = 6 + (b1.toNat * 256 + b2.toNat) ∧ 6 ≤ m.need ∧ m.need ≤ rtcmMaxFrameB ∧
      m.have_ < m.need

theorem ParserMem.Ok.waits {m : ParserMem} (h : m.Ok) : m.Waits := by
  have hlen := h.sized.length
  have hget : ∀ i < m.have_, m.buf.get? i = m.abs.buf[i]? := fun i hi => m.buf.get?_eq_view hi
  rcases h.digested.cases with hb | ⟨hhead, hlt⟩ | ⟨b1, b2, t, hb, hres, hneed, hlt⟩
  · rw [hb] at hlen
    exact .inl hlen.symm
  · rw [hlen] at hlt
    by_cases hzero : m.have_ = 0
    · exact .inl hzero
    · refine .inr (.inl ⟨?_, hlt⟩)
      rw [hget 0 (by omega), ← List.head?_eq_getElem?]
      exact hhead
  · have h3 : 3 ≤ m.have_ := by
      rw [← hlen, hb]
      simp only [List.length_cons]
      omega
    have hneed' : m.need = frameNeed b1 b2 := hneed
    have h6 := six_le_frameNeed b1 b2
    have hmax := frameNeed_le b1 b2
    rw [hlen] at hlt
    refine .inr (.inr ⟨b1, b2, ?_, ?_, ?_, hres, ?_, ?_, ?_, hlt⟩)
    · rw [hget 0 (by omega), hb]
      rfl
    · rw [hget 1 (by omega), hb]
      rfl
    · rw [hget 2 (by omega), hb]
      rfl
    · rw [hneed', frameNeed_eq ((reserved_iff b1).mp hres), Nat.add_comm]
    · rw [hneed']
      exact h6
    · rw [hneed']
      exact hmax

/-- **The parser never leaves its array.**  From `rtcm_parser_init` on, whatever is fed in whatever pieces: there
is no fault, and what is left waits; between two rounds of the feed loop the next one takes a byte and faults no
more; a round of `parser_process` that goes on has shortened the buffer. -/
theorem parser_memory_safe :
    (∀ cs : List (List UInt8), ∃ m es, memFeedChunks memInit cs = some (m, es) ∧ m.Ok ∧ m.Waits ∧
      feedChunks rtcmParserInit cs = some (m.abs, es)) ∧
    (∀ m : ParserMem, m.Ok → m.Waits ∧ ∀ data : List UInt8, data ≠ [] → ∃ q rest es,
      memFeedPass m data = some (q, rest, es) ∧ q.Ok ∧ rest.length < data.length) ∧
    ∀ m : ParserMem, m.have_ ≤ rtcmMaxFrameB → ∃ r, memPass m = some r ∧
      (∀ q es, r = .again q es → q.have_ < m.have_ ∧ q.have_ ≤ rtcmMaxFrameB) := by
  refine ⟨?_, ?_, ?_⟩
  · intro cs
    obtain ⟨m, es, hrun, hok, habs⟩ := memFeedChunks_eq ParserMem.ok_init cs
    exact ⟨m, es, hrun, hok, hok.waits, habs⟩
  · intro m hm
    refine ⟨hm.waits, ?_⟩
    intro data hd
    obtain ⟨q, rest, es, hq, hqok, hless, _⟩ := memFeedPass_eq hm hd
    exact ⟨q, rest, es, hq, hqok, hless⟩
  · intro m hm
    obtain ⟨r, hr, _, _⟩ := memPass_eq (m := m) hm
    refine ⟨r, hr, ?_⟩
    intro q es hagain
    rw [hagain] at hr
    obtain ⟨hsized, hlt⟩ := memPass_again_lt hm hr
    exact ⟨hlt, hsized⟩

theorem parser_memory_safe_preamble :
    (∃ q rest es, memFeedPass memInit [preamble] = some (q, rest, es) ∧ rest.length < 1) ∧
      ∃ r, memPass memInit = some r := by
  obtain ⟨_, hfeed, hpass⟩ := parser_memory_safe
  obtain ⟨q, rest, es, hq, _, hless⟩ := (hfeed memInit ParserMem.ok_init).2 [preamble] (List.cons_ne_nil _ _)
  obtain ⟨r, hr, _⟩ := hpass memInit (Nat.zero_le _)
  exact ⟨⟨q, rest, es, hq, hless⟩, r, hr⟩

end RtkdataFw.TxCore
