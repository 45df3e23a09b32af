import RtkdataFw.Lib.Resync
import RtkdataFw.TxCore.Parser

/-!
# The parser is a resynchronising scanner

`rtcmFraming` says what the bytes at the front of a stream are: the start of an RTCM3 frame still to
come, one byte of garbage, or a whole frame.  The parser buffers, hunts and compacts, but what it has
done after any chunks is what the scanner of `Lib.Resync` does on the concatenation:

* `parserProcess_eq` — `parser_process` leaves the scanner's rest and counts its tokens;
* `feedLoop_eq`, `feedChunks_eq` — feeding chunks to a digested parser returns, and leaves the state
  and makes the callbacks that scanning `buf` followed by all the chunks gives;
* `IsRtcmFrame` and `rtcmJudge_eq_frame_iff` — the frames cut out are the well-formed ones.
-/

namespace RtkdataFw.TxCore

open RtkdataFw.Lib.Resync

/-! ### The framing -/

/-- Why a byte starts no frame. -/
inductive Reject where
  | garbage
  | reserved
  | crc
  deriving DecidableEq, Repr

abbrev Tok := Token UInt8 Reject

def rtcmJudge (l : List UInt8) : Verdict Reject :=
  match l with
  | [] => .wait
  | b0 :: t =>
      if b0 ≠ preamble then .skip .garbage
      else
        match t with
        | b1 :: b2 :: _ =>
            if b1 &&& 0xFC ≠ 0 then .skip .reserved
            else if l.length < frameNeed b1 b2 then .wait
            else if rtcmCrc24q (l.take (frameNeed b1 b2 - 3)) = wantCrc l (frameNeed b1 b2) then
              .frame (frameNeed b1 b2)
            else .skip .crc
        | _ => .wait

theorem rtcmJudge_garbage {b0 : UInt8} (h : b0 ≠ preamble) (t : List UInt8) :
    rtcmJudge (b0 :: t) = .skip .garbage := by
  simp [rtcmJudge, h]

/-- The verdict once the three header bytes are there. -/
theorem rtcmJudge_header (b1 b2 : UInt8) (t : List UInt8) :
    rtcmJudge (preamble :: b1 :: b2 :: t) =
      if b1 &&& 0xFC ≠ 0 then .skip .reserved
      else if (preamble :: b1 :: b2 :: t).length < frameNeed b1 b2 then .wait
      else if rtcmCrc24q ((preamble :: b1 :: b2 :: t).take (frameNeed b1 b2 - 3)) =
          wantCrc (preamble :: b1 :: b2 :: t) (frameNeed b1 b2) then
        .frame (frameNeed b1 b2)
      else .skip .crc := by
  simp [rtcmJudge]

/-- The four shapes a buffer can have, by what is known of its header. -/
theorem header_cases (l : List UInt8) :
    l = [] ∨ (∃ b0 t, l = b0 :: t ∧ b0 ≠ preamble) ∨
      (l.head? = some preamble ∧ l.length < 3 ∧ rtcmJudge l = .wait) ∨
      ∃ b1 b2 t, l = preamble :: b1 :: b2 :: t := by
  match l with
  | [] => exact .inl rfl
  | b0 :: t =>
      by_cases h : b0 = preamble
      · subst h
        match t with
        | [] => exact .inr (.inr (.inl ⟨rfl, by simp, rfl⟩))
        | [b1] => exact .inr (.inr (.inl ⟨rfl, by simp, rfl⟩))
        | b1 :: b2 :: t => exact .inr (.inr (.inr ⟨b1, b2, t, rfl⟩))
      · exact .inr (.inl ⟨b0, t, rfl, h⟩)

/-- The checksum bytes are found inside the frame. -/
theorem wantCrc_append (l m : List UInt8) {n : ℕ} (hn : n ≤ l.length) (h0 : 0 < n) :
    wantCrc (l ++ m) n = wantCrc l n := by
  unfold wantCrc
  rw [List.getD_append _ _ _ _ (by omega), List.getD_append _ _ _ _ (by omega),
    List.getD_append _ _ _ _ (by omega)]

theorem wantCrc_take (l : List UInt8) {n : ℕ} (hn : n ≤ l.length) (h0 : 0 < n) :
    wantCrc (l.take n) n = wantCrc l n := by
  have h := wantCrc_append (l.take n) (l.drop n) (n := n) (by simp [hn]) h0
  rwa [List.take_append_drop, eq_comm] at h

theorem rtcmJudge_stable (l m : List UInt8) (h : rtcmJudge l ≠ .wait) :
    rtcmJudge (l ++ m) = rtcmJudge l := by
  rcases header_cases l with rfl | ⟨b0, t, rfl, hb⟩ | ⟨_, _, hw⟩ | ⟨b1, b2, t, rfl⟩
  · exact absurd rfl h
  · rw [List.cons_append, rtcmJudge_garbage hb, rtcmJudge_garbage hb]
  · exact absurd hw h
  · have hneed := six_le_frameNeed b1 b2
    rw [rtcmJudge_header] at h
    rw [show preamble :: b1 :: b2 :: t ++ m = preamble :: b1 :: b2 :: (t ++ m) from rfl,
      rtcmJudge_header, rtcmJudge_header]
    split at h
    · rename_i hres
      rw [if_pos hres, if_pos hres]
    · rename_i hres
      split at h
      · exact absurd rfl h
      · rename_i hlen
        have hlen' : ¬ (preamble :: b1 :: b2 :: (t ++ m)).length < frameNeed b1 b2 := by
          simp only [List.length_cons, List.length_append] at hlen ⊢
          omega
        rw [if_neg hres, if_neg hlen', if_neg hres, if_neg hlen,
          show preamble :: b1 :: b2 :: (t ++ m) = preamble :: b1 :: b2 :: t ++ m from rfl,
          List.take_append_of_le_length (by omega), wantCrc_append _ _ (by omega) (by omega)]

theorem rtcmJudge_frame {l : List UInt8} {n : ℕ} (h : rtcmJudge l = .frame n) :
    ∃ b1 b2 t, l = preamble :: b1 :: b2 :: t ∧ b1 &&& 0xFC = 0 ∧ n = frameNeed b1 b2 ∧
      n ≤ l.length ∧ rtcmCrc24q (l.take (n - 3)) = wantCrc l n := by
  rcases header_cases l with rfl | ⟨b0, t, rfl, hb⟩ | ⟨_, _, hw⟩ | ⟨b1, b2, t, rfl⟩
  · cases h
  · rw [rtcmJudge_garbage hb] at h
    cases h
  · rw [hw] at h
    cases h
  · rw [rtcmJudge_header] at h
    split at h
    · cases h
    · rename_i hres
      split at h
      · cases h
      · rename_i hlen
        split at h
        · rename_i hcrc
          cases h
          exact ⟨b1, b2, t, rfl, by simpa using hres, rfl, by omega, hcrc⟩
        · cases h

theorem rtcmJudge_frame_take (l : List UInt8) (n : ℕ) (h : rtcmJudge l = .frame n) :
    rtcmJudge (l.take n) = .frame n := by
  obtain ⟨b1, b2, t, rfl, hres, rfl, hle, hcrc⟩ := rtcmJudge_frame h
  have hneed := six_le_frameNeed b1 b2
  have htake : (preamble :: b1 :: b2 :: t).take (frameNeed b1 b2) =
      preamble :: b1 :: b2 :: t.take (frameNeed b1 b2 - 3) := by
    obtain ⟨j, hj⟩ := Nat.exists_eq_add_of_le (show 3 ≤ frameNeed b1 b2 by omega)
    rw [hj, Nat.add_sub_cancel_left, Nat.add_comm]
    rfl
  have hlen : ¬ (preamble :: b1 :: b2 :: t.take (frameNeed b1 b2 - 3)).length < frameNeed b1 b2 := by
    rw [← htake, List.length_take]
    omega
  rw [htake, rtcmJudge_header, if_neg (by simpa using hres), if_neg hlen, ← htake, List.take_take,
    wantCrc_take _ hle (by omega), Nat.min_eq_left (by omega), if_pos hcrc]

def rtcmFraming : Framing UInt8 Reject where
  judge := rtcmJudge
  judge_nil := rfl
  stable := rtcmJudge_stable
  frame_bound := by
    intro l n h
    obtain ⟨b1, b2, t, _, _, rfl, hle, _⟩ := rtcmJudge_frame h
    have := six_le_frameNeed b1 b2
    omega
  frame_take := rtcmJudge_frame_take

/-! ### What the parser keeps of the tokens -/

/-- `need` for a buffer that waits: the frame length once the header is there, else 0. -/
def needOf : List UInt8 → ℕ
  | _ :: b1 :: b2 :: _ => frameNeed b1 b2
  | _ => 0

/-- One token on the counters. -/
def credit (p : RtcmParser) : Tok → RtcmParser
  | .junk r _ =>
      { p with
        bytesDiscarded := p.bytesDiscarded + 1
        crcErrors := p.crcErrors + if r = .crc then 1 else 0 }
  | .frame f => { p with framesOk := p.framesOk + 1, bytesOk := p.bytesOk + f.length }

/-- The same counters over another buffer. -/
def RtcmParser.hold (p : RtcmParser) (buf : List UInt8) (need : ℕ) : RtcmParser :=
  { p with buf := buf, need := need }

/-- The parser once all it has buffered is scanned. -/
def digest (p : RtcmParser) : RtcmParser :=
  ((scan rtcmFraming p.buf).1.foldl credit p).hold (scan rtcmFraming p.buf).2
    (needOf (scan rtcmFraming p.buf).2)

/-- The frames in the buffer, at their places in the stream. -/
def emissions (p : RtcmParser) : List Emission := place p.offset (scan rtcmFraming p.buf).1

theorem foldl_credit_offset (ts : List Tok) (p : RtcmParser) :
    (ts.foldl credit p).offset = p.offset + width ts := by
  induction ts generalizing p with
  | nil => rfl
  | cons t ts ih =>
      rw [List.foldl_cons, ih, width_cons]
      cases t <;> simp only [credit, RtcmParser.offset, Token.bytes, List.length_singleton] <;> omega

@[simp] theorem hold_hold (p : RtcmParser) (b b' : List UInt8) (n n' : ℕ) :
    (p.hold b n).hold b' n' = p.hold b' n' := rfl

/-- The counters do not depend on the buffer. -/
theorem foldl_credit_hold (ts : List Tok) (p : RtcmParser) (buf : List UInt8) (need : ℕ) :
    ts.foldl credit (p.hold buf need) = (ts.foldl credit p).hold buf need := by
  induction ts generalizing p with
  | nil => rfl
  | cons t ts ih =>
      rw [List.foldl_cons, List.foldl_cons, ← ih]
      cases t <;> rfl

theorem foldl_credit_garbage (l : List UInt8) (p : RtcmParser) :
    (l.map (Token.junk Reject.garbage)).foldl credit p =
      { p with bytesDiscarded := p.bytesDiscarded + l.length } := by
  induction l generalizing p with
  | nil => rfl
  | cons b l ih =>
      rw [List.map_cons, List.foldl_cons, ih, List.length_cons]
      simp only [credit, reduceCtorEq, ite_false, Nat.add_zero]
      congr 1
      omega

/-! ### Hunting -/

/-- Up to the next preamble every byte is garbage. -/
theorem scan_dropWhile (l : List UInt8) :
    scan rtcmFraming l =
      ((l.takeWhile (· ≠ preamble)).map (Token.junk Reject.garbage) ++
          (scan rtcmFraming (l.dropWhile (· ≠ preamble))).1,
        (scan rtcmFraming (l.dropWhile (· ≠ preamble))).2) := by
  induction l with
  | nil => simp
  | cons b t ih =>
      by_cases h : b = preamble
      · simp [h]
      · have hskip : rtcmFraming.judge (b :: t) = .skip .garbage := rtcmJudge_garbage h t
        rw [scan_of_skip _ hskip, ih]
        simp [h]

theorem length_sub_dropWhile (l : List UInt8) :
    l.length - (l.dropWhile (· ≠ preamble)).length = (l.takeWhile (· ≠ preamble)).length := by
  have h := congrArg List.length (List.takeWhile_append_dropWhile (p := (· ≠ preamble)) (l := l))
  rw [List.length_append] at h
  omega

/-- A buffer the loop of `parser_process` may look at: empty, or starting with a preamble. -/
def Aligned (l : List UInt8) : Prop := l = [] ∨ l.head? = some preamble

theorem aligned_dropWhile (l : List UInt8) : Aligned (l.dropWhile (· ≠ preamble)) := by
  cases h : l.dropWhile (· ≠ preamble) with
  | nil => exact .inl rfl
  | cons b t =>
      have hne : l.dropWhile (· ≠ preamble) ≠ [] := by rw [h]; simp
      have hb := List.head_dropWhile_not (· ≠ preamble) hne
      simp only [h, List.head_cons] at hb
      exact .inr (by simpa using hb)

/-- From `p` the code gets to `q` making the callbacks `es`, and nothing is lost on the way: what is
left to do from `q` ends where scanning from `p` ends. -/
def Leads (p : RtcmParser) (es : List Emission) (q : RtcmParser) : Prop :=
  digest p = digest q ∧ emissions p = es ++ emissions q

theorem Leads.trans {p q r : RtcmParser} {es fs : List Emission} (h : Leads p es q)
    (h' : Leads q fs r) : Leads p (es ++ fs) r :=
  ⟨h.1.trans h'.1, by rw [h.2, h'.2, List.append_assoc]⟩

/-- Taking tokens off the front of the scan, and crediting them. -/
theorem leads_of_tokens {p q : RtcmParser} (ts : List Tok)
    (hscan : scan rtcmFraming p.buf =
      (ts ++ (scan rtcmFraming q.buf).1, (scan rtcmFraming q.buf).2))
    (hq : q = (ts.foldl credit p).hold q.buf q.need) :
    Leads p (place p.offset ts) q := by
  have hoff : q.offset = p.offset + width ts := by
    rw [hq, ← foldl_credit_offset]
    rfl
  constructor
  · have hcount : (scan rtcmFraming q.buf).1.foldl credit q =
        ((scan rtcmFraming q.buf).1.foldl credit (ts.foldl credit p)).hold q.buf q.need := by
      rw [← foldl_credit_hold, ← hq]
    rw [digest, digest, hscan, List.foldl_append, hcount, hold_hold]
  · rw [emissions, emissions, hscan, place_append, hoff]

theorem place_garbage (off : ℕ) (l : List UInt8) :
    place off (l.map (Token.junk Reject.garbage)) = [] := by
  induction l generalizing off with
  | nil => rfl
  | cons b l ih => exact ih (off + 1)

/-- The hunt passes over what the scanner drops one byte at a time. -/
theorem leads_hunt_zero (p : RtcmParser) : Leads p [] (parserHuntInBuf p 0) := by
  have h := leads_of_tokens (p := p) (q := parserHuntInBuf p 0)
    ((p.buf.takeWhile (· ≠ preamble)).map (Token.junk Reject.garbage)) (scan_dropWhile p.buf) (by
      rw [foldl_credit_garbage, ← length_sub_dropWhile]
      rfl)
  rwa [place_garbage] at h

/-- `parser_hunt_in_buf(p, 1)` on a false preamble. -/
theorem leads_hunt_one {p : RtcmParser} {r : Reject} {t : List UInt8}
    (hbuf : p.buf = preamble :: t) (hj : rtcmJudge p.buf = .skip r) (need : ℕ) :
    Leads p [] (parserHuntInBuf
      { p with need := need, crcErrors := p.crcErrors + if r = .crc then 1 else 0 } 1) := by
  have hskip : rtcmFraming.judge (preamble :: t) = .skip r := hbuf ▸ hj
  have h := leads_of_tokens (p := p) (q := parserHuntInBuf
      { p with need := need, crcErrors := p.crcErrors + if r = .crc then 1 else 0 } 1)
    (.junk r preamble :: (t.takeWhile (· ≠ preamble)).map (Token.junk Reject.garbage)) (by
      simp only [parserHuntInBuf, hbuf, List.drop_succ_cons, List.drop_zero]
      rw [scan_of_skip _ hskip, scan_dropWhile t]
      rfl) (by
      have hlen := length_sub_dropWhile t
      have hle := (List.dropWhile_suffix (fun b => decide (b ≠ preamble)) (l := t)).length_le
      rw [List.foldl_cons, foldl_credit_garbage, ← hlen]
      simp only [parserHuntInBuf, RtcmParser.hold, credit, hbuf, List.drop_succ_cons,
        List.drop_zero, List.length_cons, RtcmParser.mk.injEq, true_and, and_true]
      omega)
  rwa [place, place_garbage] at h

/-- A verified frame taken off the front of the buffer. -/
theorem leads_consume {p : RtcmParser} {n : ℕ} (hj : rtcmJudge p.buf = .frame n) :
    Leads p [(p.offset, p.buf.take n)] (consumeFrame { p with need := n } n) := by
  have hb := rtcmFraming.frame_bound p.buf n hj
  have hlen : (p.buf.take n).length = n := by rw [List.length_take, Nat.min_eq_left hb.2]
  have hcut : Leads p [(p.offset, p.buf.take n)]
      { p with framesOk := p.framesOk + 1, bytesOk := p.bytesOk + n, buf := p.buf.drop n,
               need := 0 } := by
    have h := leads_of_tokens (p := p)
      (q := { p with framesOk := p.framesOk + 1, bytesOk := p.bytesOk + n, buf := p.buf.drop n,
                     need := 0 }) [.frame (p.buf.take n)]
      (by rw [scan_of_frame rtcmFraming hj]; rfl)
      (by simp [credit, hlen, RtcmParser.hold])
    simpa [place] using h
  rcases consumeFrame_cases { p with need := n } n with h | ⟨_, h⟩
  · rw [h]
    exact hcut.trans (leads_hunt_zero _)
  · rw [h]
    exact hcut

/-! ### `parser_process` -/

theorem aligned_hunt (p : RtcmParser) (start : ℕ) : Aligned (parserHuntInBuf p start).buf :=
  aligned_dropWhile _

theorem aligned_consume (p : RtcmParser) (n : ℕ) : Aligned (consumeFrame p n).buf := by
  rcases consumeFrame_cases p n with h | ⟨haligned, h⟩
  · rw [h]
    exact aligned_hunt _ 0
  · rw [h]
    exact haligned

/-- A buffer the code has to wait on, with the `need` it has worked out. -/
structure Digested (p : RtcmParser) : Prop where
  waits : rtcmJudge p.buf = .wait
  need_eq : p.need = needOf p.buf

theorem digested_init : Digested rtcmParserInit := ⟨rfl, rfl⟩

theorem digested_digest (p : RtcmParser) : Digested (digest p) :=
  ⟨judge_rest rtcmFraming p.buf, rfl⟩

theorem Digested.digest_eq {p : RtcmParser} (h : Digested p) : digest p = p := by
  rw [digest, scan_of_wait rtcmFraming h.waits, ← h.need_eq]
  rfl

theorem Digested.emissions_eq {p : RtcmParser} (h : Digested p) : emissions p = [] := by
  rw [emissions, scan_of_wait rtcmFraming h.waits]
  rfl

theorem leads_need (p : RtcmParser) (n : ℕ) : Leads p [] { p with need := n } :=
  leads_of_tokens [] rfl rfl

theorem needOf_short {l : List UInt8} (h : l.length < 3) : needOf l = 0 := by
  unfold needOf
  split
  · simp only [List.length_cons] at h
    omega
  · rfl

/-- **One round of `parser_process`.**  It returns a digested parser, or goes on from an aligned
buffer with nothing lost. -/
theorem parserPass_spec {p : RtcmParser} (h : Aligned p.buf) :
    (∃ q, parserPass p = .done q ∧ Leads p [] q ∧ Digested q) ∨
      ∃ q es, parserPass p = .again q es ∧ Leads p es q ∧ Aligned q.buf := by
  rcases header_cases p.buf with hb | ⟨b0, t, hb, hne⟩ | ⟨_, hlen, hw⟩ | ⟨b1, b2, t, hb⟩
  · have hlen : p.buf.length < 3 := by simp [hb]
    exact .inl ⟨_, parserPass_short hlen, leads_need p 0,
      by rw [hb]; rfl, (needOf_short hlen).symm⟩
  · rcases h with h | h
    · rw [h] at hb
      cases hb
    · rw [hb, List.head?_cons] at h
      exact absurd (Option.some.inj h) hne
  · exact .inl ⟨_, parserPass_short hlen, leads_need p 0, hw, (needOf_short hlen).symm⟩
  · have hj := rtcmJudge_header b1 b2 t
    have hneed : needOf p.buf = frameNeed b1 b2 := by rw [hb]; rfl
    rw [← hb] at hj
    rw [parserPass_header hb]
    by_cases hres : b1 &&& 0xFC ≠ 0
    · rw [if_pos hres] at hj ⊢
      exact .inr ⟨_, _, rfl, leads_hunt_one hb hj p.need, aligned_hunt _ 1⟩
    · rw [if_neg hres] at hj ⊢
      by_cases hlen : p.buf.length < frameNeed b1 b2
      · rw [if_pos hlen] at hj ⊢
        exact .inl ⟨_, rfl, leads_need p _, hj, hneed.symm⟩
      · rw [if_neg hlen] at hj ⊢
        by_cases hcrc : rtcmCrc24q (p.buf.take (frameNeed b1 b2 - 3)) =
            wantCrc p.buf (frameNeed b1 b2)
        · rw [if_pos hcrc] at hj ⊢
          exact .inr ⟨_, _, rfl, leads_consume hj, aligned_consume _ _⟩
        · rw [if_neg hcrc] at hj ⊢
          exact .inr ⟨_, _, rfl, leads_hunt_one hb hj (frameNeed b1 b2), aligned_hunt _ 1⟩

/-- **`parser_process` scans the buffer.** -/
theorem parserProcess_eq (p : RtcmParser) (h : Aligned p.buf) :
    parserProcess p = (digest p, emissions p) := by
  induction hlen : p.buf.length using Nat.strongRecOn generalizing p with
  | ind m ih =>
    subst hlen
    rcases parserPass_spec h with ⟨q, hq, hl, hd⟩ | ⟨q, es, hq, hl, ha⟩
    · rw [parserProcess_done hq, hl.1, hl.2, hd.digest_eq, hd.emissions_eq, List.append_nil]
    · have hrec := ih q.buf.length (parserPass_again_lt hq) q ha rfl
      rw [parserProcess_again hq, hrec, hl.1, hl.2]

/-! ### Topping up -/

theorem Leads.refl (p : RtcmParser) : Leads p [] p := ⟨rfl, rfl⟩

/-- Bytes that come after what is buffered are scanned from where the buffer's scan ends. -/
theorem leads_over (p : RtcmParser) (data : List UInt8) :
    Leads (p.over data) (emissions p) ((digest p).over data) := by
  apply leads_of_tokens (scan rtcmFraming p.buf).1 (scan_append rtcmFraming p.buf data)
  have hover : p.over data = p.hold (p.buf ++ data) p.need := rfl
  rw [hover, foldl_credit_hold]
  rfl

theorem rtcmJudge_short {l : List UInt8} (hhead : l.head? = some preamble) (hlen : l.length < 3) :
    rtcmJudge l = .wait := by
  rcases header_cases l with rfl | ⟨b0, t, rfl, hb⟩ | ⟨_, _, hw⟩ | ⟨b1, b2, t, rfl⟩
  · rfl
  · exact absurd (Option.some.inj hhead) hb
  · exact hw
  · simp only [List.length_cons] at hlen
    omega

/-- What waiting means: nothing buffered, or a preamble and less than a header, or a header with clear
reserved bits and less than its frame. -/
theorem Digested.cases {p : RtcmParser} (h : Digested p) :
    p.buf = [] ∨ (p.buf.head? = some preamble ∧ p.buf.length < 3) ∨
      ∃ b1 b2 t, p.buf = preamble :: b1 :: b2 :: t ∧ b1 &&& 0xFC = 0 ∧
        p.need = frameNeed b1 b2 ∧ p.buf.length < p.need := by
  rcases header_cases p.buf with hb | ⟨b0, t, hb, hne⟩ | ⟨hhead, hlen, _⟩ | ⟨b1, b2, t, hb⟩
  · exact .inl hb
  · have := h.waits
    rw [hb, rtcmJudge_garbage hne] at this
    cases this
  · exact .inr (.inl ⟨hhead, hlen⟩)
  · have hj := h.waits
    have hneed : p.need = frameNeed b1 b2 := by rw [h.need_eq, hb]; rfl
    rw [hb, rtcmJudge_header] at hj
    split at hj
    · cases hj
    · rename_i hres
      split at hj
      · rename_i hlen
        exact .inr (.inr ⟨b1, b2, t, hb, by simpa using hres, hneed, by rw [hb, hneed]; exact hlen⟩)
      · split at hj <;> cases hj

theorem Digested.lt_target {p : RtcmParser} (h : Digested p) : p.buf.length < p.target := by
  unfold RtcmParser.target
  rcases h.cases with hb | ⟨_, hlen⟩ | ⟨b1, b2, t, hb, _, _, hlt⟩
  · simp [hb]
  · rw [if_pos hlen]
    exact hlen
  · have : ¬ p.buf.length < 3 := by
      simp only [hb, List.length_cons]
      omega
    rw [if_neg this]
    exact hlt

theorem Digested.head {p : RtcmParser} (h : Digested p) (hne : p.buf ≠ []) :
    p.buf.head? = some preamble := by
  rcases h.cases with hb | ⟨hhead, _⟩ | ⟨b1, b2, t, hb, _⟩
  · exact absurd hb hne
  · exact hhead
  · rw [hb]
    rfl

/-- Short of the decision point the parser goes on waiting. -/
theorem Digested.over {p : RtcmParser} (h : Digested p) (hne : p.buf ≠ []) {data : List UInt8}
    (hlt : (p.over data).buf.length < p.target) : Digested (p.over data) := by
  have hhead : (p.buf ++ data).head? = some preamble := by
    rw [List.head?_append_of_ne_nil _ hne, h.head hne]
  simp only [RtcmParser.over] at hlt
  rcases h.cases with hb | ⟨_, hlen⟩ | ⟨b1, b2, t, hb, hres, hneed, hlen⟩
  · exact absurd hb hne
  · rw [RtcmParser.target, if_pos hlen] at hlt
    refine ⟨rtcmJudge_short hhead hlt, ?_⟩
    rw [RtcmParser.over, h.need_eq, needOf_short hlen, needOf_short hlt]
  · have h3 : ¬ p.buf.length < 3 := by
      simp only [hb, List.length_cons]
      omega
    rw [RtcmParser.target, if_neg h3, hneed, hb] at hlt
    have hlt' : (preamble :: b1 :: b2 :: (t ++ data)).length < frameNeed b1 b2 := hlt
    constructor
    · simp only [RtcmParser.over, hb, List.cons_append]
      rw [rtcmJudge_header, if_neg (by simpa using hres), if_pos hlt']
    · simp only [RtcmParser.over, hb, hneed]
      rfl

/-- **Topping up.**  It leaves a digested parser, takes a byte when there is one, and loses nothing. -/
theorem topUp_spec {p : RtcmParser} (h : Digested p) (hne : p.buf ≠ []) (data : List UInt8) :
    Digested (topUp p data).1 ∧ (topUp p data).2.1.length ≤ data.length - 1 ∧
      Leads (p.over data) (topUp p data).2.2 ((topUp p data).1.over (topUp p data).2.1) := by
  have hlt := h.lt_target
  unfold topUp
  dsimp only
  set take := min (p.target - p.buf.length) data.length with htake
  have hlen : (data.drop take).length ≤ data.length - 1 := by
    rw [List.length_drop]
    omega
  have hsplit : p.over data = (p.over (data.take take)).over (data.drop take) := by
    simp [RtcmParser.over]
  have hqlen : (p.over (data.take take)).buf.length = p.buf.length + take := by
    simp only [RtcmParser.over, List.length_append, List.length_take]
    omega
  split
  · have hal : Aligned (p.over (data.take take)).buf :=
      .inr (by rw [RtcmParser.over, List.head?_append_of_ne_nil _ hne, h.head hne])
    rw [parserProcess_eq _ hal]
    exact ⟨digested_digest _, hlen, by rw [hsplit]; exact leads_over _ _⟩
  · rename_i hneq
    -- the input ran out first
    refine ⟨h.over hne (by omega), hlen, ?_⟩
    rw [hsplit]
    exact Leads.refl _

/-! ### Feeding -/

/-- With nothing buffered, hunting in the input is hunting in the buffer. -/
theorem hunt_input {p : RtcmParser} (h : Digested p) (hb : p.buf = []) (data : List UInt8) :
    parserHuntInBuf (p.over data) 0 =
      { p with
        buf := data.dropWhile (· ≠ preamble)
        bytesDiscarded := p.bytesDiscarded +
          (data.length - (data.dropWhile (· ≠ preamble)).length) } := by
  have hneed : p.need = 0 := by rw [h.need_eq, hb]; rfl
  simp only [parserHuntInBuf, RtcmParser.over, hb, hneed, List.nil_append, List.drop_zero]

/-- **One round of `rtcm_parser_feed`.**  The parser it leaves is digested, it has taken a byte, and
nothing is lost. -/
theorem feedPass_spec {p : RtcmParser} (h : Digested p) {data : List UInt8} (hd : data ≠ []) :
    Digested (feedPass p data).1 ∧ (feedPass p data).2.1.length < data.length ∧
      Leads (p.over data) (feedPass p data).2.2
        ((feedPass p data).1.over (feedPass p data).2.1) := by
  have hpos := List.length_pos_of_ne_nil hd
  unfold feedPass
  by_cases hb : p.buf = []
  · rw [if_pos hb]
    have hneed : p.need = 0 := by rw [h.need_eq, hb]; rfl
    have hhunt := leads_hunt_zero (p.over data)
    rw [hunt_input h hb] at hhunt
    have hal := aligned_dropWhile data
    have hle := (List.dropWhile_suffix (fun b => decide (b ≠ preamble)) (l := data)).length_le
    dsimp only at hhunt ⊢
    generalize data.dropWhile (· ≠ preamble) = found at hhunt hal hle ⊢
    cases found with
    | nil =>
        refine ⟨⟨by rw [hb]; rfl, by rw [hb]; exact hneed⟩, hpos, ?_⟩
        simpa only [RtcmParser.over, hb, List.append_nil] using hhunt
    | cons b rest =>
        have hpre : b = preamble := by
          rcases hal with hal | hal
          · cases hal
          · exact Option.some.inj hal
        subst hpre
        simp only [List.length_cons] at hle
        set q : RtcmParser := { p with
          buf := [preamble]
          bytesDiscarded := p.bytesDiscarded + (data.length - (preamble :: rest).length) } with hq
        obtain ⟨hdig, hlen, hlead⟩ := topUp_spec (p := q) ⟨rfl, hneed⟩ (by simp [hq]) rest
        exact ⟨hdig, Nat.lt_of_le_of_lt hlen (by omega), hhunt.trans hlead⟩
  · rw [if_neg hb]
    obtain ⟨hdig, hlen, hlead⟩ := topUp_spec h hb data
    exact ⟨hdig, by omega, hlead⟩

/-- **Any call of `rtcm_parser_feed`.**  One round for each byte is enough, and the rounds end where the
scan of the buffered and the new bytes ends. -/
theorem feedLoop_eq {fuel : ℕ} {p : RtcmParser} (h : Digested p) {data : List UInt8}
    (hf : data.length ≤ fuel) :
    feedLoop fuel p data = some (digest (p.over data), emissions (p.over data)) := by
  induction fuel generalizing p data with
  | zero =>
      rw [List.eq_nil_of_length_eq_zero (Nat.le_zero.mp hf)]
      have hover : p.over [] = p := by simp [RtcmParser.over]
      rw [hover, h.digest_eq, h.emissions_eq]
      rfl
  | succ fuel ih =>
      cases data with
      | nil =>
          have hover : p.over [] = p := by simp [RtcmParser.over]
          rw [hover, h.digest_eq, h.emissions_eq]
          rfl
      | cons b data =>
          obtain ⟨hdig, hlen, hdone, hemit⟩ := feedPass_spec h (List.cons_ne_nil b data)
          rw [feedLoop, ih hdig (by omega), hdone, hemit]
          rfl

/-! ### Parsers that are never stuck -/

/-- A parser as every call leaves it. -/
abbrev Parser := { p : RtcmParser // Digested p }

namespace Parser

def init : Parser := ⟨rtcmParserInit, digested_init⟩

/-- `rtcm_parser_feed` on a digested parser: it returns. -/
def feed (p : Parser) (data : List UInt8) : Parser × List Emission :=
  match h : rtcmParserFeed p.1 data with
  | some r => (⟨r.1, by
      rw [rtcmParserFeed, feedLoop_eq p.2 (Nat.le_refl _)] at h
      cases h
      exact digested_digest _⟩, r.2)
  | none => (p, [])

theorem feed_eq (p : Parser) (data : List UInt8) :
    rtcmParserFeed p.1 data = some ((p.feed data).1.1, (p.feed data).2) := by
  have hsome := feedLoop_eq p.2 (Nat.le_refl data.length)
  unfold feed
  split
  · rename_i h
    exact h
  · rename_i h
    rw [rtcmParserFeed, hsome] at h
    cases h

theorem feed_val (p : Parser) (data : List UInt8) : (p.feed data).1.1 = digest (p.1.over data) := by
  have h := p.feed_eq data
  rw [rtcmParserFeed, feedLoop_eq p.2 (Nat.le_refl _)] at h
  exact (congrArg Prod.fst (Option.some.inj h)).symm

theorem feed_emissions (p : Parser) (data : List UInt8) :
    (p.feed data).2 = emissions (p.1.over data) := by
  have h := p.feed_eq data
  rw [rtcmParserFeed, feedLoop_eq p.2 (Nat.le_refl _)] at h
  exact (congrArg Prod.snd (Option.some.inj h)).symm

end Parser

/-- **Chunking is invisible.**  However the stream is cut into calls, the parser ends in the state and
makes the callbacks of one scan. -/
theorem feedChunks_eq {p : RtcmParser} (h : Digested p) (cs : List (List UInt8)) :
    feedChunks p cs = some (digest (p.over cs.flatten), emissions (p.over cs.flatten)) := by
  induction cs generalizing p with
  | nil =>
      have hover : p.over [] = p := by simp [RtcmParser.over]
      rw [List.flatten_nil, hover, h.digest_eq, h.emissions_eq]
      rfl
  | cons c cs ih =>
      have hsplit : p.over (c :: cs).flatten = (p.over c).over cs.flatten := by
        simp [RtcmParser.over]
      obtain ⟨hdone, hemit⟩ := leads_over (p.over c) cs.flatten
      rw [feedChunks, rtcmParserFeed, feedLoop_eq h (Nat.le_refl _)]
      simp only [Option.bind_eq_bind, Option.bind_some, ih (digested_digest _), Option.pure_def]
      rw [hsplit, hdone, hemit]

end RtkdataFw.TxCore
