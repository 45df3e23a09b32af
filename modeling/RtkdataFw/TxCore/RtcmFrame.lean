import RtkdataFw.TxCore.ParserSpec

/-!
# Well-formed RTCM3 frames

`RtcmFrame` is a frame taken apart, with its reserved bits, its length field and its bitwise CRC-24Q as
fields; `IsRtcmFrame` says that bytes spell one.

* `rtcmJudge_eq_frame_iff` — the frames the parser's scan cuts out are exactly these;
* `resync_finds_frame` — no frame of the stream is lost but to a frame emitted over its start, and the
  delay is at most the longest frame;
* `parser_sound` — what is emitted are frames standing in the stream, and every byte is accounted for
  once.
-/

namespace RtkdataFw.TxCore

open RtkdataFw.Lib.Resync

/-- A frame in its parts: preamble, six reserved bits and a ten-bit length, payload, checksum. -/
structure RtcmFrame where
  b1 : UInt8
  b2 : UInt8
  payload : List UInt8
  c2 : UInt8
  c1 : UInt8
  c0 : UInt8
  reserved : b1.toNat < 4
  length_eq : payload.length = b1.toNat * 256 + b2.toNat
  crc_eq : (crc24qBitwise (preamble :: b1 :: b2 :: payload)).toNat =
    c2.toNat * 65536 + c1.toNat * 256 + c0.toNat

def RtcmFrame.bytes (f : RtcmFrame) : List UInt8 :=
  preamble :: f.b1 :: f.b2 :: f.payload ++ [f.c2, f.c1, f.c0]

def IsRtcmFrame (l : List UInt8) : Prop := ∃ f : RtcmFrame, f.bytes = l

theorem RtcmFrame.length_bytes (f : RtcmFrame) : f.bytes.length = f.payload.length + 6 := by
  simp [RtcmFrame.bytes]

theorem IsRtcmFrame.length_bounds {l : List UInt8} (h : IsRtcmFrame l) :
    6 ≤ l.length ∧ l.length ≤ rtcmMaxFrameB := by
  obtain ⟨f, rfl⟩ := h
  have h1 := f.reserved
  have h2 := f.b2.toNat_lt
  have h3 := f.length_eq
  rw [f.length_bytes, rtcmMaxFrameB]
  omega

/-! ### The header and the checksum bytes as numbers -/

theorem reserved_iff (b1 : UInt8) : b1 &&& 0xFC = 0 ↔ b1.toNat < 4 := by
  have hall : ∀ n < 256, (n &&& 252 = 0 ↔ n < 4) := by decide +kernel
  rw [← UInt8.toNat_inj, UInt8.toNat_and]
  exact hall b1.toNat b1.toNat_lt

theorem frameNeed_eq {b1 : UInt8} (h : b1.toNat < 4) (b2 : UInt8) :
    frameNeed b1 b2 = b1.toNat * 256 + b2.toNat + 6 := by
  have hlow : (b1 &&& 0x03).toNat = b1.toNat := by
    rw [UInt8.toNat_and]
    exact Nat.and_two_pow_sub_one_of_lt_two_pow (n := 2) h
  rw [frameNeed, hlow, ← Nat.shiftLeft_add_eq_or_of_lt (i := 8) b2.toNat_lt, Nat.shiftLeft_eq]

/-- The three last bytes as the code joins them. -/
theorem wantCrc_concat (body : List UInt8) (c2 c1 c0 : UInt8) :
    wantCrc (body ++ [c2, c1, c0]) (body.length + 3) =
      c2.toUInt32 <<< 16 ||| c1.toUInt32 <<< 8 ||| c0.toUInt32 := by
  have hget : ∀ i < 3, (body ++ [c2, c1, c0]).getD (body.length + i) 0 = [c2, c1, c0].getD i 0 := by
    intro i _
    rw [List.getD_append_right _ _ _ _ (Nat.le_add_right _ _), Nat.add_sub_cancel_left]
  unfold wantCrc
  rw [show body.length + 3 - 3 = body.length + 0 by omega,
    show body.length + 3 - 2 = body.length + 1 by omega,
    show body.length + 3 - 1 = body.length + 2 by omega,
    hget 0 (by decide), hget 1 (by decide), hget 2 (by decide)]
  simp only [List.getD_cons_zero, List.getD_cons_succ]

theorem wantCrc_toNat (body : List UInt8) (c2 c1 c0 : UInt8) :
    (wantCrc (body ++ [c2, c1, c0]) (body.length + 3)).toNat =
      c2.toNat * 65536 + c1.toNat * 256 + c0.toNat := by
  have h2 := c2.toNat_lt
  have h1 := c1.toNat_lt
  have h0 := c0.toNat_lt
  rw [wantCrc_concat]
  simp only [UInt32.toNat_or, UInt32.toNat_shiftLeft, UInt8.toNat_toUInt32]
  have hs2 : c2.toNat <<< (UInt32.toNat 16 % 32) % 2 ^ 32 = c2.toNat <<< 16 := by
    rw [Nat.shiftLeft_eq, Nat.shiftLeft_eq]
    exact Nat.mod_eq_of_lt (by show c2.toNat * 2 ^ 16 < 2 ^ 32; omega)
  have hs1 : c1.toNat <<< (UInt32.toNat 8 % 32) % 2 ^ 32 = c1.toNat <<< 8 := by
    rw [Nat.shiftLeft_eq, Nat.shiftLeft_eq]
    exact Nat.mod_eq_of_lt (by show c1.toNat * 2 ^ 8 < 2 ^ 32; omega)
  have hhigh : c2.toNat <<< 16 + c1.toNat <<< 8 = (c2.toNat * 256 + c1.toNat) <<< 8 := by
    simp only [Nat.shiftLeft_eq]
    omega
  rw [hs2, hs1, ← Nat.shiftLeft_add_eq_or_of_lt (by rw [Nat.shiftLeft_eq]; omega), hhigh,
    ← Nat.shiftLeft_add_eq_or_of_lt h0, Nat.shiftLeft_eq]
  omega

/-! ### The scan accepts exactly the well-formed frames -/

/-- The verdict on a header with clear reserved bits and all the bytes it asks for. -/
theorem rtcmJudge_whole {b1 b2 : UInt8} (hres : b1.toNat < 4) {payload : List UInt8}
    (hlen : payload.length = b1.toNat * 256 + b2.toNat) (c2 c1 c0 : UInt8) :
    rtcmJudge (preamble :: b1 :: b2 :: payload ++ [c2, c1, c0]) =
      if (crc24qBitwise (preamble :: b1 :: b2 :: payload)).toNat =
          c2.toNat * 65536 + c1.toNat * 256 + c0.toNat then
        .frame (payload.length + 6)
      else .skip .crc := by
  have hneed : frameNeed b1 b2 = (preamble :: b1 :: b2 :: payload).length + 3 := by
    rw [frameNeed_eq hres, ← hlen]
    rfl
  have htake : (preamble :: b1 :: b2 :: payload ++ [c2, c1, c0]).take (frameNeed b1 b2 - 3) =
      preamble :: b1 :: b2 :: payload := by
    rw [hneed, Nat.add_sub_cancel]
    exact List.take_left
  have hcrc : rtcmCrc24q ((preamble :: b1 :: b2 :: payload ++ [c2, c1, c0]).take
        (frameNeed b1 b2 - 3)) =
      wantCrc (preamble :: b1 :: b2 :: payload ++ [c2, c1, c0]) (frameNeed b1 b2) ↔
      (crc24qBitwise (preamble :: b1 :: b2 :: payload)).toNat =
        c2.toNat * 65536 + c1.toNat * 256 + c0.toNat := by
    rw [htake, rtcmCrc24q_eq_bitwise, ← UInt32.toNat_inj, hneed, wantCrc_toNat]
  have hres' : ¬ b1 &&& 0xFC ≠ 0 := not_not.mpr ((reserved_iff b1).mpr hres)
  have hfull : ¬ (preamble :: b1 :: b2 :: (payload ++ [c2, c1, c0])).length < frameNeed b1 b2 := by
    simp only [hneed, List.length_append, List.length_cons, List.length_nil]
    omega
  have hj := rtcmJudge_header b1 b2 (payload ++ [c2, c1, c0])
  rw [if_neg hres', if_neg hfull] at hj
  refine hj.trans (if_congr hcrc ?_ rfl)
  rw [hneed]
  rfl

/-- **The frames of the scan are the well-formed ones.** -/
theorem rtcmJudge_eq_frame_iff (l : List UInt8) : rtcmJudge l = .frame l.length ↔ IsRtcmFrame l := by
  constructor
  · intro h
    obtain ⟨b1, b2, t, rfl, hres, hn, _, _⟩ := rtcmJudge_frame h
    rw [reserved_iff] at hres
    rw [frameNeed_eq hres] at hn
    simp only [List.length_cons] at hn
    obtain ⟨c2, c1, c0, hcrc⟩ := List.length_eq_three.mp
      (show (t.drop (b1.toNat * 256 + b2.toNat)).length = 3 by rw [List.length_drop]; omega)
    have hlen : (t.take (b1.toNat * 256 + b2.toNat)).length = b1.toNat * 256 + b2.toNat := by
      rw [List.length_take]
      omega
    have ht : t = t.take (b1.toNat * 256 + b2.toNat) ++ [c2, c1, c0] := by
      rw [← hcrc, List.take_append_drop]
    generalize t.take (b1.toNat * 256 + b2.toNat) = payload at hlen ht
    subst ht
    have hj := rtcmJudge_whole hres hlen c2 c1 c0
    simp only [List.cons_append] at hj
    rw [hj] at h
    split at h
    · rename_i hcrc
      exact ⟨⟨b1, b2, payload, c2, c1, c0, hres, hlen, hcrc⟩, rfl⟩
    · cases h
  · intro h
    obtain ⟨f, rfl⟩ := h
    rw [f.length_bytes, RtcmFrame.bytes, rtcmJudge_whole f.reserved f.length_eq, if_pos f.crc_eq]

/-- The scan never holds back a whole frame's worth of bytes. -/
theorem length_lt_of_wait {l : List UInt8} (h : rtcmJudge l = .wait) : l.length < rtcmMaxFrameB := by
  rcases header_cases l with rfl | ⟨b0, t, rfl, hb⟩ | ⟨_, hlen, _⟩ | ⟨b1, b2, t, rfl⟩
  · decide
  · rw [rtcmJudge_garbage hb] at h
    cases h
  · exact hlen.trans (by decide)
  · rw [rtcmJudge_header] at h
    split at h
    · cases h
    · split at h
      · rename_i hlt
        exact hlt.trans_le (frameNeed_le b1 b2)
      · split at h <;> cases h

/-! ### What a freshly initialised parser emits -/

theorem feedChunks_init (cs : List (List UInt8)) :
    feedChunks rtcmParserInit cs =
      some (digest (rtcmParserInit.over cs.flatten),
        place 0 (scan rtcmFraming cs.flatten).1) :=
  feedChunks_eq digested_init cs

/-- Every callback of a parser in use is on a well-formed frame. -/
theorem isRtcmFrame_of_mem_emissions {p : RtcmParser} {e : Emission} (he : e ∈ emissions p) :
    IsRtcmFrame e.2 :=
  (rtcmJudge_eq_frame_iff e.2).mp (judge_of_mem rtcmFraming (mem_of_mem_place he))

/-- **Resynchronisation.**  A well-formed frame `f` at position `k` of the stream has been emitted, or a
frame emitted from before `k` runs over its start, once `f` and 1028 bytes from `k` on have been fed. -/
theorem resync_finds_frame (cs : List (List UInt8)) (k : ℕ) (f : List UInt8) (hf : IsRtcmFrame f)
    (hk : f <+: cs.flatten.drop k) (hlen : k + 1028 ≤ cs.flatten.length) :
    ∃ p es, feedChunks rtcmParserInit cs = some (p, es) ∧
      ((∃ e ∈ es, e.1 < k ∧ k < e.1 + e.2.length) ∨ (k, f) ∈ es) := by
  refine ⟨_, _, feedChunks_init cs, ?_⟩
  have htake : (cs.flatten.drop k).take f.length = f := (List.prefix_iff_eq_take.mp hk).symm
  have hframe : rtcmFraming.judge ((cs.flatten.drop k).take f.length) = .frame f.length := by
    rw [htake]
    exact (rtcmJudge_eq_frame_iff f).mpr hf
  have hfind := scan_finds rtcmFraming (fun l => length_lt_of_wait) cs.flatten hframe
    (by rw [rtcmMaxFrameB]; omega)
  rwa [htake] at hfind

/-- The frame without payload. -/
def emptyFrame : RtcmFrame where
  b1 := 0
  b2 := 0
  payload := []
  c2 := 0x47
  c1 := 0xEA
  c0 := 0x4B
  reserved := by decide
  length_eq := rfl
  crc_eq := by decide +kernel

/-- A false preamble right before a frame, then zeros. -/
theorem resync_finds_emptyFrame :
    ∃ p es, feedChunks rtcmParserInit [[0xD3], emptyFrame.bytes, List.replicate 1022 0] =
      some (p, es) ∧
        ((∃ e ∈ es, e.1 < 1 ∧ 1 < e.1 + e.2.length) ∨ (1, emptyFrame.bytes) ∈ es) :=
  resync_finds_frame [[0xD3], emptyFrame.bytes, List.replicate 1022 0] 1 emptyFrame.bytes
    ⟨emptyFrame, rfl⟩ (List.prefix_append emptyFrame.bytes (List.replicate 1022 0 ++ []))
    (by simp only [List.flatten_cons, List.flatten_nil, List.length_append, List.length_replicate,
          emptyFrame.length_bytes, List.length_cons, List.length_nil]; decide)

/-- The counters after crediting tokens: frames, their bytes, and the rest. -/
theorem foldl_credit_frames (ts : List Tok) (p : RtcmParser) (off : ℕ) :
    (ts.foldl credit p).framesOk = p.framesOk + (place off ts).length ∧
      (ts.foldl credit p).bytesOk =
        p.bytesOk + ((place off ts).map fun e => e.2.length).sum := by
  induction ts generalizing p off with
  | nil => exact ⟨rfl, rfl⟩
  | cons t ts ih =>
      cases t with
      | junk r b => exact ih (credit p (.junk r b)) (off + 1)
      | frame f =>
          obtain ⟨hframes, hbytes⟩ := ih (credit p (.frame f)) (off + f.length)
          rw [List.foldl_cons, hframes, hbytes]
          simp only [credit, place, List.length_cons, List.map_cons, List.sum_cons]
          omega

/-- **Soundness and byte balance.**  The frames emitted are pieces of the stream, disjoint, in stream
order and well formed; the counters count them; and every byte fed is in a frame, discarded, or still
buffered. -/
theorem parser_sound (cs : List (List UInt8)) :
    ∃ p es, feedChunks rtcmParserInit cs = some (p, es) ∧
      es.Pairwise (fun e e' => e.1 + e.2.length ≤ e'.1) ∧
      (∀ e ∈ es, (cs.flatten.drop e.1).take e.2.length = e.2 ∧ IsRtcmFrame e.2 ∧
        6 ≤ e.2.length ∧ e.2.length ≤ 1029) ∧
      p.framesOk = es.length ∧ p.bytesOk = (es.map fun e => e.2.length).sum ∧
      p.bytesOk + p.bytesDiscarded + p.buf.length = cs.flatten.length ∧
      p.buf = cs.flatten.drop (cs.flatten.length - p.buf.length) := by
  have hcount := foldl_credit_frames (scan rtcmFraming cs.flatten).1
    (rtcmParserInit.over cs.flatten) 0
  have hoff := foldl_credit_offset (scan rtcmFraming cs.flatten).1 (rtcmParserInit.over cs.flatten)
  have hwidth := width_scan rtcmFraming cs.flatten
  refine ⟨_, _, feedChunks_init cs, place_pairwise _ _, ?_, ?_, ?_, ?_, ?_⟩
  · intro e he
    have hframe : IsRtcmFrame e.2 :=
      (rtcmJudge_eq_frame_iff e.2).mp (judge_of_mem rtcmFraming (mem_of_mem_place he))
    exact ⟨scan_place_sound rtcmFraming he, hframe, hframe.length_bounds⟩
  · exact hcount.1.trans (Nat.zero_add _)
  · exact hcount.2.trans (Nat.zero_add _)
  · have hsum : (digest (rtcmParserInit.over cs.flatten)).offset =
        width (scan rtcmFraming cs.flatten).1 := hoff.trans (Nat.zero_add _)
    rw [RtcmParser.offset] at hsum
    rw [hsum]
    exact hwidth
  · exact List.suffix_iff_eq_drop.mp (rest_suffix rtcmFraming cs.flatten)

end RtkdataFw.TxCore
