import RtkdataFw.TxCore.RtcmFrame

/-!
# Streams through the RTCM3 parser

* `chunking_invisible` — from any state the parser can be in, only the bytes matter, not the calls they come
  in;
* `rtcmEncode` — the encoder of the host tests, for a payload of any bytes;
* `isRtcmFrame_iff_encode` — the well-formed frames are the encodings of the payloads of at most 1023 bytes;
* `encoded_stream_passes` — a stream of encodings comes out frame by frame, with nothing discarded and
  nothing held back.
-/

namespace RtkdataFw.TxCore

open RtkdataFw.Lib.Resync

/-! ### Chunks -/

/-- What has been fed so far leaves a digested parser. -/
theorem digested_of_feedChunks {ds : List (List UInt8)} {p : RtcmParser} {es : List Emission}
    (h : feedChunks rtcmParserInit ds = some (p, es)) : Digested p := by
  rw [feedChunks_eq digested_init] at h
  cases h
  exact digested_digest _

/-- **Chunking is invisible.**  After any calls `ds` since `rtcm_parser_init`, the same bytes in other calls
give the same frames and the same parser. -/
theorem chunking_invisible {ds cs cs' : List (List UInt8)} {p : RtcmParser} {es₀ : List Emission}
    (hp : feedChunks rtcmParserInit ds = some (p, es₀)) (hsame : cs.flatten = cs'.flatten) :
    ∃ q es, feedChunks p cs = some (q, es) ∧ feedChunks p cs' = some (q, es) := by
  have hdigested := digested_of_feedChunks hp
  refine ⟨_, _, feedChunks_eq hdigested cs, ?_⟩
  rw [hsame]
  exact feedChunks_eq hdigested cs'

/-- The rest of a frame after its preamble, in three calls and in two. -/
theorem chunking_invisible_emptyFrame :
    ∃ q es, feedChunks ⟨[0xD3], 0, 0, 0, 0, 0⟩ [[0x00], [0x00, 0x47], [0xEA, 0x4B]] = some (q, es) ∧
      feedChunks ⟨[0xD3], 0, 0, 0, 0, 0⟩ [[0x00, 0x00, 0x47, 0xEA, 0x4B], []] = some (q, es) :=
  chunking_invisible (show feedChunks rtcmParserInit [[0xD3]] = some (_, []) by decide) rfl

/-! ### The encoder -/

/-- The preamble, the ten bits of the length and the payload. -/
def rtcmBody (payload : List UInt8) : List UInt8 :=
  preamble :: UInt8.ofNat (payload.length >>> 8 &&& 0x03) :: UInt8.ofNat (payload.length &&& 0xFF) :: payload

/-- `make_frame`, for a payload of any bytes. -/
def rtcmEncode (payload : List UInt8) : List UInt8 :=
  let crc := crc24qBitwise (rtcmBody payload)
  rtcmBody payload ++ [(crc >>> 16).toUInt8, (crc >>> 8).toUInt8, crc.toUInt8]

def rtcmMaxPayloadB : ℕ := 1023

theorem crc24qBitwise_lt (data : List UInt8) : (crc24qBitwise data).toNat < 2 ^ 24 := by
  rw [← rtcmCrc24q_eq_bitwise]
  exact rtcmCrc24q_lt data

theorem crc_bytes {crc : UInt32} (h : crc.toNat < 2 ^ 24) :
    crc.toNat = (crc >>> 16).toUInt8.toNat * 65536 + (crc >>> 8).toUInt8.toNat * 256 +
      crc.toUInt8.toNat := by
  simp only [UInt32.toNat_toUInt8, UInt32.toNat_shiftRight]
  have h16 : crc.toNat >>> (UInt32.toNat 16 % 32) = crc.toNat / 65536 := Nat.shiftRight_eq_div_pow _ 16
  have h8 : crc.toNat >>> (UInt32.toNat 8 % 32) = crc.toNat / 256 := Nat.shiftRight_eq_div_pow _ 8
  rw [h16, h8]
  omega

/-- The two length bytes. -/
theorem header_bytes {n : ℕ} (h : n ≤ rtcmMaxPayloadB) :
    (UInt8.ofNat (n >>> 8 &&& 0x03)).toNat = n / 256 ∧ (UInt8.ofNat (n &&& 0xFF)).toNat = n % 256 := by
  rw [rtcmMaxPayloadB] at h
  have hhigh : n >>> 8 &&& 0x03 = n / 256 := by
    rw [Nat.shiftRight_eq_div_pow]
    exact Nat.and_two_pow_sub_one_of_lt_two_pow (n := 2) (by omega)
  have hlow : n &&& 0xFF = n % 256 := Nat.and_two_pow_sub_one_eq_mod n 8
  rw [hhigh, hlow, UInt8.toNat_ofNat', UInt8.toNat_ofNat']
  omega

theorem isRtcmFrame_encode {payload : List UInt8} (h : payload.length ≤ rtcmMaxPayloadB) :
    IsRtcmFrame (rtcmEncode payload) := by
  obtain ⟨hhigh, hlow⟩ := header_bytes h
  rw [rtcmMaxPayloadB] at h
  exact ⟨{
    b1 := _
    b2 := _
    payload := payload
    c2 := _
    c1 := _
    c0 := _
    reserved := by rw [hhigh]; omega
    length_eq := by rw [hhigh, hlow]; omega
    crc_eq := crc_bytes (crc24qBitwise_lt (rtcmBody payload)) }, rfl⟩

/-- The header bytes and the checksum of a frame are those of its payload. -/
theorem RtcmFrame.bytes_eq_encode (f : RtcmFrame) :
    f.payload.length ≤ rtcmMaxPayloadB ∧ f.bytes = rtcmEncode f.payload := by
  have hres := f.reserved
  have hb2 := f.b2.toNat_lt
  have hlen := f.length_eq
  have hmax : f.payload.length ≤ rtcmMaxPayloadB := by
    rw [rtcmMaxPayloadB]
    omega
  obtain ⟨hhigh, hlow⟩ := header_bytes hmax
  have h1 : UInt8.ofNat (f.payload.length >>> 8 &&& 0x03) = f.b1 := by
    rw [← UInt8.toNat_inj, hhigh]
    omega
  have h2 : UInt8.ofNat (f.payload.length &&& 0xFF) = f.b2 := by
    rw [← UInt8.toNat_inj, hlow]
    omega
  have hbody : rtcmBody f.payload = preamble :: f.b1 :: f.b2 :: f.payload := by rw [rtcmBody, h1, h2]
  have hcrc := crc_bytes (crc24qBitwise_lt (rtcmBody f.payload))
  have hc2 := f.c2.toNat_lt
  have hc1 := f.c1.toNat_lt
  have hc0 := f.c0.toNat_lt
  have hwant := f.crc_eq
  rw [← hbody] at hwant
  have hg1 := (crc24qBitwise (rtcmBody f.payload) >>> 8).toUInt8.toNat_lt
  have hg0 := (crc24qBitwise (rtcmBody f.payload)).toUInt8.toNat_lt
  refine ⟨hmax, ?_⟩
  have e2 : (crc24qBitwise (rtcmBody f.payload) >>> 16).toUInt8 = f.c2 := by
    rw [← UInt8.toNat_inj]
    omega
  have e1 : (crc24qBitwise (rtcmBody f.payload) >>> 8).toUInt8 = f.c1 := by
    rw [← UInt8.toNat_inj]
    omega
  have e0 : (crc24qBitwise (rtcmBody f.payload)).toUInt8 = f.c0 := by
    rw [← UInt8.toNat_inj]
    omega
  show preamble :: f.b1 :: f.b2 :: f.payload ++ [f.c2, f.c1, f.c0] = rtcmBody f.payload ++ [_, _, _]
  rw [e2, e1, e0, hbody]

/-- **The well-formed frames are the encodings.** -/
theorem isRtcmFrame_iff_encode (l : List UInt8) :
    IsRtcmFrame l ↔ ∃ payload, payload.length ≤ rtcmMaxPayloadB ∧ l = rtcmEncode payload := by
  constructor
  · intro h
    obtain ⟨f, rfl⟩ := h
    exact ⟨f.payload, f.bytes_eq_encode⟩
  · intro h
    obtain ⟨payload, hlen, rfl⟩ := h
    exact isRtcmFrame_encode hlen

/-! ### A stream of encodings -/

/-- Frames add to `frames_ok` and `bytes_ok` only. -/
theorem foldl_credit_only_frames (fs : List (List UInt8)) (p : RtcmParser) :
    ((fs.map Token.frame).foldl credit p).bytesDiscarded = p.bytesDiscarded ∧
      ((fs.map Token.frame).foldl credit p).crcErrors = p.crcErrors := by
  induction fs generalizing p with
  | nil => exact ⟨rfl, rfl⟩
  | cons f fs ih => exact ih (credit p (.frame f))

/-- **Well-formed streams pass through untouched.** -/
theorem encoded_stream_passes {payloads : List (List UInt8)}
    (hlen : ∀ payload ∈ payloads, payload.length ≤ rtcmMaxPayloadB) {cs : List (List UInt8)}
    (hcs : cs.flatten = (payloads.map rtcmEncode).flatten) :
    ∃ p es, feedChunks rtcmParserInit cs = some (p, es) ∧ es.map Prod.snd = payloads.map rtcmEncode ∧
      p.buf = [] ∧ p.bytesDiscarded = 0 ∧ p.crcErrors = 0 ∧ p.bytesOk = cs.flatten.length := by
  have hframes : ∀ f ∈ payloads.map rtcmEncode, rtcmFraming.judge f = .frame f.length := by
    intro f hf
    obtain ⟨payload, hmem, rfl⟩ := List.mem_map.mp hf
    exact (rtcmJudge_eq_frame_iff _).mpr (isRtcmFrame_encode (hlen payload hmem))
  have hscan : scan rtcmFraming cs.flatten = ((payloads.map rtcmEncode).map Token.frame, []) := by
    rw [hcs]
    exact scan_frames rtcmFraming hframes
  have hrest := foldl_credit_only_frames (payloads.map rtcmEncode) (rtcmParserInit.over cs.flatten)
  have hoff := foldl_credit_offset ((payloads.map rtcmEncode).map Token.frame)
    (rtcmParserInit.over cs.flatten)
  have hwidth := width_scan rtcmFraming cs.flatten
  rw [hscan, List.length_nil, Nat.add_zero] at hwidth
  have hdigest : digest (rtcmParserInit.over cs.flatten) =
      (((payloads.map rtcmEncode).map Token.frame).foldl credit (rtcmParserInit.over cs.flatten)).hold
        [] (needOf []) := by
    show (((scan rtcmFraming cs.flatten).1.foldl credit _).hold (scan rtcmFraming cs.flatten).2
      (needOf (scan rtcmFraming cs.flatten).2)) = _
    rw [hscan]
  refine ⟨_, _, feedChunks_init cs, ?_, ?_⟩
  · rw [hscan]
    exact map_snd_place_frames 0 _
  rw [hdigest]
  refine ⟨rfl, hrest.1, hrest.2, ?_⟩
  show (((payloads.map rtcmEncode).map Token.frame).foldl credit (rtcmParserInit.over cs.flatten)).bytesOk = _
  have hzero : (rtcmParserInit.over cs.flatten).offset = 0 := rfl
  have hdisc : (rtcmParserInit.over cs.flatten).bytesDiscarded = 0 := rfl
  rw [RtcmParser.offset, hrest.1, hdisc, hzero, hwidth] at hoff
  omega

/-- A frame without payload and one that holds a preamble, a frame a call. -/
theorem encoded_stream_passes_pair :
    ∃ p es, feedChunks rtcmParserInit ([[], [0xD3, 0x00]].map rtcmEncode) = some (p, es) ∧
      es.map Prod.snd = [[], [0xD3, 0x00]].map rtcmEncode ∧ p.buf = [] ∧ p.bytesDiscarded = 0 ∧
      p.crcErrors = 0 ∧ p.bytesOk = ([[], [0xD3, 0x00]].map rtcmEncode).flatten.length :=
  encoded_stream_passes (by decide) rfl

end RtkdataFw.TxCore
