import RtkdataFw.Lib.Json

/-!
# The heartbeat telemetry of `telemetry_json.c`

`telemetry_tx_json` prints one JSON member into a local buffer and copies it out only when the whole of it
fits.

* `telemetry_render` — the text in braces is the text of a JSON object;
* `telemetryText_length` — its worst case;
* `telemetry_lossless` — all of it or nothing, and every field reads back.
-/

namespace RtkdataFw.Heartbeat

open RtkdataFw.Lib

/-- `ntrip_tx_totals_t`, with the widths of its fields. -/
structure NtripTxTotals where
  framesOk : UInt64
  bytesOk : UInt64
  bytesDiscarded : UInt64
  crcErrors : UInt64
  acceptedToLwip : UInt64
  sentFrames : UInt64
  droppedBytes : UInt64
  skippedBytes : UInt64
  droppedStaleBytes : UInt64
  eagainCount : UInt64
  reconnects : UInt32
  maxQueueAgeMs : UInt32
  instances : UInt32
  connected : UInt32
  reqFresh : Bool
  reqMissing : UInt32
  deriving DecidableEq, Repr

/-- A piece of a format with its argument. -/
inductive Piece where
  | text (s : String)
  /-- `%llu`. -/
  | llu (x : UInt64)
  /-- `%lu`. -/
  | lu (x : UInt32)
  /-- `%s`. -/
  | str (s : String)

def Piece.bytes : Piece → List UInt8
  | .text s => ascii s
  | .llu x => decimal x.toNat
  | .lu x => decimal x.toNat
  | .str s => ascii s

def telemetryFormat (t : NtripTxTotals) (uartEventPostDrops : UInt32) : List Piece :=
  [.text "\"tx\":\x7b",
   .text "\"frames_ok\":", .llu t.framesOk, .text ",",
   .text "\"bytes_ok\":", .llu t.bytesOk, .text ",",
   .text "\"bytes_discarded\":", .llu t.bytesDiscarded, .text ",",
   .text "\"crc_errors\":", .llu t.crcErrors, .text ",",
   .text "\"accepted_to_lwip\":", .llu t.acceptedToLwip, .text ",",
   .text "\"sent_frames\":", .llu t.sentFrames, .text ",",
   .text "\"dropped_bytes\":", .llu t.droppedBytes, .text ",",
   .text "\"skipped_bytes\":", .llu t.skippedBytes, .text ",",
   .text "\"dropped_stale_bytes\":", .llu t.droppedStaleBytes, .text ",",
   .text "\"eagain\":", .llu t.eagainCount, .text ",",
   .text "\"reconnects\":", .lu t.reconnects, .text ",",
   .text "\"max_queue_age_ms\":", .lu t.maxQueueAgeMs, .text ",",
   .text "\"instances\":", .lu t.instances, .text ",",
   .text "\"connected\":", .lu t.connected, .text ",",
   .text "\"uart_event_post_drops\":", .lu uartEventPostDrops, .text ",",
   .text "\"req_fresh\":", .str (if t.reqFresh then "true" else "false"), .text ",",
   .text "\"req_missing\":", .lu t.reqMissing,
   .text "\x7d"]

/-- What the format prints. -/
def telemetryText (t : NtripTxTotals) (uartEventPostDrops : UInt32) : List UInt8 :=
  (telemetryFormat t uartEventPostDrops).flatMap Piece.bytes

def telemetryTxJsonMax : ℕ := 640

/-- `snprintf` into a buffer of `cap` bytes: what it returns, and what it writes. -/
def snprintf (cap : ℕ) (text : List UInt8) : ℕ × List UInt8 :=
  (text.length, if cap = 0 then [] else text.take (cap - 1) ++ [0])

/-- The destination: the memory from `dst` on, `cap` bytes of which the caller owns. -/
structure Dst where
  memory : List UInt8
  cap : ℕ
  fits : cap ≤ memory.length

/-- What it returns, and the memory from `dst` on afterwards. -/
def telemetryTxJson (dst : Dst) (t : NtripTxTotals) (uartEventPostDrops : UInt32) : ℤ × List UInt8 :=
  let (n, buf) := snprintf telemetryTxJsonMax (telemetryText t uartEventPostDrops)
  if n ≤ 0 ∨ n ≥ telemetryTxJsonMax then (-1, dst.memory)
  else if n ≥ dst.cap then (-1, dst.memory)
  else (n, buf.take (n + 1) ++ dst.memory.drop (n + 1))

/-! ### The JSON object -/

def txKey : Key := ⟨ascii "tx", List.all_eq_true.mp rfl⟩

/-- The member `tx`: seventeen fields under their names. -/
def telemetryMembers (t : NtripTxTotals) (uartEventPostDrops : UInt32) : List (Key × Json) :=
  [(⟨ascii "frames_ok", List.all_eq_true.mp rfl⟩, .num t.framesOk.toNat),
   (⟨ascii "bytes_ok", List.all_eq_true.mp rfl⟩, .num t.bytesOk.toNat),
   (⟨ascii "bytes_discarded", List.all_eq_true.mp rfl⟩, .num t.bytesDiscarded.toNat),
   (⟨ascii "crc_errors", List.all_eq_true.mp rfl⟩, .num t.crcErrors.toNat),
   (⟨ascii "accepted_to_lwip", List.all_eq_true.mp rfl⟩, .num t.acceptedToLwip.toNat),
   (⟨ascii "sent_frames", List.all_eq_true.mp rfl⟩, .num t.sentFrames.toNat),
   (⟨ascii "dropped_bytes", List.all_eq_true.mp rfl⟩, .num t.droppedBytes.toNat),
   (⟨ascii "skipped_bytes", List.all_eq_true.mp rfl⟩, .num t.skippedBytes.toNat),
   (⟨ascii "dropped_stale_bytes", List.all_eq_true.mp rfl⟩, .num t.droppedStaleBytes.toNat),
   (⟨ascii "eagain", List.all_eq_true.mp rfl⟩, .num t.eagainCount.toNat),
   (⟨ascii "reconnects", List.all_eq_true.mp rfl⟩, .num t.reconnects.toNat),
   (⟨ascii "max_queue_age_ms", List.all_eq_true.mp rfl⟩, .num t.maxQueueAgeMs.toNat),
   (⟨ascii "instances", List.all_eq_true.mp rfl⟩, .num t.instances.toNat),
   (⟨ascii "connected", List.all_eq_true.mp rfl⟩, .num t.connected.toNat),
   (⟨ascii "uart_event_post_drops", List.all_eq_true.mp rfl⟩, .num uartEventPostDrops.toNat),
   (⟨ascii "req_fresh", List.all_eq_true.mp rfl⟩, .bool t.reqFresh),
   (⟨ascii "req_missing", List.all_eq_true.mp rfl⟩, .num t.reqMissing.toNat)]

/-- The text in braces is the text of an object with the single member `tx`. -/
theorem telemetry_render (t : NtripTxTotals) (drops : UInt32) :
    Json.openBrace :: (telemetryText t drops ++ [Json.closeBrace]) =
      Json.render (.obj [(txKey, .obj (telemetryMembers t drops))]) := by
  have hfresh : ascii (if t.reqFresh then "true" else "false") = Json.boolText t.reqFresh := by
    cases t.reqFresh <;> rfl
  simp only [telemetryMembers, Json.render, Json.renderRest, telemetryText, telemetryFormat,
    List.flatMap_cons, List.flatMap_nil, Piece.bytes, List.append_assoc, List.cons_append, List.append_nil]
  rw [hfresh]
  rfl

/-! ### The length of the text -/

/-- The most bytes that a piece prints. -/
def Piece.width : Piece → ℕ
  | .text s => (ascii s).length
  | .llu _ => 20
  | .lu _ => 10
  | .str s => (ascii s).length

theorem Piece.length_le_width (p : Piece) : p.bytes.length ≤ p.width := by
  cases p with
  | text s => exact Nat.le_refl _
  | llu x =>
      have hlt := x.toNat_lt
      exact (decimal_length_le_iff (k := 20) (by decide)).mpr (by omega)
  | lu x =>
      have hlt := x.toNat_lt
      exact (decimal_length_le_iff (k := 10) (by decide)).mpr (by omega)
  | str s => exact Nat.le_refl _

theorem flatMap_length_le (ps : List Piece) :
    (ps.flatMap Piece.bytes).length ≤ (ps.map Piece.width).sum := by
  induction ps with
  | nil => exact Nat.le_refl _
  | cons p ps ih =>
      have hp := p.length_le_width
      rw [List.flatMap_cons, List.length_append, List.map_cons, List.sum_cons]
      omega

/-- All counters at zero. -/
def quietTotals (reqFresh : Bool) : NtripTxTotals :=
  ⟨0, 0, 0, 0, 0, 0, 0, 0, 0, 0, 0, 0, 0, 0, reqFresh, 0⟩

/-- The width of the format does not depend on the counters. -/
theorem telemetryFormat_width (t : NtripTxTotals) (drops : UInt32) :
    ((telemetryFormat t drops).map Piece.width).sum ≤ 639 := by
  have hsame : (telemetryFormat t drops).map Piece.width =
      (telemetryFormat (quietTotals t.reqFresh) 0).map Piece.width := rfl
  rw [hsame]
  generalize t.reqFresh = fresh
  revert fresh
  decide +kernel

/-- **The worst case** of the text. -/
theorem telemetryText_length (t : NtripTxTotals) (drops : UInt32) :
    0 < (telemetryText t drops).length ∧ (telemetryText t drops).length ≤ 639 := by
  constructor
  · unfold telemetryText telemetryFormat
    rw [List.flatMap_cons, List.length_append]
    exact Nat.add_pos_left (by decide) _
  · exact Nat.le_trans (flatMap_length_le _) (telemetryFormat_width t drops)

/-- The text that a piece holds itself. -/
def Piece.literal : Piece → Option String
  | .text s => some s
  | .str s => some s
  | _ => none

/-- The text is a C string. -/
theorem telemetryText_noNul (t : NtripTxTotals) (drops : UInt32) : 0 ∉ telemetryText t drops := by
  have hsame : (telemetryFormat t drops).filterMap Piece.literal =
      (telemetryFormat (quietTotals t.reqFresh) 0).filterMap Piece.literal := rfl
  have hquiet : ∀ fresh, ∀ s ∈ (telemetryFormat (quietTotals fresh) 0).filterMap Piece.literal,
      0 ∉ ascii s := by decide +kernel
  intro h
  obtain ⟨p, hp, hmem⟩ := List.mem_flatMap.mp h
  have hliteral : ∀ s, p.literal = some s → 0 ∉ ascii s := by
    intro s hs
    apply hquiet t.reqFresh
    rw [← hsame]
    exact List.mem_filterMap.mpr ⟨p, hp, hs⟩
  cases p with
  | text s => exact hliteral s rfl hmem
  | llu x => exact zero_notMem_decimal _ hmem
  | lu x => exact zero_notMem_decimal _ hmem
  | str s => exact hliteral s rfl hmem

/-! ### The contract -/

theorem telemetryTxJson_eq (dst : Dst) (t : NtripTxTotals) (drops : UInt32) :
    telemetryTxJson dst t drops =
      if (telemetryText t drops).length < dst.cap then
        (((telemetryText t drops).length : ℤ),
          telemetryText t drops ++ 0 :: dst.memory.drop ((telemetryText t drops).length + 1))
      else (-1, dst.memory) := by
  obtain ⟨hpos, hmax⟩ := telemetryText_length t drops
  have hfull : (telemetryText t drops).take (telemetryTxJsonMax - 1) = telemetryText t drops :=
    List.take_of_length_le hmax
  have hlen : (telemetryText t drops ++ [0]).length ≤ (telemetryText t drops).length + 1 := by simp
  have hbuffer : ¬ telemetryTxJsonMax = 0 := by decide
  have hwhole : ¬ ((telemetryText t drops).length ≤ 0 ∨
      (telemetryText t drops).length ≥ telemetryTxJsonMax) := by
    unfold telemetryTxJsonMax
    omega
  unfold telemetryTxJson snprintf
  dsimp only
  rw [if_neg hwhole, if_neg hbuffer, hfull, List.take_of_length_le hlen]
  by_cases hfits : (telemetryText t drops).length < dst.cap
  · rw [if_neg (by omega), if_pos hfits, List.append_assoc]
    rfl
  · rw [if_pos (by omega), if_neg hfits]

/-- **All or nothing, and lossless.**  There is a text without NUL, of at most 639 bytes, that in braces is a
JSON object with the single member `tx` whose members are the seventeen fields with their values.  When
the capacity exceeds its length it is written with its terminator and its length is returned; otherwise -1 is
returned and no byte changes.  The capacity `TELEMETRY_TX_JSON_MAX` always suffices. -/
theorem telemetry_lossless (t : NtripTxTotals) (drops : UInt32) :
    ∃ text : List UInt8, 0 ∉ text ∧ text.length ≤ 639 ∧
      Json.parse (Json.openBrace :: (text ++ [Json.closeBrace])) =
        some (.obj [(txKey, .obj (telemetryMembers t drops))]) ∧
      ((telemetryMembers t drops).map Prod.fst).Nodup ∧
      (∀ dst : Dst, text.length < dst.cap →
        telemetryTxJson dst t drops =
          ((text.length : ℤ), text ++ 0 :: dst.memory.drop (text.length + 1))) ∧
      (∀ dst : Dst, ¬ text.length < dst.cap → telemetryTxJson dst t drops = (-1, dst.memory)) ∧
      ∀ dst : Dst, dst.cap = telemetryTxJsonMax → (telemetryTxJson dst t drops).1 = text.length := by
  obtain ⟨-, hmax⟩ := telemetryText_length t drops
  refine ⟨telemetryText t drops, telemetryText_noNul t drops, hmax, ?_, ?_, ?_, ?_, ?_⟩
  · rw [telemetry_render, Json.parse_render]
  · show ((telemetryMembers (quietTotals true) 0).map Prod.fst).Nodup
    decide +kernel
  · intro dst hfits
    rw [telemetryTxJson_eq, if_pos hfits]
  · intro dst hshort
    rw [telemetryTxJson_eq, if_neg hshort]
  · intro dst hcap
    have hfits : (telemetryText t drops).length < dst.cap := by
      rw [hcap]
      exact Nat.lt_succ_of_le hmax
    rw [telemetryTxJson_eq, if_pos hfits]

/-- A buffer of `TELEMETRY_TX_JSON_MAX` bytes. -/
def wholeDst : Dst := ⟨List.replicate telemetryTxJsonMax 170, telemetryTxJsonMax, by rw [List.length_replicate]⟩

/-- A byte of which the caller owns nothing. -/
def foreignDst : Dst := ⟨[170], 0, Nat.zero_le _⟩

theorem telemetry_lossless_quiet :
    ∃ text : List UInt8,
      telemetryTxJson wholeDst (quietTotals true) 3 =
        ((text.length : ℤ), text ++ 0 :: wholeDst.memory.drop (text.length + 1)) ∧
      telemetryTxJson foreignDst (quietTotals true) 3 = (-1, foreignDst.memory) := by
  obtain ⟨text, -, hmax, -, -, hfits, hshort, -⟩ := telemetry_lossless (quietTotals true) 3
  exact ⟨text, hfits wholeDst (Nat.lt_succ_of_le hmax), hshort foreignDst (Nat.not_lt_zero _)⟩

end RtkdataFw.Heartbeat
