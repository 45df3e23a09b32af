import Mathlib.Data.List.Induction
import RtkdataFw.Gnss.AckStream

/-!
# The capture of the receiver's replies

While a command waits for its acknowledgement, `gnss_ingest_uart` collects what the UART delivers.  A chunk
that does not fit clears the buffer, and only as much of it is kept as the buffer holds.

* `copyLoop_eq` — the copying loop keeps the front of a chunk;
* `fillAfter` — how full the buffer is, from the lengths of the chunks;
* `captured_suffix` — a capture that ends with the last chunk goes back to the last chunk that cleared it;
* `keepsNewest_iff` — the newest reply is in the capture exactly when the last chunk fits the buffer and no
  chunk after the first of the reply has cleared it.
-/

namespace RtkdataFw.Gnss

open RtkdataFw.Lib

/-- `CAP_SZ`. -/
def capSz : ℕ := 1024

/-- `s_cap` up to `s_cap_len`, and `s_capturing`. -/
structure Capture where
  cap : List UInt8
  capturing : Bool
  deriving DecidableEq, Repr

/-- `for (i = 0; i < len && s_cap_len < CAP_SZ - 1; i++) s_cap[s_cap_len++] = data[i]`. -/
def copyLoop (cap : List UInt8) : List UInt8 → List UInt8
  | [] => cap
  | b :: data => if cap.length < capSz - 1 then copyLoop (cap ++ [b]) data else cap

def gnssIngestUart (c : Capture) (data : List UInt8) : Capture :=
  if !c.capturing || data.isEmpty then c
  else { c with cap := copyLoop (if c.cap.length + data.length ≥ capSz then [] else c.cap) data }

def capReset (c : Capture) : Capture := { c with cap := [] }

def capSnapshot (c : Capture) : List UInt8 := c.cap

/-- What the capture holds after a reset and some chunks. -/
def captured (c : Capture) (cs : List (List UInt8)) : List UInt8 :=
  capSnapshot (cs.foldl gnssIngestUart (capReset c))

/-- The bytes of a complete record, and nothing else. -/
def IsReply (r : List UInt8) : Prop := ∃ s, Record r 0 s ∧ r.length = s + 3

/-- The longest reply that is promised to survive. -/
def maxReplyB : ℕ := 128

/-- What `uart_task` delivers, a read of at most `UART_BUFFER_SIZE - 1` bytes. -/
def Delivered (d : List UInt8) : Prop := 1 ≤ d.length ∧ d.length ≤ 4095

instance (d : List UInt8) : Decidable (Delivered d) := inferInstanceAs (Decidable (_ ∧ _))

/-- The capture is in bounds, it is the end of what came in, and it holds the reply that came last. -/
structure KeepsNewest (c : Capture) (cs : List (List UInt8)) : Prop where
  bound : (captured c cs).length < capSz
  suffix : captured c cs <:+ cs.flatten
  reply : ∀ r, IsReply r → r.length ≤ maxReplyB → r <:+ cs.flatten → r <:+: captured c cs

/-! ### One chunk -/

theorem copyLoop_eq (cap data : List UInt8) (h : cap.length ≤ capSz - 1) :
    copyLoop cap data = cap ++ data.take (capSz - 1 - cap.length) := by
  induction data generalizing cap with
  | nil => simp [copyLoop]
  | cons b data ih =>
      rw [copyLoop]
      by_cases hroom : cap.length < capSz - 1
      · have hnext : (cap ++ [b]).length ≤ capSz - 1 := by
          rw [List.length_append, List.length_singleton]
          exact hroom
        have hleft : capSz - 1 - cap.length = (capSz - 1 - (cap ++ [b]).length) + 1 := by
          rw [List.length_append, List.length_singleton]
          omega
        rw [if_pos hroom, ih _ hnext, hleft, List.take_succ_cons, List.append_assoc]
        rfl
      · rw [if_neg hroom, show capSz - 1 - cap.length = 0 by omega, List.take_zero, List.append_nil]

/-- A chunk that fits is appended; one that does not clears the capture and is kept up to its end. -/
theorem ingest_cap {c : Capture} {d : List UInt8} (hon : c.capturing = true) (hd : d ≠ []) :
    (gnssIngestUart c d).cap =
      if c.cap.length + d.length ≥ capSz then d.take (capSz - 1) else c.cap ++ d := by
  have hstep : gnssIngestUart c d =
      { c with cap := copyLoop (if c.cap.length + d.length ≥ capSz then [] else c.cap) d } := by
    rw [gnssIngestUart, hon, List.isEmpty_eq_false_iff.mpr hd]
    rfl
  rw [hstep]
  by_cases hover : c.cap.length + d.length ≥ capSz
  · rw [if_pos hover]
    dsimp only
    rw [if_pos hover, copyLoop_eq [] d (Nat.zero_le _)]
    rfl
  · rw [if_neg hover]
    dsimp only
    rw [if_neg hover, copyLoop_eq c.cap d (by omega), List.take_of_length_le (by omega)]

theorem ingest_capturing (c : Capture) (d : List UInt8) : (gnssIngestUart c d).capturing = c.capturing := by
  unfold gnssIngestUart
  split <;> rfl

/-! ### The fill level -/

/-- The fill level after a chunk of `n` bytes. -/
def fillStep (fill n : ℕ) : ℕ := if fill + n ≥ capSz then min n (capSz - 1) else fill + n

/-- The fill level after some chunks, from their lengths alone. -/
def fillAfter (cs : List (List UInt8)) : ℕ := (cs.map List.length).foldl fillStep 0

/-- The chunk `d` does not fit after the chunks `before`, and clears the buffer. -/
def Clears (before : List (List UInt8)) (d : List UInt8) : Prop := fillAfter before + d.length ≥ capSz

instance (before : List (List UInt8)) (d : List UInt8) : Decidable (Clears before d) :=
  inferInstanceAs (Decidable (_ ≥ _))

/-- A chunk that is too long by itself clears the buffer. -/
theorem clears_of_long (before : List (List UInt8)) {d : List UInt8} (h : capSz ≤ d.length) :
    Clears before d := h.trans (Nat.le_add_left _ _)

theorem fillAfter_snoc (cs : List (List UInt8)) (d : List UInt8) :
    fillAfter (cs ++ [d]) = fillStep (fillAfter cs) d.length := by
  rw [fillAfter, List.map_append, List.foldl_append]
  rfl

theorem fillAfter_lt (cs : List (List UInt8)) : fillAfter cs < capSz := by
  have hpos : 0 < capSz := Nat.succ_pos 1023
  induction cs using List.reverseRecOn with
  | nil => exact hpos
  | append_singleton cs d ih =>
      rw [fillAfter_snoc, fillStep]
      split
      · omega
      · omega

/-- A chunk leaves at least itself in the buffer, as far as it fits. -/
theorem le_fillAfter (cs : List (List UInt8)) (d : List UInt8) :
    min d.length (capSz - 1) ≤ fillAfter (cs ++ [d]) := by
  rw [fillAfter_snoc, fillStep]
  split
  · exact Nat.le_refl _
  · exact (Nat.min_le_left _ _).trans (Nat.le_add_left _ _)

theorem capturing_foldl (c : Capture) (cs : List (List UInt8)) :
    (cs.foldl gnssIngestUart (capReset c)).capturing = c.capturing := by
  induction cs using List.reverseRecOn with
  | nil => rfl
  | append_singleton cs d ih =>
      rw [List.foldl_append]
      exact (ingest_capturing _ d).trans ih

variable {c : Capture} {cs : List (List UInt8)} {d : List UInt8}

theorem captured_snoc_of_length (hon : c.capturing = true) (hd : d ≠ [])
    (hlen : (captured c cs).length = fillAfter cs) :
    captured c (cs ++ [d]) = if Clears cs d then d.take (capSz - 1) else captured c cs ++ d := by
  have hingest := ingest_cap ((capturing_foldl c cs).trans hon) hd
  have hclears : Clears cs d ↔ (captured c cs).length + d.length ≥ capSz := by
    show fillAfter cs + d.length ≥ capSz ↔ _
    rw [hlen]
  rw [if_congr hclears rfl rfl, captured, capSnapshot, List.foldl_append]
  exact hingest

/-- The capture is as long as the fill level says. -/
theorem length_captured (hon : c.capturing = true) (hcs : ∀ d ∈ cs, d ≠ []) :
    (captured c cs).length = fillAfter cs := by
  induction cs using List.reverseRecOn with
  | nil => rfl
  | append_singleton cs d ih =>
      have hprev := ih fun x hx => hcs x (List.mem_append_left _ hx)
      have hd : d ≠ [] := hcs d (List.mem_append_right _ (List.mem_singleton_self d))
      rw [captured_snoc_of_length hon hd hprev, fillAfter_snoc, fillStep]
      by_cases hclears : Clears cs d
      · rw [if_pos hclears, if_pos (show fillAfter cs + d.length ≥ capSz from hclears), List.length_take,
          Nat.min_comm]
      · rw [if_neg hclears, if_neg (show ¬ fillAfter cs + d.length ≥ capSz from hclears),
          List.length_append, hprev]

theorem captured_snoc (hon : c.capturing = true) (hcs : ∀ x ∈ cs ++ [d], x ≠ []) :
    captured c (cs ++ [d]) = if Clears cs d then d.take (capSz - 1) else captured c cs ++ d :=
  captured_snoc_of_length hon (hcs d (List.mem_append_right _ (List.mem_singleton_self d)))
    (length_captured hon fun x hx => hcs x (List.mem_append_left _ hx))

/-! ### How far the capture goes back -/

/-- It does not go back past a chunk that cleared it. -/
theorem length_captured_le (hon : c.capturing = true) {before after : List (List UInt8)}
    (hcs : ∀ x ∈ before ++ d :: after, x ≠ []) (hclears : Clears before d) :
    (captured c (before ++ d :: after)).length ≤ (d :: after).flatten.length := by
  induction after using List.reverseRecOn with
  | nil =>
      rw [captured_snoc hon hcs, if_pos hclears]
      simp
  | append_singleton after x ih =>
      have hassoc : before ++ d :: (after ++ [x]) = (before ++ d :: after) ++ [x] := by simp
      rw [hassoc] at hcs ⊢
      have hprev := ih fun y hy => hcs y (List.mem_append_left _ hy)
      rw [captured_snoc hon hcs, ← List.cons_append, List.flatten_append, List.length_append,
        List.flatten_singleton]
      split
      · rw [List.length_take]
        omega
      · rw [List.length_append]
        exact Nat.add_le_add_right hprev _

/-- The capture is everything, or it goes back to a chunk that cleared it. -/
def GoesBack (c : Capture) (cs : List (List UInt8)) : Prop :=
  captured c cs = cs.flatten ∨
    ∃ before d after, cs = before ++ d :: after ∧ Clears before d ∧ captured c cs = (d :: after).flatten

/-- **What is kept**, when the last chunk fits the buffer. -/
theorem captured_goesBack (hon : c.capturing = true) (hcs : ∀ x ∈ cs, x ≠ [])
    (hlast : ∀ x ∈ cs.getLast?, x.length < capSz) : GoesBack c cs := by
  induction cs using List.reverseRecOn with
  | nil => exact Or.inl rfl
  | append_singleton cs d ih =>
      have hfits : d.length < capSz := hlast d (by simp)
      have hsnoc := captured_snoc hon hcs
      by_cases hclears : Clears cs d
      · rw [if_pos hclears, List.take_of_length_le (by omega)] at hsnoc
        exact Or.inr ⟨cs, d, [], rfl, hclears, by rw [hsnoc, List.flatten_singleton]⟩
      · rw [if_neg hclears] at hsnoc
        have hne : d ≠ [] := hcs d (List.mem_append_right _ (List.mem_singleton_self d))
        -- a chunk that filled the buffer would have made this one clear it
        have hprev : ∀ x ∈ cs.getLast?, x.length < capSz := by
          intro x hx
          obtain ⟨ys, rfl⟩ := List.getLast?_eq_some_iff.mp hx
          have hfill := le_fillAfter ys x
          have hpos := List.length_pos_of_ne_nil hne
          unfold Clears at hclears
          omega
        rcases ih (fun x hx => hcs x (List.mem_append_left _ hx)) hprev with
          hall | ⟨before, x, after, hsplit, hx, hcap⟩
        · exact Or.inl (by rw [hsnoc, hall, List.flatten_append, List.flatten_singleton])
        · refine Or.inr ⟨before, x, after ++ [d], ?_, hx, ?_⟩
          · rw [hsplit, List.append_assoc, List.cons_append]
          · rw [hsnoc, hcap, ← List.cons_append, List.flatten_append, List.flatten_singleton]

theorem GoesBack.suffix (h : GoesBack c cs) : captured c cs <:+ cs.flatten := by
  rcases h with hall | ⟨before, d, after, rfl, _, hcap⟩
  · rw [hall]
  · rw [hcap, List.flatten_append]
    exact List.suffix_append _ _

/-! ### The newest reply -/

/-- The last chunk fits the buffer, or repeats itself so that its first bytes are its last ones. -/
def LastFits (cs : List (List UInt8)) : Prop := ∀ d ∈ cs.getLast?, d.take (capSz - 1) <:+ d

/-- No chunk after the one in which the newest reply begins has cleared the buffer. -/
def ReplyUncut (cs : List (List UInt8)) : Prop :=
  ∀ before d after, cs = before ++ d :: after → Clears before d →
    ∀ r, IsReply r → r.length ≤ maxReplyB → r <:+ cs.flatten → r.length ≤ (d :: after).flatten.length

/-- **The newest reply is captured exactly when it is not cut.** -/
theorem keepsNewest_iff (hon : c.capturing = true) (hcs : ∀ d ∈ cs, Delivered d) :
    KeepsNewest c cs ↔ LastFits cs ∧ ReplyUncut cs := by
  have hne : ∀ d ∈ cs, d ≠ [] := fun d hd => List.ne_nil_of_length_pos (hcs d hd).1
  have hlen := length_captured hon hne
  constructor
  · intro h
    constructor
    · intro d hd
      obtain ⟨ys, rfl⟩ := List.getLast?_eq_some_iff.mp hd
      rcases Nat.lt_or_ge d.length capSz with hfits | hover
      · rw [List.take_of_length_le (by omega)]
      · have hsuffix := h.suffix
        rw [captured_snoc hon hne, if_pos (clears_of_long ys hover)] at hsuffix
        refine List.suffix_of_suffix_length_le hsuffix ?_ (List.take_prefix _ _).length_le
        rw [List.flatten_append, List.flatten_singleton]
        exact List.suffix_append _ _
    · intro before d after hsplit hclears r hr hmax hsuffix
      have hinside := (h.reply r hr hmax hsuffix).length_le
      rw [hsplit] at hinside hne
      exact hinside.trans (length_captured_le hon hne hclears)
  · intro h
    obtain ⟨hlast, huncut⟩ := h
    -- with the last chunk in the buffer, only the length of the capture matters
    have hsuffices : captured c cs <:+ cs.flatten →
        (∀ r, IsReply r → r.length ≤ maxReplyB → r <:+ cs.flatten → r.length ≤ (captured c cs).length) →
        KeepsNewest c cs := by
      intro hsuffix hlong
      refine ⟨hlen ▸ fillAfter_lt cs, hsuffix, ?_⟩
      intro r hr hmax hrsuffix
      exact (List.suffix_of_suffix_length_le hrsuffix hsuffix (hlong r hr hmax hrsuffix)).isInfix
    by_cases hfits : ∀ d ∈ cs.getLast?, d.length < capSz
    · have hback := captured_goesBack hon hne hfits
      apply hsuffices hback.suffix
      intro r hr hmax hsuffix
      rcases hback with hall | ⟨before, d, after, hsplit, hclears, hcap⟩
      · rw [hall]
        exact hsuffix.length_le
      · rw [hcap]
        exact huncut before d after hsplit hclears r hr hmax hsuffix
    · obtain ⟨d, hd, hover⟩ : ∃ d ∈ cs.getLast?, capSz ≤ d.length := by
        simpa only [not_forall, Nat.not_lt, exists_prop] using hfits
      have hrepeats := hlast d hd
      obtain ⟨ys, rfl⟩ := List.getLast?_eq_some_iff.mp hd
      have hcap := captured_snoc hon hne
      rw [if_pos (clears_of_long ys hover)] at hcap
      refine hsuffices ?_ ?_
      · rw [hcap, List.flatten_append, List.flatten_singleton]
        exact hrepeats.trans (List.suffix_append _ _)
      · intro r _ hmax _
        rw [hcap, List.length_take]
        have hroom : maxReplyB ≤ capSz - 1 := by decide
        omega

/-- `$command,VERSIONA,response: OK*45`. -/
def okVersiona : Reply where
  cmd := textBytes ['V', 'E', 'R', 'S', 'I', 'O', 'N', 'A']
  form := .ok
  hi := '4'.toUInt8
  lo := '5'.toUInt8
  cmd_ne_nil := by decide
  star_notMem := by decide
  dollar_notMem := by decide
  cmd_noMark := by decide
  cmd_noEcho := by decide
  cmd_noSpace := by decide
  hi_hex := by decide
  lo_hex := by decide
  checksum := by decide

theorem Reply.isReply (r : Reply) : IsReply r.bytes := by
  have hrecord := r.record []
  rw [List.append_nil] at hrecord
  refine ⟨r.head.length, hrecord, ?_⟩
  rw [Reply.bytes, List.length_append]
  rfl

def capturing : Capture := ⟨[], true⟩

theorem keepsNewest_iff_okVersiona :
    KeepsNewest capturing [okVersiona.bytes] ↔ LastFits [okVersiona.bytes] ∧ ReplyUncut [okVersiona.bytes] :=
  keepsNewest_iff rfl (by decide)

/-- A reply that comes in two reads while the buffer is nearly full. -/
def splitReply : List (List UInt8) :=
  [List.replicate 1000 0, okVersiona.bytes.take 20, okVersiona.bytes.drop 20]

/-- **The first part of a reply is thrown away.** -/
theorem splitReply_lost :
    (∀ d ∈ splitReply, Delivered d) ∧ okVersiona.bytes <:+ splitReply.flatten ∧
      captured capturing splitReply = okVersiona.bytes.drop 20 ∧
      ¬ ∀ (c : Capture) (cs : List (List UInt8)), c.capturing = true → (∀ d ∈ cs, Delivered d) →
        KeepsNewest c cs := by
  have hdelivered : ∀ d ∈ splitReply, Delivered d := by
    intro d hd
    rcases List.mem_cons.mp hd with rfl | htail
    · rw [Delivered, List.length_replicate]
      decide
    · clear hd
      revert d
      decide
  have hnewest : okVersiona.bytes <:+ splitReply.flatten := ⟨List.replicate 1000 0, rfl⟩
  have hclears : Clears [List.replicate 1000 0, okVersiona.bytes.take 20] (okVersiona.bytes.drop 20) := by
    decide +kernel
  have hcap : captured capturing splitReply = okVersiona.bytes.drop 20 := by
    have hne : ∀ d ∈ splitReply, d ≠ [] := fun d hd => List.ne_nil_of_length_pos (hdelivered d hd).1
    have hsnoc : captured capturing ([List.replicate 1000 0, okVersiona.bytes.take 20] ++
        [okVersiona.bytes.drop 20]) = _ := captured_snoc rfl hne
    rw [if_pos hclears] at hsnoc
    exact hsnoc
  refine ⟨hdelivered, hnewest, hcap, ?_⟩
  intro h
  have hinside := (h capturing splitReply rfl hdelivered).reply okVersiona.bytes okVersiona.isReply
    (by decide) hnewest
  rw [hcap] at hinside
  exact absurd hinside.length_le (by decide)

end RtkdataFw.Gnss
