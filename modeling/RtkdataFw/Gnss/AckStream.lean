import Mathlib.Data.List.Chain
import RtkdataFw.Gnss.Ack

/-!
# Streams of replies

What the receiver sends between two commands is a stream of items: complete replies, replies cut off before
their star, and noise.  `gnssAckScan` decodes such a stream.

* `Reply.recordVerdict_text` — the text of a reply says about a command what the reply says;
* `Record.shift_iff` — past an item, the records of a stream are the records of the rest;
* `no_record_of_opens` — no record begins in noise, nor in a reply that is cut off;
* `gnssAckScan_stream` — the scan of a stream gives the verdict of the last complete reply;
* `split_noise_approves` — noise that comes in two items, or follows a cut-off reply, can make up a reply.
-/

namespace RtkdataFw.Gnss

open RtkdataFw.Lib

inductive ReplyForm where
  /-- `$command,<cmd>,response: OK*HH`. -/
  | ok
  /-- `$command,<cmd>,response: PARSING FAIL<t>*HH`. -/
  | fail (t : List UInt8)
  /-- `$command,response: PARSING FAILD NO MATCHING FUNC <cmd>*HH`. -/
  | noEcho
  deriving DecidableEq, Repr

/-- `response: PARSING FAILD `. -/
def noEchoHead : List UInt8 := noEchoMark ++ space :: parsingFail ++ textBytes ['D', ' ']

/-- The text of a reply to `cmd`. -/
def ReplyForm.text (cmd : List UInt8) : ReplyForm → List UInt8
  | .ok => cmd ++ responseMark ++ space :: okText
  | .fail t => cmd ++ responseMark ++ space :: (parsingFail ++ t)
  | .noEcho => noEchoHead ++ noMatchingFunc ++ space :: cmd

/-- A well-formed reply. -/
structure Reply where
  cmd : List UInt8
  form : ReplyForm
  hi : UInt8
  lo : UInt8
  cmd_ne_nil : cmd ≠ []
  star_notMem : starByte ∉ form.text cmd
  dollar_notMem : dollar ∉ form.text cmd
  cmd_noMark : ¬ responseMark <:+: cmd
  cmd_noEcho : ¬ noEchoMark <+: cmd
  cmd_noSpace : cmd.head? ≠ some space
  hi_hex : isHex hi = true
  lo_hex : isHex lo = true
  checksum : hexByte hi lo = xorSum (commandPrefix ++ form.text cmd)

def Reply.text (r : Reply) : List UInt8 := r.form.text r.cmd

/-- The bytes of a reply before its star. -/
def Reply.head (r : Reply) : List UInt8 := commandPrefix ++ r.text

def Reply.bytes (r : Reply) : List UInt8 := r.head ++ [starByte, r.hi, r.lo]

def Reply.verdict (r : Reply) : AckVerdict :=
  match r.form with
  | .ok => .ok
  | .fail _ => .fail
  | .noEcho => .fail

inductive Item where
  | noise (w : List UInt8) (noPrefix : ¬ commandPrefix <:+: w)
  | reply (r : Reply)
  /-- The first `k` bytes of a reply, none of them past its star, and bytes without a star after them. -/
  | cut (r : Reply) (k : ℕ) (before : k ≤ r.head.length) (w : List UInt8) (noStar : starByte ∉ w)

def Item.bytes : Item → List UInt8
  | .noise w _ => w
  | .reply r => r.bytes
  | .cut r k _ w _ => r.head.take k ++ w

def stream (items : List Item) : List UInt8 := items.flatMap Item.bytes

def Item.reply? : Item → Option Reply
  | .reply r => some r
  | _ => none

/-- The complete replies to `cmd`. -/
def repliesTo (cmd : CStr) (items : List Item) : List Reply :=
  (items.filterMap Item.reply?).filter fun r => decide (r.cmd = cmd.bytes)

/-- The verdict of the last reply, and `w` when there is none. -/
def lastVerdict (w : AckVerdict) (rs : List Reply) : AckVerdict := rs.getLast?.elim w Reply.verdict

def Item.IsNoise : Item → Prop
  | .noise _ _ => True
  | _ => False

def Item.IsReply : Item → Prop
  | .reply _ => True
  | _ => False

/-- Noise comes in one item: no noise follows noise, or a reply that is cut off. -/
def NoiseApart (items : List Item) : Prop := items.IsChain fun a b => b.IsNoise → a.IsReply

/-! ### The text of a reply -/

theorem findAt_eq_of_first {hay needle : List UInt8} {j : ℕ} (hne : needle ≠ [])
    (hat : OccursAt needle hay j) (hbefore : ∀ k, k < j → ¬ OccursAt needle hay k) :
    findAt hay hay.length 0 needle = some j :=
  (findAt_eq_some_iff hne).mpr
    ⟨⟨⟨Nat.zero_le j, hat⟩, fun k hk => Nat.le_of_not_lt fun hlt => hbefore k hlt hk.2⟩, hat.le_length hne⟩

/-- The mark stands after the command, and nowhere before. -/
theorem findAt_responseMark {cmd l : List UInt8} (hcmd : ¬ responseMark <:+: cmd) :
    findAt (cmd ++ responseMark ++ l) (cmd ++ responseMark ++ l).length 0 responseMark =
      some cmd.length := by
  have hat : OccursAt responseMark (cmd ++ (responseMark ++ l)) cmd.length := by
    rw [← Nat.add_zero cmd.length, occursAt_append]
    exact List.prefix_append _ _
  rw [List.append_assoc]
  apply findAt_eq_of_first responseMark_ne_nil hat
  intro k hk hmark
  have hend : k + responseMark.length ≤ cmd.length :=
    OccursAt.apart (show (',').toUInt8 ∉ noEchoMark by decide) hmark hat hk
  have hinside : OccursAt responseMark cmd k := hmark.of_append hend
  exact hcmd (hinside.isInfix.trans (List.drop_suffix k cmd).isInfix)

/-- An echoed reply is not one without an echo. -/
theorem noEchoMark_apart {cmd l : List UInt8} (hcmd : ¬ noEchoMark <+: cmd) :
    ¬ noEchoMark <+: cmd ++ responseMark ++ l := by
  intro hprefix
  rw [List.append_assoc] at hprefix
  rcases Nat.lt_or_ge cmd.length noEchoMark.length with hlt | hge
  · -- the comma after the command would stand in the mark
    have hcomma : noEchoMark[cmd.length]? = some (',').toUInt8 := by
      rw [← OccursAt.getElem? (occursAt_zero.mpr hprefix) hlt, Nat.zero_add,
        List.getElem?_append_right (Nat.le_refl _), Nat.sub_self]
      rfl
    exact absurd (List.mem_of_getElem? hcomma) (by decide)
  · exact hcmd (List.prefix_of_prefix_length_le hprefix (List.prefix_append _ _) hge)

/-- The verdict of an echoed reply is that of what follows the mark, when the command is the one asked for. -/
theorem recordVerdict_echo {c l : List UInt8} {cmd : CStr} (hmark : ¬ responseMark <:+: c)
    (hecho : ¬ noEchoMark <+: c) :
    recordVerdict (c ++ responseMark ++ l) cmd =
      if c = cmd.bytes then
        if parsingFail <+: trimVerdict l then .fail else if trimVerdict l = okText then .ok else .none
      else .none := by
  have htake : (c ++ responseMark ++ l).take c.length = c := by
    rw [List.append_assoc, List.take_left]
  have hdrop : (c ++ responseMark ++ l).drop (c.length + responseMark.length) = l := by
    rw [← List.length_append, List.drop_left]
  rw [recordVerdict, if_neg (noEchoMark_apart hecho), echoVerdict, findAt_responseMark hmark]
  dsimp only
  rw [htake, hdrop]

/-- Trimming at the end stops at a last element that stays. -/
theorem append_prefix_rdropWhile {p : UInt8 → Bool} {u : List UInt8} (hu : u.rdropWhile p = u)
    (t : List UInt8) : u <+: (u ++ t).rdropWhile p := by
  induction t using List.reverseRecOn with
  | nil =>
      rw [List.append_nil, hu]
  | append_singleton t c ih =>
      rw [← List.append_assoc, List.rdropWhile_concat]
      split
      · exact ih
      · rw [List.append_assoc]
        exact List.prefix_append _ _

/-- The text of a reject is one, whatever follows. -/
theorem parsingFail_prefix_trim (t : List UInt8) :
    parsingFail <+: trimVerdict (space :: (parsingFail ++ t)) :=
  append_prefix_rdropWhile (by decide) t

theorem findAt_noMatchingFunc (l : List UInt8) :
    findAt (noEchoHead ++ noMatchingFunc ++ l) (noEchoHead ++ noMatchingFunc ++ l).length 0
      noMatchingFunc = some noEchoHead.length := by
  refine findAt_eq_of_first noMatchingFunc_ne_nil ?_ ?_
  · rw [List.append_assoc, ← Nat.add_zero noEchoHead.length, occursAt_append]
    exact List.prefix_append _ _
  · intro k hk hfunc
    -- an `N` of the head is followed by something other than an `O`
    have hhead : ∀ k < noEchoHead.length, (noEchoHead ++ noMatchingFunc)[k]? = noMatchingFunc[0]? →
        (noEchoHead ++ noMatchingFunc)[k + 1]? ≠ noMatchingFunc[1]? := by decide
    have hlen : noEchoHead.length + 1 < (noEchoHead ++ noMatchingFunc).length := by decide
    have hN := hfunc.getElem? (j := 0) (by decide)
    have hO := hfunc.getElem? (j := 1) (by decide)
    rw [List.getElem?_append_left (by omega)] at hN hO
    exact hhead k hk hN hO

theorem recordVerdict_noEcho {c : List UInt8} {cmd : CStr} (hspace : c.head? ≠ some space) :
    recordVerdict (noEchoHead ++ noMatchingFunc ++ space :: c) cmd =
      if c = cmd.bytes then .fail else .none := by
  have hprefix : noEchoMark <+: noEchoHead ++ noMatchingFunc ++ space :: c := List.prefix_append _ _
  have hdrop : ((noEchoHead ++ noMatchingFunc ++ space :: c).drop
      (noEchoHead.length + noMatchingFunc.length)).dropWhile (· == space) = c := by
    rw [← List.length_append, List.drop_left, List.dropWhile_cons, if_pos (beq_self_eq_true space)]
    exact List.dropWhile_beq_eq_self_of_head?_ne hspace
  rw [recordVerdict, if_pos hprefix, noEchoVerdict, findAt_noMatchingFunc]
  dsimp only
  rw [hdrop]

/-- **The text of a reply** gives its verdict to its own command, and none to any other. -/
theorem Reply.recordVerdict_text (r : Reply) (cmd : CStr) :
    recordVerdict r.text cmd = if r.cmd = cmd.bytes then r.verdict else .none := by
  rw [Reply.text, Reply.verdict]
  cases r.form with
  | ok =>
      rw [ReplyForm.text, recordVerdict_echo r.cmd_noMark r.cmd_noEcho]
      exact if_congr Iff.rfl (by decide) rfl
  | fail t =>
      rw [ReplyForm.text, recordVerdict_echo r.cmd_noMark r.cmd_noEcho, if_pos (parsingFail_prefix_trim t)]
  | noEcho => exact recordVerdict_noEcho r.cmd_noSpace

/-! ### Records in a stream -/

theorem validStar_append (a l : List UInt8) (i s : ℕ) :
    ValidStar (a ++ l) (a.length + i) (a.length + s) ↔ ValidStar l i s := by
  have hget : ∀ j, (a ++ l)[a.length + s + j]? = l[s + j]? := by
    intro j
    rw [Nat.add_assoc, List.getElem?_append_right (Nat.le_add_right _ _), Nat.add_sub_cancel_left]
  have hbytes : ((a ++ l).take (a.length + s)).drop (a.length + i) = (l.take s).drop i := by
    rw [List.take_length_add_append, List.drop_length_add_append]
  rw [ValidStar, ValidStar, occursAt_append, recordValidAt, recordValidAt, hget, hget, hbytes]

/-- **The records past a first part** are those of the rest. -/
theorem Record.append_iff (a l : List UInt8) (i s : ℕ) :
    Record (a ++ l) (a.length + i) (a.length + s) ↔ Record l i s := by
  constructor
  · intro h
    refine ⟨(occursAt_append _ a l i).mp h.head, ⟨⟨?_, (validStar_append a l i s).mp h.star.1.2⟩, ?_⟩, ?_⟩
    · have hle := h.body_le
      omega
    · intro k hk
      have hmin := h.star.2 ⟨show a.length + i + prefixLen ≤ a.length + k by have := hk.1; omega,
        (validStar_append a l i k).mpr hk.2⟩
      omega
    · intro k hlt hks hk
      exact h.alone (a.length + k) (by omega) (by omega) ((occursAt_append _ a l k).mpr hk)
  · intro h
    refine ⟨(occursAt_append _ a l i).mpr h.head, ⟨⟨?_, (validStar_append a l i s).mpr h.star.1.2⟩, ?_⟩, ?_⟩
    · have hle := h.body_le
      omega
    · intro k hk
      obtain ⟨j, rfl⟩ : ∃ j, k = a.length + j := ⟨k - a.length, by have := hk.1; omega⟩
      have hmin := h.star.2 ⟨show i + prefixLen ≤ j by have := hk.1; omega,
        (validStar_append a l i j).mp hk.2⟩
      omega
    · intro k hlt hks hk
      obtain ⟨j, rfl⟩ : ∃ j, k = a.length + j := ⟨k - a.length, by omega⟩
      exact h.alone j (by omega) (by omega) ((occursAt_append _ a l j).mp hk)

theorem verdictAt_append (a l : List UInt8) (cmd : CStr) (i s : ℕ) :
    verdictAt (a ++ l) cmd (a.length + i) (a.length + s) = verdictAt l cmd i s := by
  rw [verdictAt, verdictAt, recordText, recordText, Nat.add_assoc, List.take_length_add_append,
    List.drop_length_add_append]

theorem AnswersFrom.append {l : List UInt8} {cmd : CStr} {w v : AckVerdict} (h : AnswersFrom l cmd 0 w v)
    (a : List UInt8) : AnswersFrom (a ++ l) cmd a.length w v := by
  -- the records past `a`, and what they were before
  have hback : ∀ i s, a.length ≤ i → Record (a ++ l) i s →
      ∃ i' s', i = a.length + i' ∧ s = a.length + s' ∧ Record l i' s' := by
    intro i s hi hrec
    have hbody := hrec.body_le
    obtain ⟨i', rfl⟩ := Nat.exists_eq_add_of_le hi
    obtain ⟨s', rfl⟩ := Nat.exists_eq_add_of_le (show a.length ≤ s by omega)
    exact ⟨i', s', rfl, rfl, (Record.append_iff a l i' s').mp hrec⟩
  rcases h with ⟨hv, hall⟩ | ⟨i, s, _, hrec, hverdict, hne, hlast⟩
  · refine Or.inl ⟨hv, ?_⟩
    intro i s hi hrec
    obtain ⟨i', s', rfl, rfl, hrec'⟩ := hback i s hi hrec
    rw [verdictAt_append]
    exact hall i' s' (Nat.zero_le i') hrec'
  · refine Or.inr ⟨a.length + i, a.length + s, Nat.le_add_right _ _, (Record.append_iff a l i s).mpr hrec,
      (verdictAt_append a l cmd i s).trans hverdict, hne, ?_⟩
    intro j t hlt hrec'
    obtain ⟨i', s', rfl, rfl, hrec''⟩ := hback j t (by omega) hrec'
    rw [verdictAt_append]
    exact hlast i' s' (by omega) hrec''

/-- Before any star a new prefix begins, or nothing follows. -/
def Opens (l : List UInt8) : Prop :=
  ∃ x m, l = x ++ m ∧ starByte ∉ x ∧ (m = [] ∨ commandPrefix <+: m)

theorem Opens.append {l x : List UInt8} (h : Opens l) (hx : starByte ∉ x) : Opens (x ++ l) := by
  obtain ⟨y, m, rfl, hy, hm⟩ := h
  refine ⟨x ++ y, m, (List.append_assoc x y m).symm, ?_, hm⟩
  rw [List.mem_append]
  exact not_or.mpr ⟨hx, hy⟩

theorem Record.star_getElem? {buf : List UInt8} {i s : ℕ} (h : Record buf i s) :
    buf[s]? = some starByte :=
  h.star.1.2.1.getElem? Nat.zero_lt_one

/-- **Where a record ends.**  A record that begins before such a place also ends before it. -/
theorem Record.lt_of_opens {a l : List UInt8} {i s : ℕ} (hl : Opens l) (h : Record (a ++ l) i s)
    (hi : i < a.length) : s < a.length := by
  obtain ⟨x, m, rfl, hx, hm⟩ := hl
  by_contra hs
  have hstar := h.star_getElem?
  rw [List.getElem?_append_right (by omega)] at hstar
  rcases Nat.lt_or_ge (s - a.length) x.length with hlt | hge
  · rw [List.getElem?_append_left hlt] at hstar
    exact hx (List.mem_of_getElem? hstar)
  · rw [List.getElem?_append_right hge] at hstar
    rcases hm with rfl | hm
    · exact absurd hstar (by simp)
    · -- the new prefix stands between the record and its star
      have hhead : OccursAt commandPrefix (a ++ (x ++ m)) (a.length + (x.length + 0)) := by
        rw [occursAt_append, occursAt_append]
        exact occursAt_zero.mpr hm
      refine h.alone _ (by omega) ?_ hhead
      apply Nat.lt_of_le_of_ne (by omega)
      rintro rfl
      have hdollar : m[0]? = some dollar :=
        OccursAt.getElem? (j := 0) (occursAt_zero.mpr hm) (by decide)
      rw [show a.length + (x.length + 0) - a.length - x.length = 0 by omega, hdollar] at hstar
      exact absurd hstar (by decide)

/-! ### A reply in a stream -/

theorem Reply.star_notMem_head (r : Reply) : starByte ∉ r.head := by
  rw [Reply.head, List.mem_append]
  exact not_or.mpr ⟨by decide, r.star_notMem⟩

theorem Reply.dollar_notMem_tail (r : Reply) : dollar ∉ r.bytes.tail := by
  have htail : r.bytes.tail = commandPrefix.tail ++ r.text ++ [starByte, r.hi, r.lo] := rfl
  have hhex : isHex dollar = false := by decide
  rw [htail]
  simp only [List.mem_append, List.mem_cons, List.not_mem_nil, not_or, or_false]
  refine ⟨⟨by decide, r.dollar_notMem⟩, by decide, ?_, ?_⟩
  · intro heq
    exact absurd (heq ▸ hhex) (by rw [r.hi_hex]; decide)
  · intro heq
    exact absurd (heq ▸ hhex) (by rw [r.lo_hex]; decide)

/-- No prefix stands in a reply but the one that it begins with. -/
theorem Reply.one_head (r : Reply) (l : List UInt8) {k : ℕ} (hpos : 0 < k) (hk : k < r.bytes.length) :
    ¬ OccursAt commandPrefix (r.bytes ++ l) k := by
  intro hat
  have hdollar : r.bytes[k]? = some dollar := by
    have hfirst := hat.getElem? (j := 0) (by decide)
    rw [Nat.add_zero, List.getElem?_append_left hk] at hfirst
    exact hfirst
  obtain ⟨j, rfl⟩ := Nat.exists_eq_succ_of_ne_zero (Nat.ne_of_gt hpos)
  rw [← List.getElem?_tail] at hdollar
  exact r.dollar_notMem_tail (List.mem_of_getElem? hdollar)

theorem Reply.head_length_lt (r : Reply) : r.head.length < r.bytes.length := by
  rw [Reply.bytes, List.length_append]
  exact Nat.lt_add_of_pos_right (Nat.succ_pos 2)

/-- **A reply is a record**, from its first byte to its star. -/
theorem Reply.record (r : Reply) (l : List UInt8) : Record (r.bytes ++ l) 0 r.head.length := by
  have hbytes : r.bytes ++ l = r.head ++ (starByte :: r.hi :: r.lo :: l) := by
    rw [Reply.bytes, List.append_assoc]
    rfl
  have hget : ∀ j, (r.bytes ++ l)[r.head.length + j]? = (starByte :: r.hi :: r.lo :: l)[j]? := by
    intro j
    rw [hbytes, List.getElem?_append_right (Nat.le_add_right _ _), Nat.add_sub_cancel_left]
  refine ⟨⟨r.text ++ [starByte, r.hi, r.lo] ++ l, ?_⟩, ⟨⟨?_, ?_, ?_⟩, ?_⟩, ?_⟩
  · simp only [Reply.bytes, Reply.head, List.append_assoc, List.drop_zero]
  · rw [Nat.zero_add, Reply.head, List.length_append]
    exact Nat.le_add_right _ _
  · rw [hbytes, ← Nat.add_zero r.head.length, occursAt_append]
    exact ⟨r.hi :: r.lo :: l, rfl⟩
  · refine recordValidAt_iff.mpr ⟨r.hi, r.lo, hget 1, hget 2, r.hi_hex, r.lo_hex, ?_⟩
    rw [hbytes, List.take_left, List.drop_zero]
    exact r.checksum.symm
  · -- an earlier star would stand in the text
    intro k hk
    apply Nat.le_of_not_lt
    intro hlt
    apply r.star_notMem_head
    have hstar : (r.bytes ++ l)[k]? = some starByte := hk.2.1.getElem? Nat.zero_lt_one
    rw [hbytes, List.getElem?_append_left hlt] at hstar
    exact List.mem_of_getElem? hstar
  · intro k hpos hk
    exact r.one_head l hpos (hk.trans r.head_length_lt)

theorem Reply.verdictAt_head (r : Reply) (l : List UInt8) (cmd : CStr) :
    verdictAt (r.bytes ++ l) cmd 0 r.head.length = if r.cmd = cmd.bytes then r.verdict else .none := by
  have htext : recordText (r.bytes ++ l) 0 r.head.length = r.text := by
    rw [recordText, Reply.bytes, List.append_assoc, List.take_left, Reply.head, Nat.zero_add]
    exact List.drop_left' rfl
  rw [verdictAt, htext, r.recordVerdict_text]

/-! ### The stream -/

theorem NoiseApart.rest {it : Item} {rest : List Item} (h : NoiseApart (it :: rest)) : NoiseApart rest :=
  (List.isChain_cons.mp h).2

/-- Where the next item is not noise, a prefix or the end comes before any star. -/
theorem opens_stream {items : List Item} (happart : NoiseApart items)
    (hhead : ∀ it ∈ items.head?, ¬ it.IsNoise) : Opens (stream items) := by
  induction items with
  | nil => exact ⟨[], [], rfl, List.not_mem_nil, Or.inl rfl⟩
  | cons it rest ih =>
      cases it with
      | noise w hw => exact absurd trivial (hhead _ rfl)
      | reply r =>
          refine ⟨[], stream (.reply r :: rest), rfl, List.not_mem_nil, Or.inr ?_⟩
          refine ⟨r.text ++ [starByte, r.hi, r.lo] ++ stream rest, ?_⟩
          simp only [stream, List.flatMap_cons, Item.bytes, Reply.bytes, Reply.head, List.append_assoc]
      | cut r k hk w hw =>
          have hrest : Opens (stream rest) :=
            ih happart.rest fun b hb hnoise => (List.isChain_cons.mp happart).1 b hb hnoise
          apply hrest.append
          rw [Item.bytes, List.mem_append]
          exact not_or.mpr ⟨fun hmem => r.star_notMem_head (List.mem_of_mem_take hmem), hw⟩

/-- After an item that is not a reply. -/
theorem NoiseApart.opens_rest {it : Item} {rest : List Item} (h : NoiseApart (it :: rest))
    (hit : ¬ it.IsReply) : Opens (stream rest) :=
  opens_stream h.rest fun b hb hnoise => hit ((List.isChain_cons.mp h).1 b hb hnoise)

/-- An item in which no record begins leaves the answer to the rest. -/
theorem AnswersFrom.skip {a l : List UInt8} {cmd : CStr} {w v : AckVerdict} (h : AnswersFrom l cmd 0 w v)
    (hnone : ∀ i s, i < a.length → ¬ Record (a ++ l) i s) : AnswersFrom (a ++ l) cmd 0 w v :=
  (h.append a).mono (Nat.zero_le _) fun i s _ hi => hnone i s hi

theorem lastVerdict_reply (w : AckVerdict) (r : Reply) (cmd : CStr) (rest : List Item) :
    lastVerdict w (repliesTo cmd (.reply r :: rest)) =
      lastVerdict (w.update (if r.cmd = cmd.bytes then r.verdict else .none)) (repliesTo cmd rest) := by
  have hreplies : repliesTo cmd (.reply r :: rest) =
      if r.cmd = cmd.bytes then r :: repliesTo cmd rest else repliesTo cmd rest := by
    simp only [repliesTo, List.filterMap_cons, Item.reply?, List.filter_cons, decide_eq_true_eq]
  rw [hreplies]
  by_cases hcmd : r.cmd = cmd.bytes
  · rw [if_pos hcmd, if_pos hcmd, lastVerdict, List.getLast?_cons, lastVerdict]
    have hupdate : w.update r.verdict = r.verdict := by
      rw [Reply.verdict]
      cases r.form <;> rfl
    rw [hupdate]
    cases (repliesTo cmd rest).getLast? <;> rfl
  · rw [if_neg hcmd, if_neg hcmd]
    rfl

/-- **The records of a stream.**  Item by item: a complete reply is one, and no other begins in an item. -/
theorem stream_answers {items : List Item} (happart : NoiseApart items) (cmd : CStr) (w : AckVerdict) :
    AnswersFrom (stream items) cmd 0 w (lastVerdict w (repliesTo cmd items)) := by
  induction items generalizing w with
  | nil =>
      refine Or.inl ⟨rfl, ?_⟩
      intro i s _ hrec
      exact absurd hrec.lt_length (Nat.not_lt_zero s)
  | cons it rest ih =>
      have hrest := ih happart.rest
      cases it with
      | noise w' hw =>
          apply (hrest w).skip
          intro i s hi hrec
          apply hw
          have hopens : Opens (stream rest) := happart.opens_rest id
          have hend := hrec.body_le.trans (hrec.lt_of_opens hopens hi).le
          have hinside : OccursAt commandPrefix w' i := hrec.head.of_append hend
          exact hinside.isInfix.trans (List.drop_suffix i w').isInfix
      | cut r k hk w' hw =>
          apply (hrest w).skip
          intro i s hi hrec
          have hopens : Opens (stream rest) := happart.opens_rest id
          have hstar := hrec.star_getElem?
          rw [List.getElem?_append_left (hrec.lt_of_opens hopens hi)] at hstar
          rcases List.mem_append.mp (List.mem_of_getElem? hstar) with hmem | hmem
          · exact r.star_notMem_head (List.mem_of_mem_take hmem)
          · exact hw hmem
      | reply r =>
          rw [lastVerdict_reply, ← r.verdictAt_head (stream rest)]
          apply AnswersFrom.cons (r.record (stream rest))
          apply ((hrest _).append r.bytes).mono r.head_length_lt.le
          intro i s hge hlt hrec
          have hpos : 0 < r.head.length := Nat.lt_of_lt_of_le (Nat.succ_pos 8) (r.record []).body_le
          exact r.one_head (stream rest) (by omega) hlt hrec.head

/-- An answer is the only one. -/
theorem AnswersFrom.unique {buf : List UInt8} {cmd : CStr} {pos : ℕ} {w v v' : AckVerdict}
    (h : AnswersFrom buf cmd pos w v) (h' : AnswersFrom buf cmd pos w v') : v = v' := by
  rcases h with ⟨rfl, hall⟩ | ⟨i, s, hi, hrec, hverdict, hne, hlast⟩
  · rcases h' with ⟨rfl, _⟩ | ⟨i', s', hi', hrec', hverdict', hne', _⟩
    · rfl
    · exact absurd (hverdict'.symm.trans (hall i' s' hi' hrec')) hne'
  · rcases h' with ⟨rfl, hall⟩ | ⟨i', s', hi', hrec', hverdict', hne', hlast'⟩
    · exact absurd (hverdict.symm.trans (hall i s hi hrec)) hne
    · rcases Nat.lt_trichotomy i i' with hlt | rfl | hgt
      · exact absurd (hverdict'.symm.trans (hlast i' s' hlt hrec')) hne'
      · rw [← hverdict, ← hverdict', hrec.unique hrec']
      · exact absurd (hverdict.symm.trans (hlast' i s hgt hrec)) hne

/-- **Every stream is decoded.**  The scan gives the verdict of the last complete reply to the command, and
none where there is no such reply. -/
theorem gnssAckScan_stream (items : List Item) (happart : NoiseApart items) (cmd : CStr) :
    gnssAckScan (stream items) cmd = lastVerdict .none (repliesTo cmd items) :=
  (gnssAckScan_answers (stream items) cmd).unique (stream_answers happart cmd .none)

def commandA : CStr := ⟨textBytes ['A'], by decide⟩

/-- `$command,A,response: OK*1f`. -/
def approvalOfA : Reply where
  cmd := textBytes ['A']
  form := .ok
  hi := '1'.toUInt8
  lo := 'f'.toUInt8
  cmd_ne_nil := by decide
  star_notMem := by decide
  dollar_notMem := by decide
  cmd_noMark := by decide
  cmd_noEcho := by decide
  cmd_noSpace := by decide
  hi_hex := by decide
  lo_hex := by decide
  checksum := by decide

/-- Noise in two items. -/
def splitNoise : List Item :=
  [.noise (approvalOfA.bytes.take 5) (by decide), .noise (approvalOfA.bytes.drop 5) (by decide)]

/-- The reply without its star, one blank, and noise. -/
def brokenReply : List Item :=
  [.cut approvalOfA approvalOfA.head.length (by decide) [space] (by decide),
   .noise [starByte, '3'.toUInt8, 'f'.toUInt8] (by decide)]

/-- **Noise makes up a reply.**  Neither stream has a complete reply, and both are scanned as an approval. -/
theorem split_noise_approves :
    gnssAckScan (stream splitNoise) commandA = .ok ∧ repliesTo commandA splitNoise = [] ∧
      gnssAckScan (stream brokenReply) commandA = .ok ∧ repliesTo commandA brokenReply = [] ∧
      ¬ ∀ (items : List Item) (cmd : CStr),
        gnssAckScan (stream items) cmd = lastVerdict .none (repliesTo cmd items) := by
  have hsplit : gnssAckScan (stream splitNoise) commandA = .ok := by decide +kernel
  have hnone : lastVerdict .none (repliesTo commandA splitNoise) = .none := by decide +kernel
  refine ⟨hsplit, by decide +kernel, by decide +kernel, by decide +kernel, ?_⟩
  intro h
  have hdecoded := h splitNoise commandA
  rw [hsplit, hnone] at hdecoded
  exact absurd hdecoded (by decide)

/-- A reply between noise, and a reply that is cut off after it. -/
theorem gnssAckScan_stream_example :
    gnssAckScan (stream [.noise [0, starByte] (by decide), .reply approvalOfA,
      .noise [space] (by decide), .cut approvalOfA 12 (by decide) [] (by decide)]) commandA = .ok :=
  (gnssAckScan_stream [.noise [0, starByte] (by decide), .reply approvalOfA,
    .noise [space] (by decide), .cut approvalOfA 12 (by decide) [] (by decide)]
    (by simp [NoiseApart, Item.IsNoise, Item.IsReply]) commandA).trans (by decide)

end RtkdataFw.Gnss
