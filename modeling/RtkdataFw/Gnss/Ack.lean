import Mathlib.Data.List.DropRight
import RtkdataFw.Lib.CStr
import RtkdataFw.Lib.Substring

/-!
# The acknowledgements of the receiver, `gnss_ack.c`

The receiver answers a command with a record `$command,<text>*HH` in the middle of binary data.  `starLoop`
and `scanLoop` are the loops of `gnss_ack_scan`; the text of a record, between its prefix and its star, is
judged by `recordVerdict`.

* `Record` — a prefix, the first star after it whose checksum is right, and no other prefix between them;
* `starLoop_eq_some_iff`, `scanLoop_answers` — the loops find the records, and the last verdict wins;
* `recordVerdict_ok`, `recordVerdict_fail` — the texts behind a verdict;
* `gnssAckScan_sound` — no approval and no reject without such a record.
-/

namespace RtkdataFw.Gnss

open RtkdataFw.Lib

/-- `gnss_ack_verdict_t`. -/
inductive AckVerdict where
  | none
  | ok
  | fail
  deriving DecidableEq, Repr

def textBytes (cs : List Char) : List UInt8 := cs.map Char.toUInt8

/-- `PREFIX`. -/
def commandPrefix : List UInt8 := textBytes ['$', 'c', 'o', 'm', 'm', 'a', 'n', 'd', ',']

/-- `PREFIX_LEN`. -/
def prefixLen : ℕ := 9

def dollar : UInt8 := '$'.toUInt8

def starByte : UInt8 := '*'.toUInt8

def space : UInt8 := ' '.toUInt8

def carriageReturn : UInt8 := '\r'.toUInt8

/-- `"response:"`, which follows the prefix directly where the command is not echoed. -/
def noEchoMark : List UInt8 := textBytes ['r', 'e', 's', 'p', 'o', 'n', 's', 'e', ':']

/-- `",response:"`. -/
def responseMark : List UInt8 := textBytes [',', 'r', 'e', 's', 'p', 'o', 'n', 's', 'e', ':']

/-- `"NO MATCHING FUNC"`. -/
def noMatchingFunc : List UInt8 :=
  textBytes ['N', 'O', ' ', 'M', 'A', 'T', 'C', 'H', 'I', 'N', 'G', ' ', 'F', 'U', 'N', 'C']

/-- `"PARSING FAIL"`. -/
def parsingFail : List UInt8 := textBytes ['P', 'A', 'R', 'S', 'I', 'N', 'G', ' ', 'F', 'A', 'I', 'L']

/-- `"OK"`. -/
def okText : List UInt8 := textBytes ['O', 'K']

/-! ### The code -/

/-- `find_at`: the first occurrence from `start` on that ends by `n`. -/
def findAt (hay : List UInt8) (n start : ℕ) (needle : List UInt8) : Option ℕ :=
  if needle.length = 0 ∨ n < needle.length then none
  else findFrom needle hay start (n + 1 - needle.length - start)

def isHex (c : UInt8) : Bool :=
  ('0'.toUInt8 ≤ c && c ≤ '9'.toUInt8) || ('a'.toUInt8 ≤ c && c ≤ 'f'.toUInt8) ||
    ('A'.toUInt8 ≤ c && c ≤ 'F'.toUInt8)

def hexVal (c : UInt8) : UInt8 :=
  if '0'.toUInt8 ≤ c ∧ c ≤ '9'.toUInt8 then c - '0'.toUInt8
  else if 'a'.toUInt8 ≤ c ∧ c ≤ 'f'.toUInt8 then c - 'a'.toUInt8 + 10
  else c - 'A'.toUInt8 + 10

/-- The value of two checksum digits. -/
def hexByte (hi lo : UInt8) : UInt8 := hexVal hi <<< 4 ||| hexVal lo

def xorSum (l : List UInt8) : UInt8 := l.foldl (· ^^^ ·) 0

/-- `record_valid_at`: two checksum digits after the star give the XOR from the `$` on. -/
def recordValidAt (buf : List UInt8) (start star : ℕ) : Bool :=
  match buf[star + 1]?, buf[star + 2]? with
  | some hi, some lo =>
      isHex hi && isHex lo && decide (xorSum ((buf.take star).drop start) = hexByte hi lo)
  | _, _ => false

theorem findAt_eq_some_iff {hay needle : List UInt8} {n start j : ℕ} (hne : needle ≠ []) :
    findAt hay n start needle = some j ↔
      IsLeast {k | start ≤ k ∧ OccursAt needle hay k} j ∧ j + needle.length ≤ n := by
  have hpos := List.length_pos_of_ne_nil hne
  rw [findAt]
  by_cases hshort : n < needle.length
  · rw [if_pos (Or.inr hshort)]
    exact iff_of_false (by simp) fun h => by omega
  · rw [if_neg (by omega), findFrom_eq_some_iff]
    constructor
    · intro h
      obtain ⟨hleast, hlt⟩ := h
      have hge := hleast.1.1
      exact ⟨hleast, by omega⟩
    · intro h
      obtain ⟨hleast, hle⟩ := h
      have hge := hleast.1.1
      exact ⟨hleast, by omega⟩

theorem findAt_eq_none_iff {hay needle : List UInt8} {n start : ℕ} (hne : needle ≠ []) :
    findAt hay n start needle = none ↔
      ∀ k, start ≤ k → k + needle.length ≤ n → ¬ OccursAt needle hay k := by
  have hpos := List.length_pos_of_ne_nil hne
  rw [findAt]
  by_cases hshort : n < needle.length
  · rw [if_pos (Or.inr hshort)]
    apply iff_of_true rfl
    intro k _ hle
    omega
  · rw [if_neg (by omega), findFrom_eq_none_iff]
    constructor
    · intro hnone k hle hend
      exact hnone k hle (by omega)
    · intro hnone k hle hlt
      exact hnone k hle (by omega)

/-- What a search finds lies in the buffer. -/
theorem findAt_lt {hay needle : List UInt8} {n start j : ℕ} (hne : needle ≠ [])
    (h : findAt hay n start needle = some j) : start ≤ j ∧ j < n := by
  obtain ⟨hleast, hend⟩ := (findAt_eq_some_iff hne).mp h
  have hpos := List.length_pos_of_ne_nil hne
  exact ⟨hleast.1.1, by omega⟩

theorem commandPrefix_ne_nil : commandPrefix ≠ [] := List.cons_ne_nil _ _

theorem responseMark_ne_nil : responseMark ≠ [] := List.cons_ne_nil _ _

theorem noMatchingFunc_ne_nil : noMatchingFunc ≠ [] := List.cons_ne_nil _ _

/-- The stars from `start` on, up to the first one whose checksum is right; a star past the next prefix
belongs to a later record. -/
def starLoop (buf : List UInt8) (rec : ℕ) (next : Option ℕ) (start : ℕ) : Option ℕ :=
  match h : findAt buf buf.length start [starByte] with
  | none => none
  | some s =>
      if ∃ k ∈ next, k < s then none
      else if recordValidAt buf rec s then some s
      else starLoop buf rec next (s + 1)
termination_by buf.length - start
decreasing_by
  have hlt := findAt_lt (List.cons_ne_nil _ _) h
  omega

/-- The part of a text after its blanks, without the blanks and carriage returns at its end. -/
def trimVerdict (text : List UInt8) : List UInt8 :=
  (text.dropWhile (· == space)).rdropWhile fun c => c == space || c == carriageReturn

/-- A record without an echo: the command follows `NO MATCHING FUNC` and ends the text. -/
def noEchoVerdict (text : List UInt8) (cmd : CStr) : AckVerdict :=
  match findAt text text.length 0 noMatchingFunc with
  | none => .none
  | some func =>
      if (text.drop (func + noMatchingFunc.length)).dropWhile (· == space) = cmd.bytes then .fail
      else .none

/-- A record that echoes the command before `,response:`. -/
def echoVerdict (text : List UInt8) (cmd : CStr) : AckVerdict :=
  match findAt text text.length 0 responseMark with
  | none => .none
  | some resp =>
      if text.take resp = cmd.bytes then
        let v := trimVerdict (text.drop (resp + responseMark.length))
        if parsingFail <+: v then .fail
        else if v = okText then .ok
        else .none
      else .none

/-- What the text of a record, from its prefix to its star, says about `cmd`. -/
def recordVerdict (text : List UInt8) (cmd : CStr) : AckVerdict :=
  if noEchoMark <+: text then noEchoVerdict text cmd else echoVerdict text cmd

/-- The text of the record at `rec` that ends at `star`. -/
def recordText (buf : List UInt8) (rec star : ℕ) : List UInt8 := (buf.take star).drop (rec + prefixLen)

/-- A verdict that is recognised replaces the one before. -/
def AckVerdict.update (v : AckVerdict) : AckVerdict → AckVerdict
  | .none => v
  | w => w

/-- A star at `s` whose checksum closes a record that begins at `i`. -/
def ValidStar (buf : List UInt8) (i s : ℕ) : Prop :=
  OccursAt [starByte] buf s ∧ recordValidAt buf i s = true

/-- The loop finds the first star whose checksum is right, unless it lies past the next prefix. -/
theorem starLoop_eq_some_iff {buf : List UInt8} {rec : ℕ} {next : Option ℕ} {start s : ℕ} :
    starLoop buf rec next start = some s ↔
      IsLeast {k | start ≤ k ∧ ValidStar buf rec k} s ∧ ∀ k ∈ next, s ≤ k := by
  induction start using starLoop.induct buf rec next with
  | case1 start hnone =>
      rw [starLoop, hnone]
      apply iff_of_false (by simp)
      intro h
      obtain ⟨⟨⟨hle, hstar, _⟩, _⟩, _⟩ := h
      exact (findAt_eq_none_iff (List.cons_ne_nil _ _)).mp hnone s hle
        (hstar.le_length (List.cons_ne_nil _ _)) hstar
  | case2 start t hsome hnext =>
      have hfirst := ((findAt_eq_some_iff (List.cons_ne_nil _ _)).mp hsome).1
      rw [starLoop, hsome]
      simp only [if_pos hnext]
      apply iff_of_false (by simp)
      intro h
      obtain ⟨⟨⟨hle, hstar, _⟩, _⟩, hall⟩ := h
      obtain ⟨k, hk, hlt⟩ := hnext
      have hts : t ≤ s := hfirst.2 ⟨hle, hstar⟩
      have hsk := hall k hk
      omega
  | case3 start t hsome hnext hvalid =>
      have hfirst := ((findAt_eq_some_iff (List.cons_ne_nil _ _)).mp hsome).1
      have hleast : IsLeast {k | start ≤ k ∧ ValidStar buf rec k} t :=
        ⟨⟨hfirst.1.1, hfirst.1.2, hvalid⟩, fun k hk => hfirst.2 ⟨hk.1, hk.2.1⟩⟩
      rw [starLoop, hsome]
      simp only [if_neg hnext, if_pos hvalid, Option.some_inj]
      constructor
      · rintro rfl
        exact ⟨hleast, fun k hk => Nat.le_of_not_lt fun hlt => hnext ⟨k, hk, hlt⟩⟩
      · exact fun h => hleast.unique h.1
  | case4 start t hsome hnext hvalid ih =>
      have hfirst := ((findAt_eq_some_iff (List.cons_ne_nil _ _)).mp hsome).1
      -- before `t` no star stands, and its own checksum is wrong
      have hset : {k | start ≤ k ∧ ValidStar buf rec k} = {k | t + 1 ≤ k ∧ ValidStar buf rec k} := by
        ext k
        constructor
        · intro h
          obtain ⟨hle, hk⟩ := h
          have htk : t ≤ k := hfirst.2 ⟨hle, hk.1⟩
          exact ⟨Nat.lt_of_le_of_ne htk fun heq => hvalid (heq ▸ hk.2), hk⟩
        · intro h
          obtain ⟨hle, hk⟩ := h
          have hge := hfirst.1.1
          exact ⟨by omega, hk⟩
      rw [starLoop, hsome]
      simp only [if_neg hnext, if_neg hvalid]
      rw [ih, hset]

/-- The records from `pos` on, each with its verdict: the last one that is recognised wins. -/
def scanLoop (buf : List UInt8) (cmd : CStr) (pos : ℕ) (verdict : AckVerdict) : AckVerdict :=
  match _hrec : findAt buf buf.length pos commandPrefix with
  | none => verdict
  | some rec =>
      let body := rec + prefixLen
      let next := findAt buf buf.length body commandPrefix
      match _hstar : starLoop buf rec next body with
      | none => scanLoop buf cmd body verdict
      | some star =>
          if ∃ k ∈ next, k < star then scanLoop buf cmd body verdict
          else scanLoop buf cmd star (verdict.update (recordVerdict (recordText buf rec star) cmd))
termination_by buf.length - pos
decreasing_by
  all_goals
    have hpos := findAt_lt commandPrefix_ne_nil _hrec
    have hlen : 0 < prefixLen := Nat.succ_pos 8
  · show buf.length - (rec + prefixLen) < buf.length - pos
    omega
  · show buf.length - (rec + prefixLen) < buf.length - pos
    omega
  · have hge : rec + prefixLen ≤ star := (starLoop_eq_some_iff.mp _hstar).1.1.1
    omega

def gnssAckScan (buf : List UInt8) (cmd : CStr) : AckVerdict :=
  if buf.length = 0 then .none else scanLoop buf cmd 0 .none

/-! ### Records -/

/-- A record: a prefix at `i`, the first star after it at which the checksum is right at `s`, and no other
prefix between them. -/
structure Record (buf : List UInt8) (i s : ℕ) : Prop where
  head : OccursAt commandPrefix buf i
  star : IsLeast {k | i + prefixLen ≤ k ∧ ValidStar buf i k} s
  alone : ∀ k, i < k → k < s → ¬ OccursAt commandPrefix buf k

theorem Record.body_le {buf : List UInt8} {i s : ℕ} (h : Record buf i s) : i + prefixLen ≤ s := h.star.1.1

theorem Record.lt_length {buf : List UInt8} {i s : ℕ} (h : Record buf i s) : s < buf.length :=
  h.star.1.2.1.le_length (List.cons_ne_nil _ _)

theorem Record.unique {buf : List UInt8} {i s s' : ℕ} (h : Record buf i s) (h' : Record buf i s') : s = s' :=
  h.star.unique h'.star

theorem dollar_notMem_tail : dollar ∉ commandPrefix.tail := by decide

/-- Two prefixes do not overlap. -/
theorem commandPrefix_apart {buf : List UInt8} {i j : ℕ} (hi : OccursAt commandPrefix buf i)
    (hj : OccursAt commandPrefix buf j) (hlt : i < j) : i + prefixLen ≤ j :=
  OccursAt.apart dollar_notMem_tail hi hj hlt

/-- **The star loop finds the records.**  The prefix that bounds the loop is the next one. -/
theorem starLoop_record {buf : List UInt8} {i s : ℕ} (hhead : OccursAt commandPrefix buf i) :
    starLoop buf i (findAt buf buf.length (i + prefixLen) commandPrefix) (i + prefixLen) = some s ↔
      Record buf i s := by
  rw [starLoop_eq_some_iff]
  constructor
  · intro h
    obtain ⟨hleast, hnext⟩ := h
    refine ⟨hhead, hleast, ?_⟩
    intro k hlt hks hk
    cases hfind : findAt buf buf.length (i + prefixLen) commandPrefix with
    | none =>
        exact (findAt_eq_none_iff commandPrefix_ne_nil).mp hfind k (commandPrefix_apart hhead hk hlt)
          (hk.le_length commandPrefix_ne_nil) hk
    | some j =>
        have hfirst := ((findAt_eq_some_iff commandPrefix_ne_nil).mp hfind).1
        have hjk : j ≤ k := hfirst.2 ⟨commandPrefix_apart hhead hk hlt, hk⟩
        have hsj : s ≤ j := hnext j hfind
        omega
  · intro h
    refine ⟨h.star, ?_⟩
    intro j hj
    apply Nat.le_of_not_lt
    intro hlt
    have hfirst := ((findAt_eq_some_iff commandPrefix_ne_nil).mp hj).1
    have hbody : i + prefixLen ≤ j := hfirst.1.1
    have hlen : 0 < prefixLen := Nat.succ_pos 8
    exact h.alone j (by omega) hlt hfirst.1.2

/-- The verdict of the record from `i` to `s`. -/
def verdictAt (buf : List UInt8) (cmd : CStr) (i s : ℕ) : AckVerdict :=
  recordVerdict (recordText buf i s) cmd

/-- `v` is the verdict of the last record from `pos` on that has one for `cmd`, and `w` where none has. -/
def AnswersFrom (buf : List UInt8) (cmd : CStr) (pos : ℕ) (w v : AckVerdict) : Prop :=
  (v = w ∧ ∀ i s, pos ≤ i → Record buf i s → verdictAt buf cmd i s = .none) ∨
    ∃ i s, pos ≤ i ∧ Record buf i s ∧ verdictAt buf cmd i s = v ∧ v ≠ .none ∧
      ∀ i' s', i < i' → Record buf i' s' → verdictAt buf cmd i' s' = .none

/-- What has no record before `pos'` is answered from `pos'` on. -/
theorem AnswersFrom.mono {buf : List UInt8} {cmd : CStr} {pos pos' : ℕ} {w v : AckVerdict}
    (h : AnswersFrom buf cmd pos' w v) (hle : pos ≤ pos')
    (hnone : ∀ i s, pos ≤ i → i < pos' → ¬ Record buf i s) : AnswersFrom buf cmd pos w v := by
  rcases h with ⟨rfl, hall⟩ | ⟨i, s, hi, hrec⟩
  · refine Or.inl ⟨rfl, ?_⟩
    intro i s hi hrec
    refine hall i s (Nat.le_of_not_lt ?_) hrec
    intro hlt
    exact hnone i s hi hlt hrec
  · exact Or.inr ⟨i, s, hle.trans hi, hrec⟩

/-- A record, and the answer from its star on. -/
theorem AnswersFrom.cons {buf : List UInt8} {cmd : CStr} {i s : ℕ} {w v : AckVerdict}
    (hrec : Record buf i s) (h : AnswersFrom buf cmd s (w.update (verdictAt buf cmd i s)) v) :
    AnswersFrom buf cmd i w v := by
  -- the records from `i` on are this one and those from its star on
  have hsplit : ∀ i' s', i < i' → Record buf i' s' → s ≤ i' := fun i' s' hlt hrec' =>
    Nat.le_of_not_lt fun hs => hrec.alone i' hlt hs hrec'.head
  have hlen : i < s := Nat.lt_of_lt_of_le (Nat.lt_add_of_pos_right (Nat.succ_pos 8)) hrec.body_le
  rcases h with ⟨hv, hall⟩ | ⟨i', s', hi', hrec'⟩
  · by_cases hnone : verdictAt buf cmd i s = .none
    · rw [hnone] at hv
      refine Or.inl ⟨hv, ?_⟩
      intro i' s' hi' hrec'
      rcases Nat.eq_or_lt_of_le hi' with rfl | hlt
      · rw [hrec'.unique hrec]
        exact hnone
      · exact hall i' s' (hsplit i' s' hlt hrec') hrec'
    · have hupd : w.update (verdictAt buf cmd i s) = verdictAt buf cmd i s := by
        cases hverdict : verdictAt buf cmd i s with
        | none => exact absurd hverdict hnone
        | ok => rfl
        | fail => rfl
      rw [hupd] at hv
      refine Or.inr ⟨i, s, Nat.le_refl i, hrec, hv.symm, hv ▸ hnone, ?_⟩
      intro i' s' hlt hrec'
      exact hall i' s' (hsplit i' s' hlt hrec') hrec'
  · exact Or.inr ⟨i', s', by omega, hrec'⟩

/-- **One round of the scan**: no prefix is left; a prefix whose star is missing; a record, its star before the
next prefix. -/
theorem scan_round (buf : List UInt8) (pos : ℕ) :
    (findAt buf buf.length pos commandPrefix = none ∧ ∀ i s, pos ≤ i → ¬ Record buf i s) ∨
      ∃ rec, findAt buf buf.length pos commandPrefix = some rec ∧ pos ≤ rec ∧ rec < buf.length ∧
        ((starLoop buf rec (findAt buf buf.length (rec + prefixLen) commandPrefix) (rec + prefixLen) = none ∧
            ∀ i s, pos ≤ i → Record buf i s → rec + prefixLen ≤ i) ∨
          ∃ star, starLoop buf rec (findAt buf buf.length (rec + prefixLen) commandPrefix)
              (rec + prefixLen) = some star ∧
            (¬ ∃ k ∈ findAt buf buf.length (rec + prefixLen) commandPrefix, k < star) ∧
            Record buf rec star ∧ ∀ i s, pos ≤ i → Record buf i s → i = rec ∨ star ≤ i) := by
  cases hfind : findAt buf buf.length pos commandPrefix with
  | none =>
      refine Or.inl ⟨rfl, ?_⟩
      intro i s hi hrec
      exact (findAt_eq_none_iff commandPrefix_ne_nil).mp hfind i hi
        (hrec.head.le_length commandPrefix_ne_nil) hrec.head
  | some rec =>
      have hfirst := ((findAt_eq_some_iff commandPrefix_ne_nil).mp hfind).1
      have hlt := (findAt_lt commandPrefix_ne_nil hfind).2
      -- a record that is not at this prefix is behind it: prefixes do not overlap
      have hapart : ∀ i s, pos ≤ i → Record buf i s → i = rec ∨ rec + prefixLen ≤ i := by
        intro i s hi hrec
        rcases Nat.eq_or_lt_of_le (hfirst.2 ⟨hi, hrec.head⟩) with heq | hgt
        · exact Or.inl heq.symm
        · exact Or.inr (commandPrefix_apart hfirst.1.2 hrec.head hgt)
      refine Or.inr ⟨rec, rfl, hfirst.1.1, hlt, ?_⟩
      cases hstar : starLoop buf rec (findAt buf buf.length (rec + prefixLen) commandPrefix)
          (rec + prefixLen) with
      | none =>
          refine Or.inl ⟨rfl, ?_⟩
          intro i s hi hrec
          rcases hapart i s hi hrec with rfl | hge
          · rw [(starLoop_record hfirst.1.2).mpr hrec] at hstar
            exact absurd hstar (by simp)
          · exact hge
      | some star =>
          have hrecord := (starLoop_record hfirst.1.2).mp hstar
          refine Or.inr ⟨star, rfl, ?_, hrecord, ?_⟩
          · intro h
            obtain ⟨k, hk, hbefore⟩ := h
            exact absurd ((starLoop_eq_some_iff.mp hstar).2 k hk) (Nat.not_le.mpr hbefore)
          · intro i s hi hrec
            rcases hapart i s hi hrec with heq | hge
            · exact Or.inl heq
            · refine Or.inr (Nat.le_of_not_lt fun hbefore => hrecord.alone i ?_ hbefore hrec.head)
              have hlen : 0 < prefixLen := Nat.succ_pos 8
              omega

/-- **The last verdict wins.** -/
theorem scanLoop_answers (buf : List UInt8) (cmd : CStr) (pos : ℕ) (w : AckVerdict) :
    AnswersFrom buf cmd pos w (scanLoop buf cmd pos w) := by
  have hlen : 0 < prefixLen := Nat.succ_pos 8
  induction hleft : buf.length - pos using Nat.strongRecOn generalizing pos w with
  | ind left ih =>
      rw [scanLoop]
      rcases scan_round buf pos with ⟨hfind, hnone⟩ |
        ⟨rec, hfind, hge, hlt, ⟨hstar, hbehind⟩ | ⟨star, hstar, hnext, hrecord, hbehind⟩⟩
      · rw [hfind]
        refine Or.inl ⟨rfl, ?_⟩
        intro i s hi hrec
        exact absurd hrec (hnone i s hi)
      · rw [hfind]
        dsimp only
        rw [hstar]
        have hrest := ih _ (by omega) (rec + prefixLen) w rfl
        apply hrest.mono (hge.trans (Nat.le_add_right _ _))
        intro i s hi hbefore hrec
        exact absurd (hbehind i s hi hrec) (Nat.not_le.mpr hbefore)
      · rw [hfind]
        dsimp only
        rw [hstar]
        have hbody := hrecord.body_le
        have hend := hrecord.lt_length
        have hrest := ih _ (by omega) star (w.update (verdictAt buf cmd rec star)) rfl
        dsimp only
        rw [if_neg hnext]
        apply (AnswersFrom.cons hrecord hrest).mono hge
        intro i s hi hbefore hrec
        rcases hbehind i s hi hrec with heq | hafter
        · omega
        · omega

/-- **The scan gives the last verdict of the buffer.** -/
theorem gnssAckScan_answers (buf : List UInt8) (cmd : CStr) :
    AnswersFrom buf cmd 0 .none (gnssAckScan buf cmd) := by
  rw [gnssAckScan]
  by_cases hempty : buf.length = 0
  · rw [if_pos hempty]
    refine Or.inl ⟨rfl, ?_⟩
    intro i s _ hrec
    have hlt := hrec.lt_length
    omega
  · rw [if_neg hempty]
    exact scanLoop_answers buf cmd 0 .none

/-! ### The texts behind a verdict -/

theorem spaces_dropWhile (l : List UInt8) :
    ∃ m, l = List.replicate m space ++ l.dropWhile (· == space) := by
  refine ⟨(l.takeWhile (· == space)).length, ?_⟩
  have hspaces : l.takeWhile (· == space) =
      List.replicate (l.takeWhile (· == space)).length space := by
    apply List.eq_replicate_of_mem
    intro c hc
    have hblank := List.mem_takeWhile_imp hc
    simpa using hblank
  exact List.takeWhile_append_dropWhile.symm.trans (congrArg (· ++ _) hspaces)

/-- What a verdict is trimmed of: spaces before it, spaces and carriage returns after it. -/
theorem trimVerdict_append (l : List UInt8) :
    ∃ m w, (∀ c ∈ w, c = space ∨ c = carriageReturn) ∧
      l = List.replicate m space ++ trimVerdict l ++ w := by
  obtain ⟨m, hm⟩ := spaces_dropWhile l
  refine ⟨m, (l.dropWhile (· == space)).rtakeWhile fun c => c == space || c == carriageReturn, ?_, ?_⟩
  · intro c hc
    have hblank := List.mem_rtakeWhile_imp hc
    simpa using hblank
  · rw [trimVerdict, List.append_assoc, List.rdropWhile_append_rtakeWhile]
    exact hm

theorem findAt_split {hay needle : List UInt8} {n start j : ℕ} (hne : needle ≠ [])
    (h : findAt hay n start needle = some j) :
    hay = hay.take j ++ needle ++ hay.drop (j + needle.length) := by
  obtain ⟨t, ht⟩ := ((findAt_eq_some_iff hne).mp h).1.1.2
  have hdrop : hay.drop (j + needle.length) = t := by
    rw [← List.drop_drop, ← ht, List.drop_left]
  rw [hdrop, List.append_assoc, ht, List.take_append_drop]

/-- A reject: the echo of `cmd` and `PARSING FAIL`, or no echo, `NO MATCHING FUNC` and `cmd` at the end. -/
def RejectText (text : List UInt8) (cmd : CStr) : Prop :=
  (∃ m t, text = cmd.bytes ++ responseMark ++ List.replicate m space ++ parsingFail ++ t) ∨
    noEchoMark <+: text ∧ ∃ t m, text = t ++ noMatchingFunc ++ List.replicate m space ++ cmd.bytes

/-- An approval: the echo of `cmd` and `OK`, blanks apart. -/
def OkText (text : List UInt8) (cmd : CStr) : Prop :=
  ∃ m w, (∀ c ∈ w, c = space ∨ c = carriageReturn) ∧
    text = cmd.bytes ++ responseMark ++ List.replicate m space ++ okText ++ w

theorem echoVerdict_cases (text : List UInt8) (cmd : CStr) :
    echoVerdict text cmd = .none ∨
      echoVerdict text cmd = .ok ∧ OkText text cmd ∨
      echoVerdict text cmd = .fail ∧
        ∃ m t, text = cmd.bytes ++ responseMark ++ List.replicate m space ++ parsingFail ++ t := by
  rw [echoVerdict]
  cases hfind : findAt text text.length 0 responseMark with
  | none => exact Or.inl rfl
  | some resp =>
      have hsplit := findAt_split responseMark_ne_nil hfind
      obtain ⟨m, w, hw, htrim⟩ := trimVerdict_append (text.drop (resp + responseMark.length))
      dsimp only
      by_cases hecho : text.take resp = cmd.bytes
      · rw [if_pos hecho]
        rw [hecho] at hsplit
        by_cases hfail : parsingFail <+: trimVerdict (text.drop (resp + responseMark.length))
        · obtain ⟨t, ht⟩ := hfail
          rw [if_pos ⟨t, ht⟩]
          refine Or.inr (Or.inr ⟨rfl, m, t ++ w, ?_⟩)
          rw [← ht] at htrim
          rw [htrim] at hsplit
          simpa only [List.append_assoc] using hsplit
        · rw [if_neg hfail]
          by_cases hok : trimVerdict (text.drop (resp + responseMark.length)) = okText
          · rw [if_pos hok]
            refine Or.inr (Or.inl ⟨rfl, m, w, hw, ?_⟩)
            rw [hok] at htrim
            rw [htrim] at hsplit
            simpa only [List.append_assoc] using hsplit
          · rw [if_neg hok]
            exact Or.inl rfl
      · rw [if_neg hecho]
        exact Or.inl rfl

theorem noEchoVerdict_cases (text : List UInt8) (cmd : CStr) :
    noEchoVerdict text cmd = .none ∨
      noEchoVerdict text cmd = .fail ∧
        ∃ t m, text = t ++ noMatchingFunc ++ List.replicate m space ++ cmd.bytes := by
  rw [noEchoVerdict]
  cases hfind : findAt text text.length 0 noMatchingFunc with
  | none => exact Or.inl rfl
  | some func =>
      dsimp only
      by_cases hcmd : (text.drop (func + noMatchingFunc.length)).dropWhile (· == space) = cmd.bytes
      · rw [if_pos hcmd]
        obtain ⟨m, hm⟩ := spaces_dropWhile (text.drop (func + noMatchingFunc.length))
        refine Or.inr ⟨rfl, text.take func, m, ?_⟩
        rw [← hcmd, List.append_assoc, ← hm]
        exact findAt_split noMatchingFunc_ne_nil hfind
      · rw [if_neg hcmd]
        exact Or.inl rfl

theorem recordVerdict_ok {text : List UInt8} {cmd : CStr} (h : recordVerdict text cmd = .ok) :
    OkText text cmd := by
  rw [recordVerdict] at h
  split at h
  · rcases noEchoVerdict_cases text cmd with hnone | ⟨hfail, _⟩
    · exact absurd (hnone.symm.trans h) (by simp)
    · exact absurd (hfail.symm.trans h) (by simp)
  · rcases echoVerdict_cases text cmd with hnone | ⟨_, hok⟩ | ⟨hfail, _⟩
    · exact absurd (hnone.symm.trans h) (by simp)
    · exact hok
    · exact absurd (hfail.symm.trans h) (by simp)

theorem recordVerdict_fail {text : List UInt8} {cmd : CStr} (h : recordVerdict text cmd = .fail) :
    RejectText text cmd := by
  rw [recordVerdict] at h
  split at h
  · rename_i hecho
    rcases noEchoVerdict_cases text cmd with hnone | ⟨_, hfail⟩
    · exact absurd (hnone.symm.trans h) (by simp)
    · exact Or.inr ⟨hecho, hfail⟩
  · rcases echoVerdict_cases text cmd with hnone | ⟨hok, _⟩ | ⟨_, hfail⟩
    · exact absurd (hnone.symm.trans h) (by simp)
    · exact absurd (hok.symm.trans h) (by simp)
    · exact Or.inl hfail

/-! ### No false verdict -/

/-- The bytes `$command,`, `text`, a star and two hex digits that give the XOR from the `$` on stand at `i`,
and no other prefix begins before that star. -/
structure SignedAt (buf text : List UInt8) (i : ℕ) : Prop where
  bytes : ∃ hi lo, isHex hi = true ∧ isHex lo = true ∧ hexByte hi lo = xorSum (commandPrefix ++ text) ∧
    OccursAt (commandPrefix ++ text ++ [starByte, hi, lo]) buf i
  alone : ∀ k, i < k → k < i + (commandPrefix ++ text).length → ¬ OccursAt commandPrefix buf k

theorem recordValidAt_iff {buf : List UInt8} {i s : ℕ} :
    recordValidAt buf i s = true ↔ ∃ hi lo, buf[s + 1]? = some hi ∧ buf[s + 2]? = some lo ∧
      isHex hi = true ∧ isHex lo = true ∧ xorSum ((buf.take s).drop i) = hexByte hi lo := by
  rw [recordValidAt]
  cases hhi : buf[s + 1]? with
  | none => simp
  | some hi =>
      cases hlo : buf[s + 2]? with
      | none => simp
      | some lo => simp [and_assoc]

/-- The bytes from the `$` up to the star. -/
theorem Record.take_drop {buf : List UInt8} {i s : ℕ} (h : Record buf i s) :
    (buf.take s).drop i = commandPrefix ++ recordText buf i s := by
  obtain ⟨t, ht⟩ : OccursAt commandPrefix (buf.take s) i := by
    refine OccursAt.of_append (m := buf.drop s) ?_ ?_
    · rw [List.take_append_drop]
      exact h.head
    · rw [List.length_take, Nat.min_eq_left h.lt_length.le]
      exact h.body_le
  rw [recordText, ← List.drop_drop, ← ht, List.drop_left' (show commandPrefix.length = prefixLen from rfl)]

theorem drop_cons_of_getElem? {l : List UInt8} {i : ℕ} {c : UInt8} (h : l[i]? = some c) :
    l.drop i = c :: l.drop (i + 1) := by
  obtain ⟨hlt, rfl⟩ := List.getElem?_eq_some_iff.mp h
  exact List.drop_eq_getElem_cons hlt

/-- **A record, byte by byte.** -/
theorem Record.signedAt {buf : List UInt8} {i s : ℕ} (h : Record buf i s) :
    SignedAt buf (recordText buf i s) i := by
  obtain ⟨hi, lo, hhi, hlo, hhexHi, hhexLo, hsum⟩ := recordValidAt_iff.mp h.star.1.2.2
  have hlen : (buf.take s).length = s := by
    rw [List.length_take, Nat.min_eq_left h.lt_length.le]
  constructor
  · refine ⟨hi, lo, hhexHi, hhexLo, ?_, buf.drop (s + 3), ?_⟩
    · rw [← h.take_drop, hsum]
    · have hstar : buf[s]? = some starByte := h.star.1.2.1.getElem? Nat.zero_lt_one
      have htail : buf.drop s = [starByte, hi, lo] ++ buf.drop (s + 3) := by
        rw [drop_cons_of_getElem? hstar, drop_cons_of_getElem? hhi, drop_cons_of_getElem? hlo]
        rfl
      have hbefore : i ≤ (buf.take s).length := by
        have hbody := h.body_le
        omega
      rw [← h.take_drop, List.append_assoc, ← htail, ← List.drop_append_of_le_length hbefore,
        List.take_append_drop]
  · intro k hlt hk
    rw [← h.take_drop, List.length_drop, hlen] at hk
    exact h.alone k hlt (by omega)

/-- **No false verdict.**  Behind an approval stands a signed record that echoes the command with `OK` and
nothing else, behind a reject one of the two reject forms, and no later record says the opposite. -/
theorem gnssAckScan_sound (buf : List UInt8) (cmd : CStr) :
    (gnssAckScan buf cmd = .ok →
      ∃ i m w, (∀ c ∈ w, c = space ∨ c = carriageReturn) ∧
        SignedAt buf (cmd.bytes ++ responseMark ++ List.replicate m space ++ okText ++ w) i ∧
        ∀ i' s', i < i' → Record buf i' s' → verdictAt buf cmd i' s' ≠ .fail) ∧
    (gnssAckScan buf cmd = .fail →
      ∃ i text, SignedAt buf text i ∧
        ((∃ m t, text = cmd.bytes ++ responseMark ++ List.replicate m space ++ parsingFail ++ t) ∨
          noEchoMark <+: text ∧ ∃ t m, text = t ++ noMatchingFunc ++ List.replicate m space ++ cmd.bytes) ∧
        ∀ i' s', i < i' → Record buf i' s' → verdictAt buf cmd i' s' ≠ .ok) := by
  have hanswers := gnssAckScan_answers buf cmd
  constructor
  · intro hok
    rw [hok] at hanswers
    rcases hanswers with ⟨hfalse, _⟩ | ⟨i, s, _, hrec, hverdict, _, hlast⟩
    · exact absurd hfalse (by simp)
    · obtain ⟨m, w, hw, htext⟩ := recordVerdict_ok hverdict
      refine ⟨i, m, w, hw, htext ▸ hrec.signedAt, ?_⟩
      intro i' s' hlt hrec'
      rw [hlast i' s' hlt hrec']
      simp
  · intro hfail
    rw [hfail] at hanswers
    rcases hanswers with ⟨hfalse, _⟩ | ⟨i, s, _, hrec, hverdict, _, hlast⟩
    · exact absurd hfalse (by simp)
    · refine ⟨i, recordText buf i s, hrec.signedAt, recordVerdict_fail hverdict, ?_⟩
      intro i' s' hlt hrec'
      rw [hlast i' s' hlt hrec']
      simp

end RtkdataFw.Gnss
