import RtkdataFw.Lib.Buffer
import RtkdataFw.Lib.CStr
import RtkdataFw.Lib.Numeral
import RtkdataFw.Lib.Substring
import Mathlib.Data.List.DropRight

/-!
# The handshake with the caster

The task sends one `SOURCE` request, reads once into the same buffer, and takes the header with the empty key
out of what it read: that is the first line.  `extract_http_header` walks two pointers over the buffer, and a
read before its first byte is `none` here.

* `skipSpaces_eq`, `dropSpaces_eq` — where the two pointers stop;
* `extractHttpHeader_eq` — the value of a header, and the one buffer that is read out of bounds;
* `response_accepted_iff` — which answers of a caster open the connection.
-/

namespace RtkdataFw.NtripServer

open RtkdataFw.Lib

/-! ### The code -/

/-- `BUFFER_SIZE`. -/
def bufferSize : ℕ := 512

/-- `NEWLINE`. -/
def newline : List UInt8 := [13, 10]

def ntripServerName : List UInt8 := ascii "RTKdata_Server"

/-- The request in `txbuf`, which `snprintf` cuts to the buffer. -/
def sourceRequest (pwd mp version : CStr) : List UInt8 :=
  (ascii "SOURCE " ++ pwd.bytes ++ ascii " /" ++ mp.bytes ++ newline ++ ascii "Source-Agent: NTRIP " ++
    ntripServerName ++ ascii "/" ++ version.bytes ++ newline ++ newline).take (bufferSize - 1)

/-- `s[i]`, the terminator included. -/
def charAt (s : CStr) (i : ℕ) : Option UInt8 := (s.bytes ++ [0])[i]?

/-- The offset of `strcasestr (buffer, key)`. -/
def strcasestr (buffer key : CStr) : Option ℕ :=
  findFrom (key.bytes.map lower) (buffer.bytes.map lower) 0 (buffer.length + 1)

/-- The offset of `strstr (start, "\r\n")`, from the start of the buffer. -/
def findNewline (buffer : CStr) (start : ℕ) : Option ℕ :=
  findFrom newline buffer.bytes start (buffer.length + 1 - start)

/-- `while (isspace (*start) && start < end) start++`, with `end - start` to go. -/
def skipSpaces (s : CStr) : ℕ → ℕ → Option ℕ
  | 0, start => (charAt s start).map fun _ => start
  | left + 1, start =>
      (charAt s start).bind fun c => if isSpace c then skipSpaces s left (start + 1) else some start

/-- `while (isspace (*(end - 1)) && start < end) end--`. -/
def dropSpaces (s : CStr) : ℕ → ℕ → Option ℕ
  | 0, stop => ((sub? stop 1).bind (charAt s)).map fun _ => stop
  | left + 1, stop =>
      ((sub? stop 1).bind (charAt s)).bind fun c =>
        if isSpace c then dropSpaces s left (stop - 1) else some stop

/-- `extract_http_header`, with whether `malloc` succeeds. -/
def extractHttpHeader (heap : Bool) (buffer key : CStr) : Option (Option (List UInt8)) :=
  if key.length + 2 > buffer.length then some none
  else
    match strcasestr buffer key with
    | none => some none
    | some found =>
        match findNewline buffer (found + key.length) with
        | none => some none
        | some stop =>
            (skipSpaces buffer (stop - (found + key.length)) (found + key.length)).bind fun start =>
              (dropSpaces buffer (stop - start) stop).bind fun stop =>
                if stop - start = 0 then some none
                else some (if heap then some ((buffer.bytes.drop start).take (stop - start)) else none)

/-- `str_starts_with`. -/
def strStartsWith (a b : List UInt8) : Bool := b.isPrefixOf a

def ntripResponseOk (response : List UInt8) : Bool :=
  strStartsWith response (ascii "OK") || strStartsWith response (ascii "ICY 200 OK") ||
    strStartsWith response (ascii "HTTP/1.1 200 OK")

/-- What the task makes of the bytes that it read. -/
def responseOk (heap : Bool) (received : List UInt8) : Option Bool :=
  (extractHttpHeader heap (CStr.ofBytes received) CStr.empty).map fun status =>
    match status with
    | none => false
    | some status => ntripResponseOk status

/-! ### Trimming -/

/-- A text without the blanks around it. -/
def trim (l : List UInt8) : List UInt8 := (l.dropWhile isSpace).rdropWhile isSpace

theorem charAt_append {s : CStr} {pre post : List UInt8} (hs : s.bytes = pre ++ post) :
    charAt s pre.length = some ((post ++ [0]).head (by simp)) := by
  rw [charAt, hs, List.append_assoc, List.getElem?_append_right (Nat.le_refl _), Nat.sub_self,
    ← List.head?_eq_getElem?, List.head?_eq_some_head]

/-- **The pointer to the start** stops behind the blanks in front. -/
theorem skipSpaces_eq {s : CStr} {pre mid post : List UInt8} (hs : s.bytes = pre ++ (mid ++ post)) :
    skipSpaces s mid.length pre.length = some (pre.length + (mid.takeWhile isSpace).length) := by
  induction mid generalizing pre with
  | nil =>
      rw [List.length_nil, skipSpaces, charAt_append hs]
      rfl
  | cons c mid ih =>
      have hnext : s.bytes = (pre ++ [c]) ++ (mid ++ post) := by
        rw [hs, List.append_assoc]
        rfl
      rw [List.length_cons, skipSpaces, charAt_append hs, Option.bind_some]
      show (if isSpace c then _ else _) = _
      by_cases hspace : isSpace c = true
      · have hrest := ih hnext
        rw [List.length_append, List.length_singleton] at hrest
        rw [if_pos hspace, hrest, List.takeWhile_cons_of_pos hspace, List.length_cons]
        congr 1
        omega
      · rw [if_neg hspace, List.takeWhile_cons_of_neg hspace]
        rfl

/-- **The pointer to the end** stops behind the last byte that is no blank.  It leaves the buffer when there
is none, and nothing before. -/
theorem dropSpaces_eq {s : CStr} {pre mid post : List UInt8} (hs : s.bytes = pre ++ (mid ++ post)) :
    dropSpaces s mid.length (pre.length + mid.length) =
      if pre = [] ∧ mid.all isSpace then none
      else some (pre.length + (mid.rdropWhile isSpace).length) := by
  induction mid using List.reverseRecOn generalizing post with
  | nil =>
      rw [List.length_nil, dropSpaces, List.rdropWhile_nil]
      cases pre with
      | nil =>
          rw [if_pos ⟨rfl, rfl⟩]
          rfl
      | cons p pre =>
          have hlast : (p :: pre).length - 1 = pre.length := rfl
          rw [if_neg (by simp), Nat.add_zero, sub?_eq (by simp), Option.bind_some, hlast]
          have hin : pre.length < (s.bytes ++ [0]).length := by
            rw [hs]
            simp only [List.length_append, List.length_cons]
            omega
          rw [charAt, List.getElem?_eq_getElem hin]
          rfl
  | append_singleton mid c ih =>
      have hsplit : s.bytes = (pre ++ mid) ++ (c :: post) := by
        rw [hs]
        simp
      have hchar := charAt_append hsplit
      rw [List.length_append] at hchar
      have hstop : pre.length + (mid ++ [c]).length - 1 = pre.length + mid.length := by
        rw [List.length_append, List.length_singleton]
        omega
      have hpos : 1 ≤ pre.length + (mid ++ [c]).length := by
        rw [List.length_append, List.length_singleton]
        omega
      have hlen : (mid ++ [c]).length = mid.length + 1 := by
        rw [List.length_append, List.length_singleton]
      rw [hlen, dropSpaces, ← hlen, sub?_eq hpos, Option.bind_some, hstop, hchar, Option.bind_some]
      show (if isSpace c then _ else _) = _
      by_cases hspace : isSpace c = true
      · have hall : (mid ++ [c]).all isSpace = mid.all isSpace := by
          rw [List.all_append]
          simp [hspace]
        rw [if_pos hspace, @ih (c :: post) (by rw [hsplit, List.append_assoc]),
          List.rdropWhile_concat_pos _ _ _ hspace, hall]
      · have hall : ¬ (mid ++ [c]).all isSpace = true := fun h => hspace (List.all_eq_true.mp h c (by simp))
        rw [if_neg hspace, if_neg fun h => hall h.2, List.rdropWhile_concat_neg _ _ _ hspace]

section Walk

variable {s : CStr} {pre line post : List UInt8}

theorem dropWhile_eq_nil_of_spaces (h : ∀ c ∈ line.dropWhile isSpace, isSpace c = true) :
    line.dropWhile isSpace = [] := by
  by_contra hne
  have hhead := List.head_dropWhile_not isSpace hne
  rw [h _ (List.head_mem hne)] at hhead
  cases hhead

theorem takeWhile_split (hs : s.bytes = pre ++ (line ++ post)) :
    s.bytes = (pre ++ line.takeWhile isSpace) ++ (line.dropWhile isSpace ++ post) := by
  rw [List.append_assoc, ← List.append_assoc (line.takeWhile isSpace), List.takeWhile_append_dropWhile]
  exact hs

/-- The end pointer, once the start pointer has passed the blanks in front. -/
theorem dropSpaces_after_skip (hs : s.bytes = pre ++ (line ++ post)) :
    dropSpaces s (pre.length + line.length - (pre.length + (line.takeWhile isSpace).length))
        (pre.length + line.length) =
      if pre.length + line.length = 0 then none
      else some (pre.length + (line.takeWhile isSpace).length + (trim line).length) := by
  have hdrop := dropSpaces_eq (takeWhile_split hs)
  have hlen : (line.takeWhile isSpace).length + (line.dropWhile isSpace).length = line.length := by
    rw [← List.length_append, List.takeWhile_append_dropWhile]
  have hleft : pre.length + line.length - (pre.length + (line.takeWhile isSpace).length) =
      (line.dropWhile isSpace).length := by omega
  have hend : pre.length + (line.takeWhile isSpace).length + (line.dropWhile isSpace).length =
      pre.length + line.length := by omega
  have hfault : (pre ++ line.takeWhile isSpace = [] ∧ (line.dropWhile isSpace).all isSpace) ↔
      pre.length + line.length = 0 := by
    constructor
    · intro hall
      obtain ⟨hnil, hspaces⟩ := hall
      have hzero := congrArg List.length hnil
      rw [List.length_append, List.length_nil] at hzero
      rw [dropWhile_eq_nil_of_spaces (List.all_eq_true.mp hspaces), List.length_nil] at hlen
      omega
    · intro hzero
      have hline : line = [] := List.length_eq_zero_iff.mp (by omega)
      have hpre : pre = [] := List.length_eq_zero_iff.mp (by omega)
      rw [hline, hpre]
      exact ⟨rfl, rfl⟩
  rw [List.length_append, hend] at hdrop
  rw [hleft, hdrop]
  simp only [hfault]
  rfl

/-- The bytes between the two pointers. -/
theorem cut_eq (hs : s.bytes = pre ++ (line ++ post)) :
    (s.bytes.drop (pre.length + (line.takeWhile isSpace).length)).take (trim line).length = trim line := by
  obtain ⟨tail, htail⟩ := List.rdropWhile_prefix isSpace (line.dropWhile isSpace)
  rw [← List.length_append, takeWhile_split hs, List.drop_left, ← htail, List.append_assoc]
  exact List.take_left

end Walk

/-! ### The value of a header -/

/-- What stands between the first place of the key, in any case, and the next line break. -/
structure HeaderLine (buffer key : CStr) (found stop : ℕ) : Prop where
  key_least : IsLeast {k | OccursAt (key.bytes.map lower) (buffer.bytes.map lower) k} found
  stop_least : IsLeast {k | found + key.length ≤ k ∧ OccursAt newline buffer.bytes k} stop

/-- The text of that line. -/
def lineText (buffer key : CStr) (found stop : ℕ) : List UInt8 :=
  (buffer.bytes.drop (found + key.length)).take (stop - (found + key.length))

section Line

variable {buffer key : CStr} {found stop : ℕ}

theorem HeaderLine.stop_le (h : HeaderLine buffer key found stop) : stop + 2 ≤ buffer.length :=
  h.stop_least.1.2.le_length (by decide)

theorem HeaderLine.start_le (h : HeaderLine buffer key found stop) : found + key.length ≤ stop :=
  h.stop_least.1.1

/-- The two searches find the line, when there is one. -/
theorem headerLine_iff :
    HeaderLine buffer key found stop ↔
      strcasestr buffer key = some found ∧ findNewline buffer (found + key.length) = some stop := by
  have hset : {k | 0 ≤ k ∧ OccursAt (key.bytes.map lower) (buffer.bytes.map lower) k} =
      {k | OccursAt (key.bytes.map lower) (buffer.bytes.map lower) k} := by simp
  rw [strcasestr, findNewline, findFrom_eq_some_iff, findFrom_eq_some_iff, hset]
  constructor
  · intro h
    have hstart := h.start_le
    have hstop := h.stop_le
    exact ⟨⟨h.key_least, by omega⟩, h.stop_least, by omega⟩
  · intro h
    obtain ⟨⟨hkey, _⟩, hstop, _⟩ := h
    exact ⟨hkey, hstop⟩

theorem HeaderLine.unique (h : HeaderLine buffer key found stop) {found' stop' : ℕ}
    (h' : HeaderLine buffer key found' stop') : found' = found ∧ stop' = stop := by
  obtain rfl : found' = found := h'.key_least.unique h.key_least
  exact ⟨rfl, h'.stop_least.unique h.stop_least⟩

/-- The line breaks off at once only when there is no key. -/
theorem headerLine_zero_iff : (∃ found, HeaderLine buffer key found 0) ↔
    key = CStr.empty ∧ newline <+: buffer.bytes := by
  constructor
  · intro h
    obtain ⟨found, h⟩ := h
    have hstart := h.start_le
    have hkey : key.bytes = [] := List.length_eq_zero_iff.mp (by rw [CStr.length] at hstart; omega)
    exact ⟨CStr.bytes_inj hkey, occursAt_zero.mp h.stop_least.1.2⟩
  · intro h
    obtain ⟨rfl, hnewline⟩ := h
    exact ⟨0, ⟨List.nil_prefix, fun k _ => Nat.zero_le k⟩, ⟨Nat.le_refl 0, hnewline⟩, fun k _ => Nat.zero_le k⟩

/-- **The value** is the trimmed line.  The walk leaves the buffer when nothing stands before the line break. -/
theorem HeaderLine.extract (h : HeaderLine buffer key found stop) (heap : Bool) :
    extractHttpHeader heap buffer key =
      if stop = 0 then none
      else if trim (lineText buffer key found stop) = [] then some none
      else some (if heap then some (trim (lineText buffer key found stop)) else none) := by
  obtain ⟨hfound, hnewline⟩ := headerLine_iff.mp h
  have hstart := h.start_le
  have hstop := h.stop_le
  have hpre : (buffer.bytes.take (found + key.length)).length = found + key.length :=
    List.length_take_of_le (by rw [CStr.length] at *; omega)
  have hlen : (lineText buffer key found stop).length = stop - (found + key.length) := by
    rw [lineText, List.length_take, List.length_drop]
    rw [CStr.length] at *
    omega
  have hsplit : buffer.bytes = buffer.bytes.take (found + key.length) ++
      (lineText buffer key found stop ++ (buffer.bytes.drop (found + key.length)).drop (stop - (found + key.length))) := by
    rw [lineText, List.take_append_drop, List.take_append_drop]
  have hend : found + key.length + (lineText buffer key found stop).length = stop := by omega
  have hskip := skipSpaces_eq hsplit
  have hdrop := dropSpaces_after_skip hsplit
  have hcut := cut_eq hsplit
  rw [hpre, hlen] at hskip
  rw [hpre, hend] at hdrop
  rw [hpre] at hcut
  rw [extractHttpHeader, if_neg (by omega), hfound]
  dsimp only
  rw [hnewline]
  dsimp only
  rw [hskip, Option.bind_some, hdrop]
  by_cases hzero : stop = 0
  · rw [if_pos hzero, if_pos hzero]
    rfl
  · rw [if_neg hzero, if_neg hzero, Option.bind_some, Nat.add_sub_cancel_left, hcut]
    simp only [List.length_eq_zero_iff]

/-- Without a line there is no value. -/
theorem extract_of_no_line (h : ∀ found stop, ¬ HeaderLine buffer key found stop) (heap : Bool) :
    extractHttpHeader heap buffer key = some none := by
  rw [extractHttpHeader]
  split
  · rfl
  · split
    · rfl
    · rename_i found hfound
      split
      · rfl
      · rename_i stop hstop
        exact absurd (headerLine_iff.mpr ⟨hfound, hstop⟩) (h found stop)

end Line

/-- **A header is read** where it stands and nowhere else.  The only reads outside of the buffer are those for
the empty key in a text that begins with a line break. -/
theorem extractHttpHeader_eq (heap : Bool) (buffer key : CStr) :
    (extractHttpHeader heap buffer key = none ↔ key = CStr.empty ∧ newline <+: buffer.bytes) ∧
      ∀ value, extractHttpHeader heap buffer key = some (some value) ↔
        heap = true ∧ value ≠ [] ∧ ∃ found stop, 0 < stop ∧ HeaderLine buffer key found stop ∧
          trim (lineText buffer key found stop) = value := by
  by_cases hline : ∃ found stop, HeaderLine buffer key found stop
  · obtain ⟨found, stop, h⟩ := hline
    have hextract := h.extract heap
    constructor
    · rw [← headerLine_zero_iff, hextract]
      constructor
      · intro hnone
        split at hnone
        · rename_i hzero
          exact ⟨found, hzero ▸ h⟩
        · split at hnone <;> cases hnone
      · intro hzero
        obtain ⟨found', h'⟩ := hzero
        rw [if_pos (h.unique h').2.symm]
    · intro value
      rw [hextract]
      constructor
      · intro hvalue
        split at hvalue
        · cases hvalue
        · rename_i hpos
          split at hvalue
          · cases hvalue
          · rename_i htrim
            cases heap with
            | false => cases hvalue
            | true =>
                simp only [if_true, Option.some.injEq] at hvalue
                exact ⟨rfl, hvalue ▸ htrim, found, stop, Nat.pos_of_ne_zero hpos, h, hvalue⟩
      · intro hvalue
        obtain ⟨rfl, hne, found', stop', hpos, h', rfl⟩ := hvalue
        obtain ⟨rfl, rfl⟩ := h.unique h'
        rw [if_neg (Nat.ne_of_gt hpos), if_neg hne]
        rfl
  · have hnone : ∀ found stop, ¬ HeaderLine buffer key found stop := fun found stop h => hline ⟨found, stop, h⟩
    rw [extract_of_no_line hnone]
    constructor
    · rw [← headerLine_zero_iff]
      exact iff_of_false (by simp) fun h => hnone _ _ h.choose_spec
    · intro value
      apply iff_of_false (by simp)
      intro h
      obtain ⟨_, _, found, stop, _, h, _⟩ := h
      exact hnone found stop h

/-! ### Which answers open a connection -/

/-- The text before the first line break. -/
def FirstLine (text line : List UInt8) : Prop :=
  (∃ rest, text = line ++ (newline ++ rest)) ∧ ∀ i < line.length, ¬ OccursAt newline text i

/-- A line, blanks around it aside, that begins like one of the three greetings. -/
def Grants (line : List UInt8) : Prop :=
  ascii "OK" <+: trim line ∨ ascii "ICY 200 OK" <+: trim line ∨ ascii "HTTP/1.1 200 OK" <+: trim line

theorem ntripResponseOk_iff (line : List UInt8) : ntripResponseOk (trim line) = true ↔ Grants line := by
  rw [ntripResponseOk, Bool.or_eq_true, Bool.or_eq_true, or_assoc, Grants]
  simp only [strStartsWith, List.isPrefixOf_iff_prefix]

theorem Grants.trim_ne_nil {line : List UInt8} (h : Grants line) : trim line ≠ [] := by
  intro hnil
  rw [Grants, hnil] at h
  rcases h with h | h | h <;> exact absurd (List.prefix_nil.mp h) (by decide)

/-- The line that the empty key finds is the first one. -/
theorem headerLine_empty_iff {text : CStr} {line : List UInt8} :
    (∃ found stop, HeaderLine text CStr.empty found stop ∧ lineText text CStr.empty found stop = line) ↔
      FirstLine text.bytes line := by
  have hkey : IsLeast {k | OccursAt (CStr.empty.bytes.map lower) (text.bytes.map lower) k} 0 :=
    ⟨List.nil_prefix, fun k _ => Nat.zero_le k⟩
  have hempty : CStr.empty.length = 0 := rfl
  constructor
  · intro h
    obtain ⟨found, stop, h, rfl⟩ := h
    obtain rfl : found = 0 := h.key_least.unique hkey
    have hstop := h.stop_le
    have hline : lineText text CStr.empty 0 stop = text.bytes.take stop := rfl
    have hlen : (text.bytes.take stop).length = stop :=
      List.length_take_of_le (by rw [CStr.length] at hstop; omega)
    obtain ⟨rest, hrest⟩ := h.stop_least.1.2
    rw [hline]
    refine ⟨⟨rest, ?_⟩, ?_⟩
    · rw [hrest, List.take_append_drop]
    · intro i hi hoccurs
      have hle := h.stop_least.2 ⟨Nat.zero_le i, hoccurs⟩
      omega
  · intro h
    obtain ⟨⟨rest, htext⟩, hfirst⟩ := h
    refine ⟨0, line.length, ⟨hkey, ⟨Nat.zero_le _, ?_⟩, ?_⟩, ?_⟩
    · rw [OccursAt, htext, List.drop_left]
      exact List.prefix_append _ _
    · intro k hk
      by_contra hlt
      exact hfirst k (Nat.not_le.mp hlt) hk.2
    · rw [lineText, hempty, htext]
      exact List.take_left

theorem responseOk_eq_true_iff (heap : Bool) (received : List UInt8) :
    responseOk heap received = some true ↔
      heap = true ∧ ∃ line, FirstLine (CStr.ofBytes received).bytes line ∧ Grants line := by
  obtain ⟨_, hvalue⟩ := extractHttpHeader_eq heap (CStr.ofBytes received) CStr.empty
  rw [responseOk, Option.map_eq_some_iff]
  constructor
  · intro h
    obtain ⟨status, hstatus, hok⟩ := h
    cases status with
    | none => cases hok
    | some status =>
        obtain ⟨hheap, _, found, stop, _, hline, rfl⟩ := (hvalue status).mp hstatus
        exact ⟨hheap, _, headerLine_empty_iff.mp ⟨found, stop, hline, rfl⟩, (ntripResponseOk_iff _).mp hok⟩
  · intro h
    obtain ⟨hheap, line, hfirst, hgrants⟩ := h
    obtain ⟨found, stop, hline, rfl⟩ := headerLine_empty_iff.mpr hfirst
    refine ⟨some (trim (lineText (CStr.ofBytes received) CStr.empty found stop)), ?_,
      (ntripResponseOk_iff _).mpr hgrants⟩
    refine (hvalue _).mpr ⟨hheap, hgrants.trim_ne_nil, found, stop, ?_, hline, rfl⟩
    -- a line that breaks off at once grants nothing
    rcases Nat.eq_zero_or_pos stop with rfl | hpos
    · refine absurd ?_ hgrants.trim_ne_nil
      rw [lineText, Nat.zero_sub]
      rfl
    · exact hpos

/-- Blanks around the line do not matter, and what follows it is not looked at. -/
example : responseOk true (ascii " ICY 200 OK \r\nServer: x") = some true := by decide

end RtkdataFw.NtripServer
