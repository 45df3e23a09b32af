import RtkdataFw.Lib.Numeral

/-!
# Compact JSON

JSON text without blanks: objects, natural numbers and booleans, with keys that need no escapes.

* `Json.render` — the text of a value;
* `Json.parse` — a reader of the grammar;
* `Json.parse_render` — what is rendered reads back to exactly its value.
-/

namespace RtkdataFw.Lib

/-- A byte that stands for itself in a JSON string. -/
def isPlain (c : UInt8) : Bool := 32 ≤ c && c < 128 && c != 34 && c != 92

/-- The name of a member. -/
structure Key where
  bytes : List UInt8
  plain : ∀ c ∈ bytes, isPlain c = true
  deriving DecidableEq, Repr

inductive Json where
  | num (n : ℕ)
  | bool (b : Bool)
  | obj (members : List (Key × Json))

namespace Json

def quote : UInt8 := 34

def colon : UInt8 := 58

def comma : UInt8 := 44

def openBrace : UInt8 := 123

def closeBrace : UInt8 := 125

/-! ### Writing -/

def boolText (b : Bool) : List UInt8 := if b then ascii "true" else ascii "false"

def keyText (k : Key) : List UInt8 := quote :: (k.bytes ++ [quote, colon])

mutual

/-- The text of a value. -/
def render : Json → List UInt8
  | .num n => decimal n
  | .bool b => boolText b
  | .obj [] => [openBrace, closeBrace]
  | .obj ((k, v) :: ms) => openBrace :: (keyText k ++ (render v ++ renderRest ms))

/-- The members after the first one, and the closing brace. -/
def renderRest : List (Key × Json) → List UInt8
  | [] => [closeBrace]
  | (k, v) :: ms => comma :: (keyText k ++ (render v ++ renderRest ms))

end

/-! ### Reading -/

/-- A number without leading zeros. -/
def readNumber (s : List UInt8) : Option (Json × List UInt8) :=
  let ds := s.takeWhile isDigit
  if ds = [] then none
  else if ds.head? = some (digitByte 0) ∧ ds ≠ [digitByte 0] then none
  else some (.num (readDigits 0 ds), s.dropWhile isDigit)

def readBool (s : List UInt8) : Option (Json × List UInt8) :=
  if (ascii "true").isPrefixOf s then some (.bool true, s.drop 4)
  else if (ascii "false").isPrefixOf s then some (.bool false, s.drop 5)
  else none

/-- The name of a member with its colon. -/
def readKey : List UInt8 → Option (Key × List UInt8)
  | [] => none
  | c :: s =>
      if c = quote then
        match s.dropWhile isPlain with
        | q :: d :: rest =>
            if q = quote ∧ d = colon then
              some (⟨s.takeWhile isPlain, fun _ h => List.mem_takeWhile_imp h⟩, rest)
            else none
        | _ => none
      else none

mutual

/-- A value at the front of the text, and what follows it. -/
def readValue : ℕ → List UInt8 → Option (Json × List UInt8)
  | 0, _ => none
  | fuel + 1, s =>
      match s with
      | [] => none
      | c :: s' =>
          if c = openBrace then
            match s' with
            | [] => none
            | d :: s'' =>
                if d = closeBrace then some (.obj [], s'')
                else (readMembers fuel s').map fun r => (.obj r.1, r.2)
          else if isDigit c then readNumber s
          else readBool s

/-- The members of an object up to its closing brace, and what follows it. -/
def readMembers : ℕ → List UInt8 → Option (List (Key × Json) × List UInt8)
  | 0, _ => none
  | fuel + 1, s =>
      match readKey s with
      | none => none
      | some (k, s₁) =>
          match readValue fuel s₁ with
          | none => none
          | some (_, []) => none
          | some (v, c :: s₂) =>
              if c = closeBrace then some ([(k, v)], s₂)
              else if c = comma then (readMembers fuel s₂).map fun r => ((k, v) :: r.1, r.2)
              else none

end

/-- A text that is one value and nothing else. -/
def parse (s : List UInt8) : Option Json :=
  match readValue (s.length + 1) s with
  | some (v, []) => some v
  | _ => none

/-! ### What is written reads back -/

theorem readNumber_decimal (n : ℕ) {r : List UInt8} (hr : NoDigit r) :
    readNumber (decimal n ++ r) = some (.num n, r) := by
  have htake : (decimal n ++ r).takeWhile isDigit = decimal n := by
    rw [List.takeWhile_append_of_pos decimal_isDigit, takeWhile_of_head hr.head, List.append_nil]
  have hdrop : (decimal n ++ r).dropWhile isDigit = r := by
    rw [List.dropWhile_append_of_pos decimal_isDigit, dropWhile_of_head hr.head]
  have hlead : ¬ ((decimal n).head? = some (digitByte 0) ∧ decimal n ≠ [digitByte 0]) := by
    intro h
    rcases decimal_head n with hzero | hhead
    · exact h.2 hzero
    · exact hhead h.1
  unfold readNumber
  dsimp only
  rw [htake, hdrop, if_neg (decimal_ne_nil n), if_neg hlead, readDigits_decimal]

theorem readKey_keyText (k : Key) (r : List UInt8) : readKey (keyText k ++ r) = some (k, r) := by
  have hplain : isPlain quote = false := by decide
  have htail : k.bytes ++ [quote, colon] ++ r = k.bytes ++ quote :: colon :: r := by simp
  have hdrop : (k.bytes ++ quote :: colon :: r).dropWhile isPlain = quote :: colon :: r := by
    rw [List.dropWhile_append_of_pos k.plain, dropWhile_of_head]
    intro c hc
    cases hc
    exact hplain
  have htake : (k.bytes ++ quote :: colon :: r).takeWhile isPlain = k.bytes := by
    rw [List.takeWhile_append_of_pos k.plain, takeWhile_of_head, List.append_nil]
    intro c hc
    cases hc
    exact hplain
  unfold keyText
  rw [List.cons_append, readKey, if_pos rfl, htail]
  simp only [hdrop, htake, and_self, if_true]

theorem renderRest_noDigit (ms : List (Key × Json)) (r : List UInt8) : NoDigit (renderRest ms ++ r) := by
  cases ms with
  | nil =>
      rw [renderRest]
      unfold NoDigit
      rfl
  | cons m ms =>
      rw [renderRest]
      unfold NoDigit
      rfl

theorem render_ne_nil (v : Json) : render v ≠ [] := by
  match v with
  | .num n =>
      rw [render]
      exact decimal_ne_nil n
  | .bool b =>
      rw [render]
      cases b <;> decide
  | .obj [] =>
      rw [render]
      simp
  | .obj ((k, v) :: ms) =>
      rw [render]
      simp

/-- A scalar is told from an object by its first byte. -/
theorem readValue_scalar {c : UInt8} (h : c ≠ openBrace) (n : ℕ) (s : List UInt8) :
    readValue (n + 1) (c :: s) = if isDigit c then readNumber (c :: s) else readBool (c :: s) := by
  rw [readValue.eq_def]
  dsimp only
  rw [if_neg h]

theorem readValue_num (m n : ℕ) {r : List UInt8} (hr : NoDigit r) :
    readValue (n + 1) (decimal m ++ r) = some (.num m, r) := by
  cases hdigits : decimal m with
  | nil => exact absurd hdigits (decimal_ne_nil m)
  | cons c ds =>
      have hc : isDigit c = true := decimal_isDigit c (hdigits ▸ List.mem_cons_self)
      have hbrace : c ≠ openBrace := by
        rintro rfl
        exact absurd hc (by decide)
      rw [List.cons_append, readValue_scalar hbrace, if_pos hc, ← List.cons_append, ← hdigits,
        readNumber_decimal m hr]

theorem readValue_bool (b : Bool) (n : ℕ) (r : List UInt8) :
    readValue (n + 1) (boolText b ++ r) = some (.bool b, r) := by
  cases b <;> rfl

mutual

/-- Enough fuel is the length of the text. -/
theorem readValue_render (v : Json) (n : ℕ) (r : List UInt8) (hn : (render v).length ≤ n) (hr : NoDigit r) :
    readValue n (render v ++ r) = some (v, r) := by
  cases n with
  | zero =>
      have hpos := List.length_pos_of_ne_nil (render_ne_nil v)
      omega
  | succ n =>
      match v with
      | .num m =>
          rw [render]
          exact readValue_num m n hr
      | .bool b =>
          rw [render]
          exact readValue_bool b n r
      | .obj [] =>
          rw [render]
          rfl
      | .obj ((k, v) :: ms) =>
          rw [render, List.length_cons] at hn
          have hmembers := readMembers_render k v ms n r (by omega)
          have hquote : quote ≠ closeBrace := by decide
          rw [render, List.cons_append, List.append_assoc, List.append_assoc]
          unfold keyText at hmembers ⊢
          rw [List.cons_append] at hmembers ⊢
          rw [readValue, if_pos rfl, if_neg hquote, hmembers]
          rfl

theorem readMembers_render (k : Key) (v : Json) (ms : List (Key × Json)) (n : ℕ) (r : List UInt8)
    (hn : (keyText k ++ (render v ++ renderRest ms)).length ≤ n) :
    readMembers n (keyText k ++ (render v ++ (renderRest ms ++ r))) = some ((k, v) :: ms, r) := by
  have hkey : 0 < (keyText k).length := by
    unfold keyText
    simp
  rw [List.length_append, List.length_append] at hn
  cases n with
  | zero => omega
  | succ n =>
      have hvalue := readValue_render v n (renderRest ms ++ r) (by omega) (renderRest_noDigit ms r)
      rw [readMembers, readKey_keyText]
      dsimp only
      rw [hvalue]
      match ms with
      | [] =>
          rw [renderRest]
          rfl
      | (k', v') :: ms =>
          rw [renderRest, List.length_cons] at hn
          have hmembers := readMembers_render k' v' ms n r (by omega)
          have hcomma : comma ≠ closeBrace := by decide
          rw [renderRest, List.cons_append]
          dsimp only
          rw [if_neg hcomma, if_pos rfl, List.append_assoc, List.append_assoc, hmembers]
          rfl

end

/-- **What is rendered reads back** to exactly its value. -/
theorem parse_render (v : Json) : parse (render v) = some v := by
  have hread := readValue_render v ((render v).length + 1) [] (Nat.le_succ _) rfl
  rw [List.append_nil] at hread
  unfold parse
  rw [hread]

end Json

end RtkdataFw.Lib
