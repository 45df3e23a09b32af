import Mathlib.Data.Nat.Bitwise
import Mathlib.Tactic.Common

/-!
# DNS messages on the wire

A message is a header with four counts, and as many questions and records as these say.  A name is a
sequence of labels that ends in a zero byte or in a pointer to an earlier offset.

* `nameWire` — the bytes of a name that ends in a zero byte;
* `readName_wire` — such a name reads back;
* `Dns.parse` — reads a message by its counts, and says what is left of the datagram;
* `parse_of` — section after section.
-/

namespace RtkdataFw.Lib

/-- A number of two bytes, the high one first. -/
def be16 (hi lo : UInt8) : ℕ := hi.toNat * 256 + lo.toNat

/-- The top bit of the number is that of its high byte. -/
theorem be16_and_top (hi lo : UInt8) : be16 hi lo &&& 0x8000 ≠ 0 ↔ 128 ≤ hi.toNat := by
  have hlo := lo.toNat_lt
  have hhi := hi.toNat_lt
  have hbit : (0x8000 : ℕ) = 2 ^ 15 := by decide
  rw [hbit, Nat.and_two_pow, Nat.testBit_eq_decide_div_mod_eq]
  have hdiv : be16 hi lo / 2 ^ 15 % 2 = hi.toNat / 128 := by
    unfold be16
    omega
  rw [hdiv]
  by_cases htop : hi.toNat / 128 = 1
  · simp [htop]
    omega
  · simp [htop]
    omega

namespace Dns

/-- A label has 1 to 63 bytes. -/
def ValidLabels (labels : List (List UInt8)) : Prop := ∀ l ∈ labels, 0 < l.length ∧ l.length < 64

def labelWire (l : List UInt8) : List UInt8 := UInt8.ofNat l.length :: l

/-- The bytes of a name. -/
def nameWire (labels : List (List UInt8)) : List UInt8 := labels.flatMap labelWire ++ [0]

/-- A name: its labels, and the offset where it goes on, if it does. -/
structure Name where
  labels : List (List UInt8)
  pointer : Option ℕ
  deriving DecidableEq, Repr

structure Question where
  name : Name
  qtype : ℕ
  qclass : ℕ
  deriving DecidableEq, Repr

structure Record where
  name : Name
  rtype : ℕ
  rclass : ℕ
  ttl : ℕ
  rdata : List UInt8
  deriving DecidableEq, Repr

structure Message where
  id : ℕ
  flags : ℕ
  questions : List Question
  answers : List Record
  authority : List Record
  additional : List Record
  deriving DecidableEq, Repr

/-! ### Reading -/

def readName : ℕ → List UInt8 → Option (Name × List UInt8)
  | 0, _ => none
  | _ + 1, [] => none
  | fuel + 1, c :: s =>
      if c = 0 then some (⟨[], none⟩, s)
      else if 192 ≤ c.toNat then s.head?.map fun d => (⟨[], some (be16 (c - 192) d)⟩, s.tail)
      else if 64 ≤ c.toNat then none
      else if s.length < c.toNat then none
      else (readName fuel (s.drop c.toNat)).map fun r =>
        (⟨s.take c.toNat :: r.1.labels, r.1.pointer⟩, r.2)

def readU16 : List UInt8 → Option (ℕ × List UInt8)
  | hi :: lo :: s => some (be16 hi lo, s)
  | _ => none

def readQuestion (s : List UInt8) : Option (Question × List UInt8) := do
  let (name, s) ← readName (s.length + 1) s
  let (qtype, s) ← readU16 s
  let (qclass, s) ← readU16 s
  return (⟨name, qtype, qclass⟩, s)

def readRecord (s : List UInt8) : Option (Record × List UInt8) := do
  let (name, s) ← readName (s.length + 1) s
  let (rtype, s) ← readU16 s
  let (rclass, s) ← readU16 s
  let (ttlHi, s) ← readU16 s
  let (ttlLo, s) ← readU16 s
  let (rdlength, s) ← readU16 s
  if s.length < rdlength then none
  else return (⟨name, rtype, rclass, ttlHi * 65536 + ttlLo, s.take rdlength⟩, s.drop rdlength)

/-- As many as the count says. -/
def readMany {α : Type} (readOne : List UInt8 → Option (α × List UInt8)) :
    ℕ → List UInt8 → Option (List α × List UInt8)
  | 0, s => some ([], s)
  | count + 1, s => do
      let (a, s) ← readOne s
      let (as, s) ← readMany readOne count s
      return (a :: as, s)

/-- A message by its counts, and what is left. -/
def parse (s : List UInt8) : Option (Message × List UInt8) := do
  let (id, s) ← readU16 s
  let (flags, s) ← readU16 s
  let (qdCount, s) ← readU16 s
  let (anCount, s) ← readU16 s
  let (nsCount, s) ← readU16 s
  let (arCount, s) ← readU16 s
  let (questions, s) ← readMany readQuestion qdCount s
  let (answers, s) ← readMany readRecord anCount s
  let (authority, s) ← readMany readRecord nsCount s
  let (additional, s) ← readMany readRecord arCount s
  return (⟨id, flags, questions, answers, authority, additional⟩, s)

/-! ### Names -/

theorem toNat_labelLength {l : List UInt8} (h : l.length < 64) : (UInt8.ofNat l.length).toNat = l.length := by
  rw [UInt8.toNat_ofNat']
  omega

theorem labelLength_ne_zero {l : List UInt8} (h : 0 < l.length ∧ l.length < 64) :
    UInt8.ofNat l.length ≠ 0 := by
  intro hzero
  have hnat := toNat_labelLength h.2
  rw [hzero] at hnat
  exact absurd hnat (Nat.ne_of_lt h.1)

theorem nameWire_cons (l : List UInt8) (ls : List (List UInt8)) :
    nameWire (l :: ls) = UInt8.ofNat l.length :: (l ++ nameWire ls) := by
  simp [nameWire, labelWire]

/-- **A name reads back.** -/
theorem readName_wire {labels : List (List UInt8)} (h : ValidLabels labels) (rest : List UInt8) {fuel : ℕ}
    (hfuel : labels.length < fuel) :
    readName fuel (nameWire labels ++ rest) = some (⟨labels, none⟩, rest) := by
  induction labels generalizing fuel with
  | nil =>
      cases fuel with
      | zero => exact absurd hfuel (Nat.not_lt_zero _)
      | succ fuel => rfl
  | cons l ls ih =>
      cases fuel with
      | zero => exact absurd hfuel (Nat.not_lt_zero _)
      | succ fuel =>
          have hl := h l List.mem_cons_self
          have hlen := toNat_labelLength hl.2
          have htail := ih (fun m hm => h m (List.mem_cons_of_mem _ hm)) (Nat.lt_of_succ_lt_succ hfuel)
          rw [nameWire_cons, List.cons_append, List.append_assoc, readName,
            if_neg (labelLength_ne_zero hl), hlen, if_neg (by omega), if_neg (by omega),
            if_neg (by simp), List.drop_left, List.take_left, htail]
          rfl

theorem length_le_nameWire (labels : List (List UInt8)) : labels.length < (nameWire labels).length := by
  induction labels with
  | nil => decide
  | cons l ls ih =>
      rw [nameWire_cons, List.length_cons, List.length_cons, List.length_append]
      omega

/-! ### Messages -/

/-- A pointer reads back as its offset. -/
theorem readName_pointer {c d : UInt8} {fuel : ℕ} (h : 192 ≤ c.toNat) (s : List UInt8) :
    readName (fuel + 1) (c :: d :: s) = some (⟨[], some (be16 (c - 192) d)⟩, s) := by
  have hc : c ≠ 0 := by
    rintro rfl
    exact absurd h (by decide)
  rw [readName, if_neg hc, if_pos h]
  rfl

theorem readQuestion_wire {labels : List (List UInt8)} (h : ValidLabels labels) (t₀ t₁ c₀ c₁ : UInt8)
    (rest : List UInt8) :
    readQuestion (nameWire labels ++ [t₀, t₁, c₀, c₁] ++ rest) =
      some (⟨⟨labels, none⟩, be16 t₀ t₁, be16 c₀ c₁⟩, rest) := by
  have hfuel : labels.length < (nameWire labels ++ [t₀, t₁, c₀, c₁] ++ rest).length + 1 := by
    have hlen := length_le_nameWire labels
    simp only [List.length_append]
    omega
  rw [readQuestion, List.append_assoc, readName_wire h _ (by rwa [List.append_assoc] at hfuel)]
  rfl

/-- A record whose name reads, and whose data is as long as it says. -/
theorem readRecord_of {s s' rdata : List UInt8} {name : Name} {t₀ t₁ c₀ c₁ h₀ h₁ l₀ l₁ r₀ r₁ : UInt8}
    (hname : readName (s.length + 1) s =
      some (name, [t₀, t₁, c₀, c₁, h₀, h₁, l₀, l₁, r₀, r₁] ++ (rdata ++ s')))
    (hlen : rdata.length = be16 r₀ r₁) :
    readRecord s =
      some (⟨name, be16 t₀ t₁, be16 c₀ c₁, be16 h₀ h₁ * 65536 + be16 l₀ l₁, rdata⟩, s') := by
  show (readName (s.length + 1) s).bind _ = _
  rw [hname]
  show (if (rdata ++ s').length < be16 r₀ r₁ then none else
    some (Record.mk name _ _ _ ((rdata ++ s').take (be16 r₀ r₁)), (rdata ++ s').drop (be16 r₀ r₁))) = _
  rw [← hlen, if_neg (by simp), List.take_left, List.drop_left]

/-- A message whose sections read one after the other. -/
theorem parse_of {i₀ i₁ f₀ f₁ q₀ q₁ a₀ a₁ n₀ n₁ r₀ r₁ : UInt8} {s s₁ s₂ s₃ s₄ : List UInt8}
    {questions : List Question} {answers authority additional : List Record}
    (hq : readMany readQuestion (be16 q₀ q₁) s = some (questions, s₁))
    (ha : readMany readRecord (be16 a₀ a₁) s₁ = some (answers, s₂))
    (hn : readMany readRecord (be16 n₀ n₁) s₂ = some (authority, s₃))
    (hr : readMany readRecord (be16 r₀ r₁) s₃ = some (additional, s₄)) :
    parse ([i₀, i₁, f₀, f₁, q₀, q₁, a₀, a₁, n₀, n₁, r₀, r₁] ++ s) =
      some (⟨be16 i₀ i₁, be16 f₀ f₁, questions, answers, authority, additional⟩, s₄) := by
  show (readMany readQuestion (be16 q₀ q₁) s).bind _ = _
  rw [hq]
  show (readMany readRecord (be16 a₀ a₁) s₁).bind _ = _
  rw [ha]
  show (readMany readRecord (be16 n₀ n₁) s₂).bind _ = _
  rw [hn]
  show (readMany readRecord (be16 r₀ r₁) s₃).bind _ = _
  rw [hr]
  rfl

end Dns

end RtkdataFw.Lib
