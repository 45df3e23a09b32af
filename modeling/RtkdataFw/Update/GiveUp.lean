import RtkdataFw.Update.AttemptBudget

/-!
# Giving a version up

A refusal of `ota_attempt_allowed` is meant to follow three attempts at the version itself.  The version and
its count are two NVS records, written one after the other, and a confirmation erases them one after the
other.

* `Paired` — the count on record is at most the number of attempts begun for the version on record;
* `Fair` — the steps that do not leave a version beside a count that is not its own;
* `paired_step_iff` — those are exactly the steps that keep the pairing;
* `refused_after_three` — in a run of fair steps no version is refused before its third attempt;
* `fair_iff_none_early` — an unfair step, and clean attempts after it, refuse a version too early.
-/

namespace RtkdataFw.Update

open RtkdataFw.Lib

/-- How far a call gets with its writes. -/
inductive Cut where
  | returns
  /-- Power is lost after so many of them. -/
  | powerLoss (writes : ℕ)
  deriving DecidableEq, Repr

/-- The write number `i` is still made. -/
def Cut.reaches : Cut → ℕ → Bool
  | .returns, _ => true
  | .powerLoss writes, i => decide (i < writes)

/-- The writes that are made. -/
def Cut.made {α : Type} : Cut → List α → List α
  | .returns, ws => ws
  | .powerLoss writes, ws => ws.take writes

/-- Which of the NVS calls after a confirmation succeed. -/
structure ClearIo where
  opens : Bool
  eraseVer : Bool
  eraseCnt : Bool
  deriving DecidableEq, Repr

inductive GiveUpEvent where
  | attempt (version : CStr) (io : NvsIo) (cut : Cut)
  /-- The daily poll asks `ota_attempts_exhausted`. -/
  | poll (version : CStr) (io : NvsIo)
  /-- `ota_mark_valid_task` has confirmed the running image and clears the two keys. -/
  | confirm (io : ClearIo) (cut : Cut)
  /-- A reset at any other time. -/
  | boot
  deriving DecidableEq, Repr

/-- The keys, and how many attempts were begun for each version since the last confirmed install. -/
structure GiveUpState where
  nvs : OtaNvs
  begun : CStr → ℕ

/-- A version that was refused, and the attempts begun for it till then. -/
structure Refusal where
  version : CStr
  begun : ℕ
  deriving DecidableEq, Repr

/-! ### The writes -/

/-- The call gets as far as booking an attempt. -/
def BooksAttempt (nvs : OtaNvs) (io : NvsIo) (version : CStr) : Prop :=
  io.opens = true ∧ ¬ recordedCount nvs io version ≥ maxOtaAttempts

instance (nvs : OtaNvs) (io : NvsIo) (version : CStr) : Decidable (BooksAttempt nvs io version) :=
  inferInstanceAs (Decidable (_ ∧ _))

def bookWrites (nvs : OtaNvs) (io : NvsIo) (version : CStr) : List (OtaNvs → OtaNvs) :=
  [fun n => bookVersion n io version, fun n => bookCount n io (recordedCount nvs io version + 1)]

def clearWrites (io : ClearIo) : List (OtaNvs → OtaNvs) :=
  [fun n => if io.eraseVer then { n with failVer := none } else n,
    fun n => if io.eraseCnt then { n with failCnt := none } else n]

def applyWrites (nvs : OtaNvs) (ws : List (OtaNvs → OtaNvs)) : OtaNvs := ws.foldl (fun n w => w n) nvs

/-- What a call of `ota_attempt_allowed` leaves on record. -/
def attemptCut (nvs : OtaNvs) (io : NvsIo) (version : CStr) (cut : Cut) : OtaNvs :=
  if BooksAttempt nvs io version then applyWrites nvs (cut.made (bookWrites nvs io version)) else nvs

/-- What the clearing after a confirmation leaves on record. -/
def clearCut (nvs : OtaNvs) (io : ClearIo) (cut : Cut) : OtaNvs :=
  if io.opens then applyWrites nvs (cut.made (clearWrites io)) else nvs

def countBegun (begun : CStr → ℕ) (version : CStr) : CStr → ℕ := fun v =>
  if v = version then begun v + 1 else begun v

def giveUp : Machine GiveUpState GiveUpEvent Refusal where
  step s
    | .attempt version io cut =>
        ⟨attemptCut s.nvs io version cut,
          if BooksAttempt s.nvs io version then countBegun s.begun version else s.begun⟩
    | .poll _ _ => s
    | .confirm io cut => ⟨clearCut s.nvs io cut, fun _ => 0⟩
    | .boot => s
  out s
    | .attempt version io .returns =>
        if (otaAttemptAllowed s.nvs io version).1 then [] else [⟨version, s.begun version⟩]
    | .poll version io =>
        if otaAttemptsExhausted s.nvs io version then [⟨version, s.begun version⟩] else []
    | _ => []

/-- A new device. -/
def giveUpInit : GiveUpState := ⟨⟨none, none⟩, fun _ => 0⟩

/-! ### The steps that mix two versions up -/

def OtaNvs.count (nvs : OtaNvs) : ℕ := (nvs.failCnt.getD 0).toNat

def versionLands (io : NvsIo) (cut : Cut) : Bool := io.setVer && cut.reaches 0

def countLands (io : NvsIo) (cut : Cut) : Bool := io.setCnt && cut.reaches 1

def versionGoes (io : ClearIo) (cut : Cut) : Bool := io.opens && io.eraseVer && cut.reaches 0

def countGoes (io : ClearIo) (cut : Cut) : Bool := io.opens && io.eraseCnt && cut.reaches 1

/-- A booking that ends with its version beside a count from before that it has not reached itself. -/
def KeepsOldCount (s : GiveUpState) (version : CStr) (io : NvsIo) (cut : Cut) : Prop :=
  versionLands io cut = true ∧ countLands io cut = false ∧ s.nvs.failVer ≠ some version ∧
    s.begun version + 1 < s.nvs.count

/-- A booking that ends with its count beside another version, which has none. -/
def KeepsOldVersion (s : GiveUpState) (version : CStr) (io : NvsIo) (cut : Cut) : Prop :=
  versionLands io cut = false ∧ countLands io cut = true ∧
    ∃ u ∈ s.nvs.failVer, u ≠ version ∧ s.begun u = 0

/-- A confirmation that clears neither key, with something on record. -/
def ClearsNothing (s : GiveUpState) (io : ClearIo) (cut : Cut) : Prop :=
  versionGoes io cut = false ∧ countGoes io cut = false ∧ s.nvs.failVer ≠ none ∧ 0 < s.nvs.count

instance (s : GiveUpState) (version : CStr) (io : NvsIo) (cut : Cut) :
    Decidable (KeepsOldCount s version io cut) := inferInstanceAs (Decidable (_ ∧ _ ∧ _ ∧ _))

instance (s : GiveUpState) (version : CStr) (io : NvsIo) (cut : Cut) :
    Decidable (KeepsOldVersion s version io cut) := inferInstanceAs (Decidable (_ ∧ _ ∧ _))

instance (s : GiveUpState) (io : ClearIo) (cut : Cut) : Decidable (ClearsNothing s io cut) :=
  inferInstanceAs (Decidable (_ ∧ _ ∧ _ ∧ _))

/-- The step does none of these. -/
def Fair (s : GiveUpState) : GiveUpEvent → Prop
  | .attempt version io cut => BooksAttempt s.nvs io version →
      ¬ KeepsOldCount s version io cut ∧ ¬ KeepsOldVersion s version io cut
  | .poll _ _ => True
  | .confirm io cut => ¬ ClearsNothing s io cut
  | .boot => True

instance (s : GiveUpState) : (e : GiveUpEvent) → Decidable (Fair s e)
  | .attempt _ _ _ => inferInstanceAs (Decidable (_ → _))
  | .poll _ _ => isTrue trivial
  | .confirm _ _ => inferInstanceAs (Decidable (¬ _))
  | .boot => isTrue trivial

/-- The count on record was reached by the version on record. -/
def Paired (s : GiveUpState) : Prop := ∀ v ∈ s.nvs.failVer, s.nvs.count ≤ s.begun v

/-! ### What a call leaves on record -/

theorem applyWrites_made (cut : Cut) (nvs : OtaNvs) (w₀ w₁ : OtaNvs → OtaNvs) :
    applyWrites nvs (cut.made [w₀, w₁]) =
      (if cut.reaches 1 then w₁ else id) ((if cut.reaches 0 then w₀ else id) nvs) := by
  cases cut with
  | returns => rfl
  | powerLoss writes =>
      match writes with
      | 0 => rfl
      | 1 => rfl
      | writes + 2 =>
          have htake : [w₀, w₁].take (writes + 2) = [w₀, w₁] := List.take_of_length_le (by simp)
          simp [Cut.made, htake, Cut.reaches, applyWrites]

/-- A call that returns has made both of its writes. -/
theorem attemptCut_returns (nvs : OtaNvs) (io : NvsIo) (version : CStr) :
    attemptCut nvs io version .returns = (otaAttemptAllowed nvs io version).2 := by
  unfold attemptCut otaAttemptAllowed
  by_cases hbooks : BooksAttempt nvs io version
  · rw [if_pos hbooks]
    simp [hbooks.1, hbooks.2, applyWrites, bookWrites, Cut.made]
  · rw [if_neg hbooks]
    rw [BooksAttempt, not_and] at hbooks
    by_cases hopens : io.opens = true
    · simp [hopens, Classical.not_not.mp (hbooks hopens)]
    · simp [hopens]

theorem attempt_refuses_iff (nvs : OtaNvs) (io : NvsIo) (version : CStr) :
    (otaAttemptAllowed nvs io version).1 = false ↔
      io.opens = true ∧ recordedCount nvs io version ≥ maxOtaAttempts := by
  rw [← attemptsExhausted_iff, otaAttemptsExhausted, Bool.and_eq_true, decide_eq_true_eq]

theorem attemptCut_eq (nvs : OtaNvs) (io : NvsIo) (version : CStr) (cut : Cut) :
    attemptCut nvs io version cut =
      if BooksAttempt nvs io version then
        ⟨if versionLands io cut then some version else nvs.failVer,
          if countLands io cut then some (recordedCount nvs io version + 1) else nvs.failCnt⟩
      else nvs := by
  rw [attemptCut, bookWrites, applyWrites_made]
  congr 1
  unfold versionLands countLands bookVersion bookCount
  cases cut.reaches 0 <;> cases cut.reaches 1 <;> cases io.setVer <;> cases io.setCnt <;> rfl

theorem clearCut_eq (nvs : OtaNvs) (io : ClearIo) (cut : Cut) :
    clearCut nvs io cut = ⟨if versionGoes io cut then none else nvs.failVer,
      if countGoes io cut then none else nvs.failCnt⟩ := by
  rw [clearCut, clearWrites, applyWrites_made]
  unfold versionGoes countGoes
  cases cut.reaches 0 <;> cases cut.reaches 1 <;> cases io.opens <;> cases io.eraseVer <;>
    cases io.eraseCnt <;> rfl

/-! ### The pairing -/

variable {s : GiveUpState} {version : CStr} {io : NvsIo}

/-- A count that was read is the one on record, and it is the count of `version`. -/
theorem recordedCount_cases (nvs : OtaNvs) (io : NvsIo) (version : CStr) :
    recordedCount nvs io version = 0 ∨
      nvs.failVer = some version ∧ recordedCount nvs io version = nvs.failCnt.getD 0 := by
  unfold recordedCount
  split
  · rename_i hread
    split
    · exact Or.inr ⟨(readStr_ok_iff.mp hread.2).1, rfl⟩
    · exact Or.inl rfl
  · exact Or.inl rfl

theorem recordedCount_le (hpaired : Paired s) (io : NvsIo) (version : CStr) :
    (recordedCount s.nvs io version).toNat ≤ s.begun version := by
  rcases recordedCount_cases s.nvs io version with hzero | ⟨hver, hcount⟩
  · rw [hzero]
    exact Nat.zero_le _
  · rw [hcount]
    exact hpaired version hver

theorem toNat_booked (hbooks : BooksAttempt s.nvs io version) :
    (recordedCount s.nvs io version + 1).toNat = (recordedCount s.nvs io version).toNat + 1 := by
  have hlow : (recordedCount s.nvs io version).toNat < 3 :=
    UInt8.lt_iff_toNat_lt.mp (UInt8.not_le.mp hbooks.2)
  rw [UInt8.toNat_add]
  exact Nat.mod_eq_of_lt (by simp; omega)

@[simp] theorem countBegun_self (begun : CStr → ℕ) (version : CStr) :
    countBegun begun version version = begun version + 1 := if_pos rfl

theorem countBegun_of_ne (begun : CStr → ℕ) {u : CStr} (h : u ≠ version) :
    countBegun begun version u = begun u := if_neg h

theorem le_countBegun (begun : CStr → ℕ) (version u : CStr) : begun u ≤ countBegun begun version u := by
  by_cases hown : u = version
  · rw [hown, countBegun_self]
    exact Nat.le_succ _
  · rw [countBegun_of_ne begun hown]

/-- A booking of which both records are written, none, or only one of them. -/
theorem paired_booking_iff (hpaired : Paired s) (hbooks : BooksAttempt s.nvs io version) (cut : Cut) :
    Paired (giveUp.step s (.attempt version io cut)) ↔
      ¬ KeepsOldCount s version io cut ∧ ¬ KeepsOldVersion s version io cut := by
  have hstep : giveUp.step s (.attempt version io cut) =
      ⟨⟨if versionLands io cut then some version else s.nvs.failVer,
        if countLands io cut then some (recordedCount s.nvs io version + 1) else s.nvs.failCnt⟩,
        countBegun s.begun version⟩ := by
    show (⟨attemptCut s.nvs io version cut, if BooksAttempt s.nvs io version then _ else _⟩ :
      GiveUpState) = _
    rw [attemptCut_eq, if_pos hbooks, if_pos hbooks]
  have hread := recordedCount_le hpaired io version
  rw [hstep]
  unfold Paired KeepsOldCount KeepsOldVersion OtaNvs.count
  cases versionLands io cut with
  | true =>
      cases countLands io cut with
      | true => simpa [toNat_booked hbooks] using hread
      | false =>
          have hown : s.nvs.failVer = some version → s.nvs.count ≤ s.begun version := hpaired version
          simp only [if_true, Bool.false_eq_true, if_false, Option.mem_some_iff, forall_eq',
            countBegun_self, true_and, not_and, Nat.not_lt, and_true, false_and, reduceCtorEq,
            not_false_eq_true]
          constructor
          · intro h _
            exact h
          · intro h
            by_cases hver : s.nvs.failVer = some version
            · exact (hown hver).trans (Nat.le_succ _)
            · exact h hver
  | false =>
      cases countLands io cut with
      | true =>
          simp only [Bool.false_eq_true, if_false, if_true, Option.getD_some, toNat_booked hbooks,
            false_and, not_false_eq_true, true_and, not_exists, not_and]
          constructor
          · intro h u hu hne hnone
            have hover := h u hu
            rw [countBegun_of_ne _ hne, hnone] at hover
            exact absurd hover (Nat.not_succ_le_zero _)
          · intro h u hu
            by_cases hne : u = version
            · subst hne
              rw [countBegun_self]
              exact Nat.succ_le_succ hread
            · have hother : recordedCount s.nvs io version = 0 := by
                rcases recordedCount_cases s.nvs io version with hzero | ⟨hver, _⟩
                · exact hzero
                · exact absurd (Option.some.inj (hu.symm.trans hver)) hne
              rw [countBegun_of_ne _ hne, hother]
              exact Nat.one_le_iff_ne_zero.mpr (h u hu hne)
      | false =>
          refine iff_of_true ?_ (by simp)
          intro u hu
          have hcount : s.nvs.count ≤ s.begun u := hpaired u hu
          exact hcount.trans (le_countBegun s.begun version u)

/-- **One step** keeps the pairing exactly when it is fair. -/
theorem paired_step_iff (s : GiveUpState) (e : GiveUpEvent) (hpaired : Paired s) :
    Paired (giveUp.step s e) ↔ Fair s e := by
  cases e with
  | attempt version io cut =>
      by_cases hbooks : BooksAttempt s.nvs io version
      · rw [paired_booking_iff hpaired hbooks cut]
        exact ⟨fun h _ => h, fun h => h hbooks⟩
      · have hstep : giveUp.step s (.attempt version io cut) = s := by
          show (⟨attemptCut s.nvs io version cut, if BooksAttempt s.nvs io version then _ else _⟩ :
            GiveUpState) = _
          rw [attemptCut_eq, if_neg hbooks, if_neg hbooks]
        rw [hstep]
        exact iff_of_true hpaired fun h => absurd h hbooks
  | poll version io => exact iff_of_true hpaired trivial
  | confirm io cut =>
      show Paired ⟨clearCut s.nvs io cut, fun _ => 0⟩ ↔ ¬ ClearsNothing s io cut
      rw [clearCut_eq]
      unfold Paired ClearsNothing OtaNvs.count
      cases versionGoes io cut with
      | true => simp
      | false =>
          cases countGoes io cut with
          | true => simp
          | false => simp [Option.ne_none_iff_exists']
  | boot => exact iff_of_true hpaired trivial

theorem paired_init : Paired giveUpInit := fun _ h => absurd h (by simp [giveUpInit])

/-- The runs that never mix two versions up are the fair ones. -/
theorem paired_throughout_iff (es : List GiveUpEvent) :
    (∀ fs, fs <+: es → Paired (giveUp.run giveUpInit fs)) ↔ giveUp.Admits Fair giveUpInit es :=
  giveUp.invariant_iff paired_step_iff paired_init es

/-! ### Refusals -/

theorem begun_of_refused (hpaired : Paired s)
    (hfull : recordedCount s.nvs io version ≥ maxOtaAttempts) : 3 ≤ s.begun version :=
  (UInt8.le_iff_toNat_le.mp hfull).trans (recordedCount_le hpaired io version)

theorem refusals_of_paired (s : GiveUpState) (e : GiveUpEvent) (hpaired : Paired s) :
    ∀ r ∈ giveUp.out s e, 3 ≤ r.begun := by
  intro r hr
  cases e with
  | attempt version io cut =>
      cases cut with
      | returns =>
          change r ∈ if (otaAttemptAllowed s.nvs io version).1 then [] else _ at hr
          cases hallowed : (otaAttemptAllowed s.nvs io version).1 with
          | true => simp [hallowed] at hr
          | false =>
              obtain rfl : r = ⟨version, s.begun version⟩ := by simpa [hallowed] using hr
              exact begun_of_refused hpaired ((attempt_refuses_iff s.nvs io version).mp hallowed).2
      | powerLoss writes => simp [giveUp] at hr
  | poll version io =>
      change r ∈ if otaAttemptsExhausted s.nvs io version then _ else [] at hr
      cases hexhausted : otaAttemptsExhausted s.nvs io version with
      | true =>
          obtain rfl : r = ⟨version, s.begun version⟩ := by simpa [hexhausted] using hr
          rw [attemptsExhausted_iff, attempt_refuses_iff] at hexhausted
          exact begun_of_refused hpaired hexhausted.2
      | false => simp [hexhausted] at hr
  | confirm io cut => simp [giveUp] at hr
  | boot => simp [giveUp] at hr

/-- **Three attempts of its own.**  In a run of fair steps a version is refused only after three attempts at
it were begun since the last confirmed install. -/
theorem refused_after_three (es : List GiveUpEvent) (hfair : giveUp.Admits Fair giveUpInit es) :
    ∀ r ∈ giveUp.outputs giveUpInit es, maxOtaAttempts.toNat ≤ r.begun :=
  giveUp.forall_outputs (fun s e hpaired he => (paired_step_iff s e hpaired).mpr he)
    (fun s e hpaired _ => refusals_of_paired s e hpaired) paired_init hfair

/-- `1.1.7`. -/
def version117 : CStr := ⟨[0x31, 0x2e, 0x31, 0x2e, 0x37], by decide⟩

/-- `1.1.8`. -/
def version118 : CStr := ⟨[0x31, 0x2e, 0x31, 0x2e, 0x38], by decide⟩

/-- An attempt at a version with no mishap. -/
def cleanAttempt (version : CStr) : GiveUpEvent := .attempt version nvsOk .returns

/-- A release that is given up, and the next one, whose first booking loses its count. -/
def tornRun : List GiveUpEvent :=
  (List.replicate 3 [cleanAttempt version117, GiveUpEvent.boot]).flatten ++
    [.attempt version118 nvsOk (.powerLoss 1), .boot, .poll version118 nvsOk]

theorem refused_after_three_of_three :
    giveUp.outputs giveUpInit (List.replicate 4 (cleanAttempt version117)) = [⟨version117, 3⟩] ∧
      ∀ r ∈ giveUp.outputs giveUpInit (List.replicate 4 (cleanAttempt version117)),
        maxOtaAttempts.toNat ≤ r.begun :=
  ⟨by decide +kernel, refused_after_three _ (by decide +kernel)⟩

/-- **One attempt of its own.**  The count of the version before it is enough to refuse the next one. -/
theorem torn_booking_refused :
    giveUp.outputs giveUpInit tornRun = [⟨version118, 1⟩] ∧
      ¬ ∀ es, ∀ r ∈ giveUp.outputs giveUpInit es, maxOtaAttempts.toNat ≤ r.begun := by
  have hrun : giveUp.outputs giveUpInit tornRun = [⟨version118, 1⟩] := by decide +kernel
  refine ⟨hrun, ?_⟩
  intro h
  have hthree := h tornRun ⟨version118, 1⟩ (by rw [hrun]; exact List.mem_singleton_self _)
  exact absurd hthree (by decide)

/-! ### What an unfair step leads to -/

/-- What the events leave on record fits the buffer, and the count is at most the budget. -/
def Stored (s : GiveUpState) : Prop := (∀ v ∈ s.nvs.failVer, v.size ≤ storedB) ∧ s.nvs.count ≤ 3

/-- The versions of the events fit the buffer. -/
def Short : GiveUpEvent → Prop
  | .attempt version _ _ => version.size ≤ storedB
  | _ => True

theorem stored_step (s : GiveUpState) (e : GiveUpEvent) (hstored : Stored s) (hshort : Short e) :
    Stored (giveUp.step s e) := by
  obtain ⟨hver, hcnt⟩ := hstored
  cases e with
  | attempt version io cut =>
      show Stored ⟨attemptCut s.nvs io version cut, _⟩
      rw [attemptCut_eq]
      by_cases hbooks : BooksAttempt s.nvs io version
      · rw [if_pos hbooks]
        constructor
        · intro v hv
          cases hlands : versionLands io cut with
          | true =>
              obtain rfl : version = v := by simpa [hlands] using hv
              exact hshort
          | false => exact hver v (by simpa [hlands] using hv)
        · cases hlands : countLands io cut with
          | true =>
              have hlow : (recordedCount s.nvs io version).toNat < 3 :=
                UInt8.lt_iff_toNat_lt.mp (UInt8.not_le.mp hbooks.2)
              show (recordedCount s.nvs io version + 1).toNat ≤ 3
              rw [toNat_booked hbooks]
              exact hlow
          | false => exact hcnt
      · rw [if_neg hbooks]
        exact ⟨hver, hcnt⟩
  | poll version io => exact ⟨hver, hcnt⟩
  | confirm io cut =>
      show Stored ⟨clearCut s.nvs io cut, _⟩
      rw [clearCut_eq]
      constructor
      · intro v hv
        cases hgoes : versionGoes io cut with
        | true => simp [hgoes] at hv
        | false => exact hver v (by simpa [hgoes] using hv)
      · cases hgoes : countGoes io cut with
        | true => exact Nat.zero_le _
        | false => exact hcnt
  | boot => exact ⟨hver, hcnt⟩

theorem stored_run {es : List GiveUpEvent} (hshort : ∀ e ∈ es, Short e) :
    Stored (giveUp.run giveUpInit es) := by
  have hadmits := giveUp.admits_and (giveUp.admits_true giveUpInit es) hshort
  exact giveUp.invariant (fun s e hstored he => stored_step s e hstored he.2)
    ⟨fun _ h => absurd h (by simp [giveUpInit]), Nat.zero_le _⟩ hadmits

/-- A version beside a count that it has not reached is refused too early by clean attempts. -/
theorem early_refusal {version : CStr} (hfits : version.size ≤ storedB) {k : ℕ} {s : GiveUpState}
    (hver : s.nvs.failVer = some version) (hcount : s.nvs.count + k = 3)
    (hlow : s.begun version < s.nvs.count) :
    ∃ r ∈ giveUp.outputs s (List.replicate (k + 1) (cleanAttempt version)), r.begun < 3 := by
  have hread : recordedCount s.nvs nvsOk version = s.nvs.failCnt.getD 0 := by
    rw [recordedCount_ok, if_pos (readStr_ok_iff.mpr ⟨hver, hfits⟩)]
  induction k generalizing s with
  | zero =>
      have hfull : recordedCount s.nvs nvsOk version ≥ maxOtaAttempts := by
        rw [hread]
        exact UInt8.le_iff_toNat_le.mpr (Nat.le_of_eq hcount.symm)
      have hout : giveUp.out s (cleanAttempt version) = [⟨version, s.begun version⟩] := by
        show (if (otaAttemptAllowed s.nvs nvsOk version).1 then [] else _) = _
        rw [attempt_of_exhausted hfull]
        rfl
      refine ⟨⟨version, s.begun version⟩, ?_, ?_⟩
      · show _ ∈ giveUp.out s (cleanAttempt version) ++ []
        rw [hout]
        exact List.mem_cons_self
      · show s.begun version < 3
        omega
  | succ k ih =>
      have hleft : ¬ recordedCount s.nvs nvsOk version ≥ maxOtaAttempts := by
        rw [hread]
        intro hfull
        have hthree : 3 ≤ s.nvs.count := UInt8.le_iff_toNat_le.mp hfull
        omega
      have hbooks : BooksAttempt s.nvs nvsOk version := ⟨rfl, hleft⟩
      have hstep : giveUp.step s (cleanAttempt version) =
          ⟨⟨some version, some (recordedCount s.nvs nvsOk version + 1)⟩, countBegun s.begun version⟩ := by
        show (⟨attemptCut s.nvs nvsOk version .returns, if BooksAttempt s.nvs nvsOk version then _ else _⟩ :
          GiveUpState) = _
        rw [attemptCut_returns, attempt_of_left hleft, if_pos hbooks]
      have hnext : (giveUp.step s (cleanAttempt version)).nvs.count = s.nvs.count + 1 := by
        rw [hstep]
        show (recordedCount s.nvs nvsOk version + 1).toNat = (s.nvs.failCnt.getD 0).toNat + 1
        rw [toNat_booked hbooks, hread]
      have hbegun : (giveUp.step s (cleanAttempt version)).begun version = s.begun version + 1 := by
        rw [hstep]
        exact countBegun_self s.begun version
      have hnextver : (giveUp.step s (cleanAttempt version)).nvs.failVer = some version := by rw [hstep]
      obtain ⟨r, hr, hearly⟩ := ih (s := giveUp.step s (cleanAttempt version)) hnextver
        (by rw [hnext]; omega) (by rw [hnext, hbegun]; omega)
        (by rw [recordedCount_ok, if_pos (readStr_ok_iff.mpr ⟨hnextver, hfits⟩)])
      exact ⟨r, List.mem_append_right _ hr, hearly⟩

theorem fair_cleanAttempt (s : GiveUpState) (version : CStr) : Fair s (cleanAttempt version) :=
  fun _ => ⟨fun h => absurd h.2.1 (by decide), fun h => absurd h.1 (by decide)⟩

theorem admits_cleanAttempts (s : GiveUpState) (version : CStr) (n : ℕ) :
    giveUp.Admits Fair s (List.replicate n (cleanAttempt version)) := by
  induction n generalizing s with
  | zero => trivial
  | succ n ih => exact ⟨fair_cleanAttempt s version, ih _⟩

/-- **The fair runs are exactly those without an early refusal to come**: after an unfair step, clean
attempts at the version on record are refused before the third of them. -/
theorem fair_iff_none_early {es : List GiveUpEvent} (hshort : ∀ e ∈ es, Short e) :
    giveUp.Admits Fair giveUpInit es ↔
      ∀ fs, fs <+: es → ∀ version n,
        ∀ r ∈ giveUp.outputs giveUpInit (fs ++ List.replicate n (cleanAttempt version)),
          maxOtaAttempts.toNat ≤ r.begun := by
  constructor
  · intro hfair fs hfs version n
    obtain ⟨rest, rfl⟩ := hfs
    have hhead := ((giveUp.admits_append Fair giveUpInit fs rest).mp hfair).1
    have hall : giveUp.Admits Fair giveUpInit (fs ++ List.replicate n (cleanAttempt version)) :=
      (giveUp.admits_append Fair giveUpInit fs _).mpr ⟨hhead, admits_cleanAttempts _ version n⟩
    exact giveUp.forall_outputs (fun s e hpaired he => (paired_step_iff s e hpaired).mpr he)
      (fun s e hpaired _ => refusals_of_paired s e hpaired) paired_init hall
  · intro h
    apply (paired_throughout_iff es).mp
    intro fs hfs version hver
    by_contra hlow
    obtain ⟨hfits, hcount⟩ := stored_run fun e he => hshort e (hfs.subset he)
    obtain ⟨k, hk⟩ := Nat.exists_eq_add_of_le hcount
    obtain ⟨r, hr, hearly⟩ := early_refusal (hfits version hver) hver hk.symm (Nat.not_le.mp hlow)
    refine absurd (h fs hfs version (k + 1) r ?_) (Nat.not_le.mpr hearly)
    rw [giveUp.outputs_append]
    exact List.mem_append_right _ hr

end RtkdataFw.Update
