import RtkdataFw.Lib.CStr
import RtkdataFw.Lib.Machine

/-!
# The per-version download budget of `update.c`

`fail_ver` and `fail_cnt` are two NVS keys.  `ota_attempt_allowed` reads the version back through a buffer
of 24 bytes and compares it with the one on offer; a read that fails counts as another version.

* `recordedCount` — the attempts that the two keys show for a version;
* `attemptsExhausted_iff` — the read-only twin answers as the gate does;
* `step_pays` — a grant is paid for by what is left of the budget, for a version that fits the buffer;
* `long_version_always_allowed` — a longer version is granted every time;
* `budget_iff` — so the budget holds for the versions of at most 23 characters, and for no others.
-/

namespace RtkdataFw.Update

open RtkdataFw.Lib

def maxOtaAttempts : UInt8 := 3

/-- `sizeof (stored)`. -/
def storedB : ℕ := 24

/-- The namespace `ota`. -/
structure OtaNvs where
  failVer : Option CStr
  failCnt : Option UInt8
  deriving DecidableEq, Repr

/-- Which of the NVS calls succeed.  A read that does may still find nothing, or not fit. -/
structure NvsIo where
  opens : Bool
  getVer : Bool
  getCnt : Bool
  setVer : Bool
  setCnt : Bool
  deriving DecidableEq, Repr

def nvsOk : NvsIo := ⟨true, true, true, true, true⟩

/-- `cnt` after the reads: the stored count, when the stored version is `version`. -/
def recordedCount (nvs : OtaNvs) (io : NvsIo) (version : CStr) : UInt8 :=
  if io.getVer ∧ readStr nvs.failVer storedB = .ok version then
    if io.getCnt then nvs.failCnt.getD 0 else 0
  else 0

def bookVersion (nvs : OtaNvs) (io : NvsIo) (version : CStr) : OtaNvs :=
  if io.setVer then { nvs with failVer := some version } else nvs

def bookCount (nvs : OtaNvs) (io : NvsIo) (cnt : UInt8) : OtaNvs :=
  if io.setCnt then { nvs with failCnt := some cnt } else nvs

/-- Whether the attempt may go ahead, and what is on record then. -/
def otaAttemptAllowed (nvs : OtaNvs) (io : NvsIo) (version : CStr) : Bool × OtaNvs :=
  if !io.opens then (true, nvs)
  else
    let cnt := recordedCount nvs io version
    if cnt ≥ maxOtaAttempts then (false, nvs)
    else (true, bookCount (bookVersion nvs io version) io (cnt + 1))

def otaAttemptsExhausted (nvs : OtaNvs) (io : NvsIo) (version : CStr) : Bool :=
  io.opens && decide (recordedCount nvs io version ≥ maxOtaAttempts)

/-- **The twins agree.**  The daily poll sees a budget exhausted exactly when the gate refuses. -/
theorem attemptsExhausted_iff (nvs : OtaNvs) (io : NvsIo) (version : CStr) :
    otaAttemptsExhausted nvs io version = true ↔ (otaAttemptAllowed nvs io version).1 = false := by
  unfold otaAttemptsExhausted otaAttemptAllowed
  cases io.opens with
  | false => simp
  | true =>
      by_cases hfull : recordedCount nvs io version ≥ maxOtaAttempts <;> simp [hfull]

/-! ### Runs with one version -/

inductive OtaEvent where
  | attempt
  /-- A reset between the two writes of a booking. -/
  | tornAttempt
  /-- A reset at any other time. -/
  | boot
  /-- The daily poll asks `ota_attempts_exhausted`. -/
  | poll
  deriving DecidableEq, Repr

/-- The booking that a reset cuts short. -/
def tornAttempt (nvs : OtaNvs) (version : CStr) : OtaNvs :=
  if recordedCount nvs nvsOk version ≥ maxOtaAttempts then nvs else bookVersion nvs nvsOk version

/-- Boots and attempts with one version, NVS working; an attempt that is granted is put out. -/
def ota (version : CStr) : Machine OtaNvs OtaEvent Unit where
  step nvs
    | .attempt => (otaAttemptAllowed nvs nvsOk version).2
    | .tornAttempt => tornAttempt nvs version
    | .boot => nvs
    | .poll => nvs
  out nvs
    | .attempt => if (otaAttemptAllowed nvs nvsOk version).1 then [()] else []
    | _ => []

/-! ### Versions that fit the buffer -/

theorem recordedCount_ok (nvs : OtaNvs) (version : CStr) :
    recordedCount nvs nvsOk version =
      if readStr nvs.failVer storedB = .ok version then nvs.failCnt.getD 0 else 0 := by
  simp [recordedCount, nvsOk]

theorem recordedCount_booked {version : CStr} (hfits : version.size ≤ storedB) (cnt : Option UInt8) :
    recordedCount ⟨some version, cnt⟩ nvsOk version = cnt.getD 0 := by
  rw [recordedCount_ok, if_pos (readStr_ok_iff.mpr ⟨rfl, hfits⟩)]

/-- What is left of the budget. -/
def remaining (version : CStr) (nvs : OtaNvs) : ℕ :=
  maxOtaAttempts.toNat - (recordedCount nvs nvsOk version).toNat

theorem attempt_of_exhausted {nvs : OtaNvs} {version : CStr}
    (h : recordedCount nvs nvsOk version ≥ maxOtaAttempts) :
    otaAttemptAllowed nvs nvsOk version = (false, nvs) := by
  show (if recordedCount nvs nvsOk version ≥ maxOtaAttempts then _ else _) = _
  rw [if_pos h]

theorem attempt_of_left {nvs : OtaNvs} {version : CStr}
    (h : ¬ recordedCount nvs nvsOk version ≥ maxOtaAttempts) :
    otaAttemptAllowed nvs nvsOk version =
      (true, ⟨some version, some (recordedCount nvs nvsOk version + 1)⟩) := by
  show (if recordedCount nvs nvsOk version ≥ maxOtaAttempts then _ else _) = _
  rw [if_neg h]
  rfl

theorem attempt_pays {version : CStr} (hfits : version.size ≤ storedB) (nvs : OtaNvs) :
    ((ota version).out nvs .attempt).length + remaining version ((ota version).step nvs .attempt) ≤
      remaining version nvs := by
  show (if (otaAttemptAllowed nvs nvsOk version).1 then [()] else []).length +
    remaining version (otaAttemptAllowed nvs nvsOk version).2 ≤ _
  by_cases hfull : recordedCount nvs nvsOk version ≥ maxOtaAttempts
  · rw [attempt_of_exhausted hfull]
    simp
  · rw [attempt_of_left hfull]
    have hlow : (recordedCount nvs nvsOk version).toNat < 3 :=
      UInt8.lt_iff_toNat_lt.mp (UInt8.not_le.mp hfull)
    have hnext : (recordedCount nvs nvsOk version + 1).toNat =
        (recordedCount nvs nvsOk version).toNat + 1 := by
      rw [UInt8.toNat_add]
      exact Nat.mod_eq_of_lt (by simp; omega)
    have hbudget : maxOtaAttempts.toNat = 3 := rfl
    simp only [remaining, recordedCount_booked hfits, Option.getD_some, hnext, if_true,
      List.length_singleton, hbudget]
    omega

/-- A torn booking leaves the old count to the new version, so the budget does not grow. -/
theorem torn_pays {version : CStr} (hfits : version.size ≤ storedB) (nvs : OtaNvs) :
    remaining version (tornAttempt nvs version) ≤ remaining version nvs := by
  unfold tornAttempt
  split
  · exact Nat.le_refl _
  · show maxOtaAttempts.toNat - (recordedCount ⟨some version, nvs.failCnt⟩ nvsOk version).toNat ≤ _
    rw [recordedCount_booked hfits, remaining, recordedCount_ok]
    split
    · exact Nat.le_refl _
    · exact Nat.sub_le_sub_left (Nat.zero_le _) _

theorem step_pays {version : CStr} (hfits : version.size ≤ storedB) (nvs : OtaNvs) (e : OtaEvent) :
    ((ota version).out nvs e).length + remaining version ((ota version).step nvs e) ≤
      remaining version nvs := by
  cases e with
  | attempt => exact attempt_pays hfits nvs
  | tornAttempt =>
      show 0 + remaining version (tornAttempt nvs version) ≤ _
      rw [Nat.zero_add]
      exact torn_pays hfits nvs
  | boot => exact Nat.le_of_eq (Nat.zero_add _)
  | poll => exact Nat.le_of_eq (Nat.zero_add _)

/-! ### Versions that do not -/

theorem recordedCount_long {version : CStr} (hlong : storedB < version.size) (nvs : OtaNvs) :
    recordedCount nvs nvsOk version = 0 := by
  rw [recordedCount_ok, if_neg fun h => ?_]
  exact absurd (readStr_ok_iff.mp h).2 (Nat.not_le.mpr hlong)

/-- **A long version is never refused**, however often it was booked. -/
theorem long_version_always_allowed {version : CStr} (hlong : storedB < version.size) (nvs : OtaNvs)
    (n : ℕ) : ((ota version).outputs nvs (List.replicate n .attempt)).length = n := by
  induction n generalizing nvs with
  | zero => rfl
  | succ n ih =>
      have hleft : ¬ recordedCount nvs nvsOk version ≥ maxOtaAttempts := by
        rw [recordedCount_long hlong]
        decide
      have hout : (ota version).out nvs .attempt = [()] := by
        show (if (otaAttemptAllowed nvs nvsOk version).1 then [()] else []) = _
        rw [attempt_of_left hleft]
        rfl
      rw [List.replicate_succ, Machine.outputs_cons, List.length_append, hout, ih,
        List.length_singleton, Nat.add_comm]

/-- `1.2.0-rc.1+build.2026081`. -/
def longVersion : CStr :=
  ⟨[0x31, 0x2e, 0x32, 0x2e, 0x30, 0x2d, 0x72, 0x63, 0x2e, 0x31, 0x2b, 0x62, 0x75, 0x69, 0x6c, 0x64,
    0x2e, 0x32, 0x30, 0x32, 0x36, 0x30, 0x38, 0x31], by decide⟩

/-- **A fourth attempt.**  The device resets after every attempt at a version of 24 characters. -/
theorem long_version_fourth_attempt :
    longVersion.length = 24 ∧
      ((ota longVersion).outputs ⟨none, none⟩
        [.attempt, .boot, .attempt, .boot, .attempt, .boot, .attempt]).length = 4 ∧
      ¬ ∀ nvs es, ((ota longVersion).outputs nvs es).length ≤ maxOtaAttempts.toNat := by
  have hfour : ((ota longVersion).outputs ⟨none, none⟩
      [.attempt, .boot, .attempt, .boot, .attempt, .boot, .attempt]).length = 4 := by decide +kernel
  refine ⟨rfl, hfour, ?_⟩
  intro h
  have hthree := h ⟨none, none⟩ [.attempt, .boot, .attempt, .boot, .attempt, .boot, .attempt]
  rw [hfour] at hthree
  exact absurd hthree (by decide)

/-- **The budget holds exactly for the versions of at most 23 characters**: whatever the keys hold at
first, in every run of boots and attempts, at most `MAX_OTA_ATTEMPTS` attempts are granted. -/
theorem budget_iff (version : CStr) :
    (∀ nvs es, ((ota version).outputs nvs es).length ≤ maxOtaAttempts.toNat) ↔
      version.length ≤ 23 := by
  constructor
  · intro h
    by_contra hlong
    have hover : storedB < version.size := Nat.succ_lt_succ (Nat.not_le.mp hlong)
    have hfour := h ⟨none, none⟩ (List.replicate 4 .attempt)
    rw [long_version_always_allowed hover] at hfour
    exact absurd hfour (by decide)
  · intro hshort nvs es
    have hfits : version.size ≤ storedB := Nat.succ_le_succ hshort
    have hbound := (ota version).length_outputs_le (remaining version)
      (fun nvs e (_ : True) => step_pays hfits nvs e) ((ota version).admits_true nvs es)
    exact hbound.trans (Nat.sub_le _ _)

end RtkdataFw.Update
