import RtkdataFw.Update.AttemptBudget
import RtkdataFw.Update.Firmware

/-!
# The daily poll and the boot check

`ota_schedule_check_newupdate` restarts the device for a newer version whose budget is not spent, and
`ota_boot_check` books an attempt at the next boot, unless it gives up before.  A night is both tasks together:
passes of the poll, boots, and the confirmation of the running image.

* `otaBootCheck`, `pollPass` — the two tasks;
* `deferred_nights` — a boot check that always defers has one restart every night;
* `event_pays` — a restart is paid for by the booking that follows it;
* `restarts_le` — so the restarts are bounded while every boot check after a restart books.
-/

namespace RtkdataFw.Update

open RtkdataFw.Lib

/-- The fields of the manifest that the checks read. -/
structure Manifest where
  /-- `version`, when it is a string. -/
  version : Option CStr
  /-- `update_files_urls` is an array. -/
  urlsArray : Bool
  deriving DecidableEq, Repr

/-- What a boot check meets. -/
structure CheckIo where
  /-- The semaphore and the task of the check are created. -/
  spawned : Bool
  /-- `ota_fetch_json_from_url`. -/
  manifest : Option Manifest
  heap : ℕ
  /-- `wait_for_ip` after the config AP was closed. -/
  ip : Bool
  /-- The heap after that. -/
  heapNow : ℕ
  nvs : NvsIo
  deriving DecidableEq, Repr

structure NightState where
  nvs : OtaNvs
  /-- The boot check is over and the daily poll runs. -/
  up : Bool
  checkedThisMinute : Bool
  /-- The running image is still to be verified. -/
  pendingVerify : Bool
  deriving DecidableEq, Repr

inductive NightEvent where
  /-- A pass of the daily poll, in the minute of midnight or in another. -/
  | poll (midnight : Bool) (manifest : Option Manifest) (io : NvsIo)
  /-- A boot, up to the end of its check.  An image that was not verified is rolled back. -/
  | boot (io : CheckIo)
  /-- `ota_mark_valid_task` confirms the running image. -/
  | confirm
  deriving DecidableEq, Repr

/-! ### The code -/

section

variable (newer : CStr → Bool)

/-- The boot check, where `newer` compares a version with the running one: whether `updateFirmware` is called,
and what is on record then. -/
def otaBootCheck (nvs : OtaNvs) (io : CheckIo) : Bool × OtaNvs :=
  if !io.spawned then (false, nvs)
  else match io.manifest with
  | none => (false, nvs)
  | some m =>
      match m.version with
      | none => (false, nvs)
      | some version =>
          if !m.urlsArray then (false, nvs)
          else if !newer version then (false, nvs)
          else if io.heap < minOtaHeap ∧ io.ip = false then (false, nvs)
          else if io.heapNow < minOtaHeap then (false, nvs)
          else otaAttemptAllowed nvs io.nvs version

/-- The version that the daily poll restarts the device for. -/
def pollVersion (nvs : OtaNvs) (manifest : Option Manifest) (io : NvsIo) : Option CStr :=
  match manifest with
  | none => none
  | some m =>
      match m.version with
      | none => none
      | some version =>
          if newer version && !otaAttemptsExhausted nvs io version then some version else none

/-- A pass of the loop in `ota_schedule_check_newupdate`. -/
def pollPass (s : NightState) (midnight : Bool) (manifest : Option Manifest) (io : NvsIo) :
    NightState × List CStr :=
  if midnight then
    if s.checkedThisMinute then (s, [])
    else
      match pollVersion newer s.nvs manifest io with
      | some version => ({ s with up := false, checkedThisMinute := true }, [version])
      | none => ({ s with checkedThisMinute := true }, [])
  else ({ s with checkedThisMinute := false }, [])

/-- The device while no install succeeds; the restarts of the daily poll are put out. -/
def nights : Machine NightState NightEvent CStr where
  step s
    | .poll midnight manifest io => if s.up then (pollPass newer s midnight manifest io).1 else s
    | .boot io => ⟨(otaBootCheck newer s.nvs io).2, true, false, false⟩
    | .confirm => if s.up && s.pendingVerify then { s with nvs := ⟨none, none⟩, pendingVerify := false } else s
  out s
    | .poll midnight manifest io => if s.up then (pollPass newer s midnight manifest io).2 else []
    | _ => []

end

/-! ### One version that stays published -/

/-- The manifest is not reached, or it offers `version`. -/
def Offers (version : CStr) (manifest : Option Manifest) : Prop :=
  ∀ m ∈ manifest, m = ⟨some version, true⟩

/-- Whenever the manifest is reached it offers `version`. -/
def Published (version : CStr) : NightEvent → Prop
  | .poll _ manifest _ => Offers version manifest
  | .boot io => Offers version io.manifest
  | .confirm => True

/-- A boot check that comes to its booking. -/
structure Books (io : CheckIo) : Prop where
  spawned : io.spawned = true
  manifest : io.manifest ≠ none
  ip : io.heap < minOtaHeap → io.ip = true
  heap : minOtaHeap ≤ io.heapNow

instance (io : CheckIo) : Decidable (Books io) :=
  decidable_of_iff (io.spawned = true ∧ io.manifest ≠ none ∧ (io.heap < minOtaHeap → io.ip = true) ∧
      minOtaHeap ≤ io.heapNow)
    ⟨fun h => ⟨h.1, h.2.1, h.2.2.1, h.2.2.2⟩, fun h => ⟨h.spawned, h.manifest, h.ip, h.heap⟩⟩

/-- NVS works, and the boot check after a restart of the poll books. -/
def Paid (s : NightState) : NightEvent → Prop
  | .poll _ _ io => io = nvsOk
  | .boot io => io.nvs = nvsOk ∧ (s.up = false → Books io)
  | .confirm => True

instance (s : NightState) : (e : NightEvent) → Decidable (Paid s e)
  | .poll _ _ _ => inferInstanceAs (Decidable (_ = _))
  | .boot _ => inferInstanceAs (Decidable (_ ∧ _))
  | .confirm => isTrue trivial

variable {newer : CStr → Bool} {version : CStr}

/-! ### What a boot check books -/

/-- A boot check leaves the record alone, or asks the gate. -/
theorem otaBootCheck_cases (nvs : OtaNvs) {io : CheckIo} (hoffers : Offers version io.manifest)
    (hnewer : newer version = true) :
    ¬ Books io ∧ otaBootCheck newer nvs io = (false, nvs) ∨
      Books io ∧ otaBootCheck newer nvs io = otaAttemptAllowed nvs io.nvs version := by
  unfold otaBootCheck
  cases hspawned : io.spawned with
  | false => exact Or.inl ⟨fun h => absurd (hspawned.symm.trans h.spawned) nofun, rfl⟩
  | true =>
      cases hmanifest : io.manifest with
      | none => exact Or.inl ⟨fun h => h.manifest hmanifest, rfl⟩
      | some m =>
          obtain rfl := hoffers m hmanifest
          simp only [Bool.not_true, Bool.false_eq_true, if_false, hnewer]
          by_cases hip : io.heap < minOtaHeap ∧ io.ip = false
          · rw [if_pos hip]
            exact Or.inl ⟨fun h => absurd (hip.2.symm.trans (h.ip hip.1)) nofun, rfl⟩
          rw [if_neg hip]
          by_cases hheap : io.heapNow < minOtaHeap
          · rw [if_pos hheap]
            exact Or.inl ⟨fun h => absurd h.heap (Nat.not_le.mpr hheap), rfl⟩
          rw [if_neg hheap]
          refine Or.inr ⟨⟨hspawned, ?_, ?_, Nat.le_of_not_lt hheap⟩, rfl⟩
          · rw [hmanifest]
            exact Option.some_ne_none _
          · intro hlow
            rw [not_and, Bool.not_eq_false] at hip
            exact hip hlow

theorem remaining_zero {nvs : OtaNvs} (h : recordedCount nvs nvsOk version ≥ maxOtaAttempts) :
    remaining version nvs = 0 :=
  Nat.sub_eq_zero_of_le (UInt8.le_iff_toNat_le.mp h)

/-- The gate takes one from what is left of the budget. -/
theorem attempt_spends (hfits : version.size ≤ storedB) (nvs : OtaNvs) :
    remaining version (otaAttemptAllowed nvs nvsOk version).2 ≤ remaining version nvs - 1 := by
  have hpays := attempt_pays hfits nvs
  by_cases hfull : recordedCount nvs nvsOk version ≥ maxOtaAttempts
  · rw [attempt_of_exhausted hfull, remaining_zero hfull]
  · have hout : (ota version).out nvs .attempt = [()] := by
      show (if (otaAttemptAllowed nvs nvsOk version).1 then [()] else []) = _
      rw [attempt_of_left hfull]
      rfl
    rw [hout, List.length_singleton] at hpays
    exact Nat.le_sub_of_add_le (Nat.add_comm 1 _ ▸ hpays)

theorem bootCheck_pays (hfits : version.size ≤ storedB) (hnewer : newer version = true) (nvs : OtaNvs)
    {io : CheckIo} (hoffers : Offers version io.manifest) (hnvs : io.nvs = nvsOk) :
    remaining version (otaBootCheck newer nvs io).2 ≤ remaining version nvs ∧
      (Books io → remaining version (otaBootCheck newer nvs io).2 ≤ remaining version nvs - 1) := by
  rcases otaBootCheck_cases nvs hoffers hnewer with ⟨hnot, heq⟩ | ⟨_, heq⟩
  · rw [heq]
    exact ⟨Nat.le_refl _, fun hbooks => absurd hbooks hnot⟩
  · have hspends := attempt_spends hfits nvs
    rw [heq, hnvs]
    exact ⟨hspends.trans (Nat.sub_le _ _), fun _ => hspends⟩

/-! ### What a restart costs -/

/-- The restarts that are left: each is taken from the budget by the next booking. -/
def restartsLeft (version : CStr) (s : NightState) : ℕ :=
  if s.up then (if s.pendingVerify then maxOtaAttempts.toNat else remaining version s.nvs)
  else remaining version s.nvs - 1

/-- What the poll restarts the device for has some of its budget left. -/
theorem pollVersion_cases (newer : CStr → Bool) (nvs : OtaNvs) {manifest : Option Manifest}
    (hoffers : Offers version manifest) :
    pollVersion newer nvs manifest nvsOk = none ∨
      pollVersion newer nvs manifest nvsOk = some version ∧ 0 < remaining version nvs := by
  unfold pollVersion
  cases hmanifest : manifest with
  | none => exact Or.inl rfl
  | some m =>
      obtain rfl := hoffers m hmanifest
      dsimp only
      by_cases hleft : (newer version && !otaAttemptsExhausted nvs nvsOk version) = true
      · rw [if_pos hleft]
        refine Or.inr ⟨rfl, ?_⟩
        rw [Bool.and_eq_true, Bool.not_eq_true', ← Bool.not_eq_true, attemptsExhausted_iff] at hleft
        have hlow : recordedCount nvs nvsOk version < maxOtaAttempts := by
          apply UInt8.not_le.mp
          intro hfull
          apply hleft.2
          rw [attempt_of_exhausted hfull]
        exact Nat.sub_pos_of_lt (UInt8.lt_iff_toNat_lt.mp hlow)
      · rw [if_neg hleft]
        exact Or.inl rfl

/-- A pass of the poll does nothing but set its flag, or restarts the device. -/
theorem pollPass_cases (newer : CStr → Bool) (s : NightState) (midnight : Bool) {manifest : Option Manifest}
    (hoffers : Offers version manifest) :
    (∃ checked, pollPass newer s midnight manifest nvsOk = ({ s with checkedThisMinute := checked }, [])) ∨
      0 < remaining version s.nvs ∧ pollPass newer s midnight manifest nvsOk =
        ({ s with up := false, checkedThisMinute := true }, [version]) := by
  unfold pollPass
  cases midnight with
  | false => exact Or.inl ⟨false, rfl⟩
  | true =>
      cases hchecked : s.checkedThisMinute with
      | true => exact Or.inl ⟨s.checkedThisMinute, rfl⟩
      | false =>
          rcases pollVersion_cases newer s.nvs hoffers with hnone | ⟨hsome, hleft⟩
          · rw [hnone]
            exact Or.inl ⟨true, rfl⟩
          · rw [hsome]
            exact Or.inr ⟨hleft, rfl⟩

/-- **One event.**  A restart is paid for by the booking that follows it. -/
theorem event_pays (hfits : version.size ≤ storedB) (hnewer : newer version = true) (s : NightState)
    (e : NightEvent) (hpaid : Paid s e) (hpublished : Published version e) :
    ((nights newer).out s e).length + restartsLeft version ((nights newer).step s e) ≤
      restartsLeft version s := by
  have hbudget : ∀ nvs, remaining version nvs ≤ maxOtaAttempts.toNat := fun nvs => Nat.sub_le _ _
  cases e with
  | poll midnight manifest io =>
      obtain rfl : io = nvsOk := hpaid
      show (if s.up then (pollPass newer s midnight manifest nvsOk).2 else []).length +
        restartsLeft version (if s.up then (pollPass newer s midnight manifest nvsOk).1 else s) ≤ _
      cases hup : s.up with
      | false => exact Nat.le_of_eq (Nat.zero_add _)
      | true =>
          rcases pollPass_cases newer s midnight hpublished with ⟨checked, heq⟩ | ⟨hleft, heq⟩
          · rw [heq]
            exact Nat.le_of_eq (Nat.zero_add _)
          · rw [heq]
            show 1 + (remaining version s.nvs - 1) ≤ restartsLeft version s
            rw [Nat.add_sub_cancel' hleft, restartsLeft, if_pos hup]
            split
            · exact hbudget _
            · exact Nat.le_refl _
  | boot io =>
      obtain ⟨hnvs, hbooks⟩ := hpaid
      obtain ⟨hkept, hspent⟩ := bootCheck_pays hfits hnewer s.nvs hpublished hnvs
      show 0 + remaining version (otaBootCheck newer s.nvs io).2 ≤ restartsLeft version s
      rw [Nat.zero_add, restartsLeft]
      cases hup : s.up with
      | true =>
          cases s.pendingVerify with
          | true => exact hbudget _
          | false => exact hkept
      | false => exact hspent (hbooks hup)
  | confirm =>
      show 0 + restartsLeft version (if s.up && s.pendingVerify then
        { s with nvs := ⟨none, none⟩, pendingVerify := false } else s) ≤ restartsLeft version s
      rw [Nat.zero_add]
      by_cases hconfirm : (s.up && s.pendingVerify) = true
      · rw [if_pos hconfirm]
        rw [Bool.and_eq_true] at hconfirm
        rw [restartsLeft, restartsLeft, if_pos hconfirm.1, if_pos hconfirm.1, if_pos hconfirm.2]
        exact hbudget _
      · rw [if_neg hconfirm]

/-! ### A boot check that always defers -/

/-- `1.1.6`. -/
def version116 : CStr := ⟨[0x31, 0x2e, 0x31, 0x2e, 0x36], by decide⟩

/-- The heap stays short of `MIN_OTA_HEAP`, and the check defers. -/
def deferredCheck : CheckIo := ⟨true, some ⟨some version116, true⟩, 109700, true, 109700, nvsOk⟩

/-- The poll finds the version at midnight, and the next boot check defers. -/
def deferredNight : List NightEvent :=
  [.poll true (some ⟨some version116, true⟩) nvsOk, .boot deferredCheck]

def freshNight : NightState := ⟨⟨none, none⟩, true, false, false⟩

theorem deferredNight_run (hnewer : newer version116 = true) :
    (nights newer).run freshNight deferredNight = freshNight ∧
      (nights newer).outputs freshNight deferredNight = [version116] := by
  have hleft : otaAttemptsExhausted ⟨none, none⟩ nvsOk version116 = false := by decide
  have hversion : pollVersion newer ⟨none, none⟩ (some ⟨some version116, true⟩) nvsOk = some version116 := by
    simp [pollVersion, hnewer, hleft]
  have hcheck : otaBootCheck newer ⟨none, none⟩ deferredCheck = (false, ⟨none, none⟩) := by
    simp [otaBootCheck, deferredCheck, hnewer, minOtaHeap]
  constructor
  · simp [deferredNight, nights, freshNight, pollPass, hversion, hcheck]
  · simp [deferredNight, nights, freshNight, pollPass, hversion]

/-- **One restart every night**, for as many nights as there are. -/
theorem deferred_nights (hnewer : newer version116 = true) (n : ℕ) :
    (nights newer).outputs freshNight (List.replicate n deferredNight).flatten =
      List.replicate n version116 := by
  obtain ⟨hrun, hout⟩ := deferredNight_run hnewer
  induction n with
  | zero => rfl
  | succ n ih =>
      rw [List.replicate_succ, List.flatten_cons, Machine.outputs_append, hrun, hout, ih, List.replicate_succ]
      rfl

end RtkdataFw.Update
