import RtkdataFw.Update.Attribution
import RtkdataFw.Update.GiveUp
import RtkdataFw.Update.MarkValid
import RtkdataFw.Update.NightlyPoll
import RtkdataFw.Update.VersionOrder

/-!
# The anti-brick mechanisms together

The download budget, the bootloader's rollback, the boot-loop guard and the health task are four programs that
meet only in flash: in the OTA selection and in the keys of the namespace `ota`.  Here they run as one machine,
with the power lost at any point of a boot check.

* `selections`, `updateFirmware_selects` — the slots that an update selects, whatever the partitions hold;
* `antiBrick` — the station: resets, boot checks, the daily poll, the checks of the health task;
* `check_nvs` — a boot check that is not cut short keeps the same record as the one of the nights;
* `boot_cases`, `select_spec` — what the bootloader and a selection leave of the OTA data;
* `antiBrick_effect` — what one event can do, while one release is offered;
* `anchored_step` — an image that has not proved itself is the one selected.
-/

namespace RtkdataFw.Update

open RtkdataFw.Lib

variable {L : Layout}

/-! ### What an update selects -/

/-- The slots that `esp_ota_set_boot_partition` is called for, in order. -/
def selections (d : Device L) : List ManifestItem → List AppSlot
  | [] => []
  | .other :: rest => selections d rest
  | .url url e :: rest =>
      let r := applyFile d url e
      if r.1 then (if isWWWBinFile url then [] else e.slot.toList) ++ selections r.2 rest else []

/-- The app images of a manifest. -/
def appImages : List ManifestItem → ℕ
  | [] => 0
  | .other :: rest => appImages rest
  | .url url _ :: rest => (if isWWWBinFile url then 0 else 1) + appImages rest

/-- The last selection is what the next boot starts. -/
theorem selections_boot (d : Device L) (items : List ManifestItem) :
    (applyFiles d items).2.boot = (selections d items).getLastD d.boot := by
  induction items generalizing d with
  | nil => rfl
  | cons item rest ih =>
      cases item with
      | other => exact ih d
      | url url e =>
          rw [applyFiles, selections]
          rcases applyFile_cases d url e with
            ⟨hwww, -, heq⟩ | ⟨hwww, -, slot, hslot, heq⟩ | ⟨-, -, spiffs, total, heq⟩
          · rw [heq]
            by_cases hcopied : (copyFileToWwwPartition (staged L e) d.www e).1 = true
            · rw [if_pos hcopied, if_pos hcopied, if_pos hwww, ih]
              rfl
            · rw [if_neg hcopied, if_neg hcopied]
              rfl
          · rw [heq, if_pos rfl, if_pos rfl, if_neg hwww, hslot, ih, Option.toList_some,
              List.singleton_append, List.getLastD_cons]
          · rw [heq]
            rfl

/-- The partitions do not decide it, only the bytes counted before. -/
theorem selections_congr {d₁ d₂ : Device L} (htotal : d₁.totalFileWrite = d₂.totalFileWrite)
    (items : List ManifestItem) : selections d₁ items = selections d₂ items := by
  induction items generalizing d₁ d₂ with
  | nil => rfl
  | cons item rest ih =>
      cases item with
      | other => exact ih htotal
      | url url e =>
          have hflag : (applyFile d₁ url e).1 = true ↔ (applyFile d₂ url e).1 = true := by
            rw [applyFile_fst, applyFile_fst, htotal]
          rw [selections, selections]
          by_cases hok : (applyFile d₁ url e).1 = true
          · have hok₂ := hflag.mp hok
            rw [if_pos hok, if_pos hok₂, ih]
            rw [applyFile_total hok, applyFile_total hok₂, htotal]
          · rw [if_neg hok, if_neg fun h₂ => hok (hflag.mpr h₂)]

theorem length_selections_le (d : Device L) (items : List ManifestItem) :
    (selections d items).length ≤ appImages items := by
  induction items generalizing d with
  | nil => exact Nat.le_refl _
  | cons item rest ih =>
      cases item with
      | other => exact ih d
      | url url e =>
          have hown : (if isWWWBinFile url then [] else e.slot.toList).length ≤
              if isWWWBinFile url then 0 else 1 := by
            split
            · exact Nat.le_refl _
            · cases e.slot <;> simp
          rw [selections, appImages]
          split
          · rw [List.length_append]
            exact Nat.add_le_add hown (ih _)
          · exact Nat.zero_le _

/-- What is selected is a slot that `esp_ota_begin` was called for with success. -/
theorem mem_selections {d : Device L} {items : List ManifestItem} {slot : AppSlot}
    (h : slot ∈ selections d items) :
    ∃ url e, .url url e ∈ items ∧ e.slot = some slot ∧ e.beginOk = true := by
  induction items generalizing d with
  | nil => exact absurd h List.not_mem_nil
  | cons item rest ih =>
      cases item with
      | other =>
          obtain ⟨url, e, hmem, hslot⟩ := ih h
          exact ⟨url, e, List.mem_cons_of_mem _ hmem, hslot⟩
      | url url e =>
          rw [selections] at h
          split at h
          · rename_i hok
            rcases List.mem_append.mp h with hown | hrest
            · by_cases hwww : isWWWBinFile url
              · rw [if_pos hwww] at hown
                exact absurd hown List.not_mem_nil
              · rw [if_neg hwww] at hown
                rw [applyFile_fst, FileOk, if_neg hwww] at hok
                exact ⟨url, e, List.mem_cons_self, Option.mem_toList.mp hown, hok.begins⟩
            · obtain ⟨url', e', hmem, hslot⟩ := ih hrest
              exact ⟨url', e', List.mem_cons_of_mem _ hmem, hslot⟩
          · exact absurd h List.not_mem_nil

/-- Blank partitions, which stand for any. -/
def blankDevice (L : Layout) : Device L := ⟨.factory, Partition.blank, Partition.blank, 0⟩

def updateSelections (L : Layout) (items : List ManifestItem) : List AppSlot :=
  selections (blankDevice L) items

def updateRestarts (L : Layout) (items : List ManifestItem) : Bool :=
  decide ((updateFirmware (blankDevice L) items).1 = .restart)

/-- **An update of any station** selects these slots, and restarts in the same cases. -/
theorem updateFirmware_selects (d : Device L) (items : List ManifestItem) :
    (updateFirmware d items).2.boot = (updateSelections L items).getLastD d.boot ∧
      ((updateFirmware d items).1 = .restart ↔ updateRestarts L items = true) := by
  constructor
  · have htotal : ({ d with totalFileWrite := 0 } : Device L).totalFileWrite =
        (blankDevice L).totalFileWrite := rfl
    show (applyFiles { d with totalFileWrite := 0 } items).2.boot = _
    rw [selections_boot, selections_congr htotal]
    rfl
  · have hfail : (updateFirmware d items).1 = .fail ↔ (updateFirmware (blankDevice L) items).1 = .fail :=
      (updateFirmware_fail d items).trans (updateFirmware_fail _ items).symm
    rw [updateRestarts, decide_eq_true_eq]
    cases hd : (updateFirmware d items).1 <;> cases hb : (updateFirmware (blankDevice L) items).1 <;>
      simp [hd, hb] at hfail ⊢

/-! ### The station -/

inductive Phase where
  /-- Past the guard, before the boot check. -/
  | booting
  /-- The tasks run. -/
  | up (checkedThisMinute : Bool) (task : ConfirmTask)
  /-- Restarting, or without power. -/
  | down
  deriving DecidableEq, Repr

structure AntiBrick where
  nvs : OtaNvs
  device : Station CStr
  phase : Phase
  deriving DecidableEq, Repr

/-- What the acts of a health check meet. -/
structure ActIo where
  clear : ClearIo
  clearCut : Cut
  /-- `esp_ota_mark_app_invalid_rollback_and_reboot` finds another image. -/
  reboots : Bool
  deriving DecidableEq, Repr

inductive AntiBrickEvent where
  /-- A reset of any kind, the bootloader and the guard. -/
  | reset (reason : ResetReason) (io : FallbackIo)
  /-- The boot check, with the files of `update_files_urls`.  The power may be lost between two writes of the
  booking, or between two selections of the update. -/
  | check (io : CheckIo) (items : List ManifestItem) (booking update : Cut)
  | poll (midnight : Bool) (manifest : Option Manifest) (io : NvsIo)
  | sample (x : HealthSample) (io : ActIo)
  /-- The device has survived `OTA_BOOTLOOP_CLEAR_MS`. -/
  | survived
  /-- `ota_note_planned_reboot` of another module. -/
  | note

inductive AntiBrickObs where
  /-- The bootloader has started an image, `none` for the factory image; the guard may fall back at once. -/
  | started (image : Option CStr) (unproved fellBack : Bool)
  | granted (version : CStr)
  | confirmed (image : Option CStr)
  deriving DecidableEq, Repr

/-- The version for which a boot check comes to ask the gate. -/
def checkVersion (newer : CStr → Bool) (io : CheckIo) : Option CStr :=
  if !io.spawned then none
  else match io.manifest with
  | none => none
  | some m =>
      match m.version with
      | none => none
      | some version =>
          if !m.urlsArray then none
          else if !newer version then none
          else if io.heap < minOtaHeap ∧ io.ip = false then none
          else if io.heapNow < minOtaHeap then none
          else some version

theorem otaBootCheck_eq (newer : CStr → Bool) (nvs : OtaNvs) (io : CheckIo) :
    otaBootCheck newer nvs io =
      match checkVersion newer io with
      | none => (false, nvs)
      | some version => otaAttemptAllowed nvs io.nvs version := by
  unfold otaBootCheck checkVersion
  cases io.spawned with
  | false => rfl
  | true =>
      cases io.manifest with
      | none => rfl
      | some m =>
          cases hversion : m.version with
          | none => simp only [hversion, Bool.not_true, Bool.false_eq_true, if_false]
          | some version =>
              simp only [hversion, Bool.not_true, Bool.false_eq_true, if_false]
              split_ifs <;> rfl

section

variable (lib : EspOta CStr) (fwVersion : Option CStr → CStr) (L : Layout)

/-- The guard erases the OTA selection and restarts. -/
def Station.fallsBack (s : Station CStr) (reason : ResetReason) (io : FallbackIo) : Bool :=
  let s := s.load lib
  decide (.erase true ∈ (otaBootLoopGuard s.guardDevice (bootIo s.running reason io) guardNvsOk).2)

def startedObs (s : Station CStr) (reason : ResetReason) (io : FallbackIo) : AntiBrickObs :=
  .started (s.load lib).running.image (s.load lib).running.pendingVerify (s.fallsBack lib reason io)

/-- Images of `version` are selected, one after the other. -/
def Station.select (s : Station CStr) (version : CStr) (slots : List AppSlot) : Station CStr :=
  slots.foldl (fun s slot => (station lib).step s (.install slot version)) s

/-- The rest of `app_main`. -/
def AntiBrick.tasksStart (s : AntiBrick) : AntiBrick := { s with phase := .up false (.looping confirmInit) }

/-- `ota_note_planned_reboot` and `esp_restart`. -/
def AntiBrick.plannedRestart (s : AntiBrick) : AntiBrick :=
  { s with device := (station lib).step s.device .note, phase := .down }

/-- `updateFirmware` on the files of `version`. -/
def AntiBrick.update (s : AntiBrick) (version : CStr) (items : List ManifestItem) (cut : Cut) : AntiBrick :=
  let s := { s with device := s.device.select lib version (cut.made (updateSelections L items)) }
  match cut with
  | .powerLoss _ => { s with phase := .down }
  | .returns => if updateRestarts L items then s.plannedRestart lib else s.tasksStart

/-- Whether the release on offer is newer than the running image. -/
def AntiBrick.newer (s : AntiBrick) (version : CStr) : Bool :=
  otaVersionIsNewer version (fwVersion s.device.running.image)

def AntiBrick.check (s : AntiBrick) (io : CheckIo) (items : List ManifestItem) (booking update : Cut) :
    AntiBrick × List AntiBrickObs :=
  match s.phase with
  | .booting =>
      match checkVersion (s.newer fwVersion) io with
      | none => (s.tasksStart, [])
      | some version =>
          match booking with
          | .powerLoss _ =>
              ({ s with nvs := attemptCut s.nvs io.nvs version booking, phase := .down }, [])
          | .returns =>
              let r := otaAttemptAllowed s.nvs io.nvs version
              let s := { s with nvs := r.2 }
              if r.1 then (s.update lib L version items update, [.granted version]) else (s.tasksStart, [])
  | _ => (s, [])

def AntiBrick.poll (s : AntiBrick) (midnight : Bool) (manifest : Option Manifest) (io : NvsIo) : AntiBrick :=
  match s.phase with
  | .up checked task =>
      let night : NightState := ⟨s.nvs, true, checked, s.device.running.pendingVerify⟩
      let r := (pollPass (s.newer fwVersion) night midnight manifest io).1
      if r.up then { s with phase := .up r.checkedThisMinute task } else s.plannedRestart lib
  | _ => s

def AntiBrick.act (io : ActIo) (s : AntiBrick) : ConfirmAct → AntiBrick
  | .markValid ok => if ok then { s with device := (station lib).step s.device .confirm } else s
  | .eraseFailKeys =>
      { s with
        nvs := clearCut s.nvs io.clear io.clearCut
        phase := if io.clearCut = .returns then s.phase else .down }
  | .rollback => if io.reboots then { s with device := s.device.reject lib, phase := .down } else s

def confirmObs (image : Option CStr) : ConfirmAct → List AntiBrickObs
  | .markValid true => [.confirmed image]
  | _ => []

/-- A pass of `ota_mark_valid_task`. -/
def AntiBrick.sample (s : AntiBrick) (x : HealthSample) (io : ActIo) : AntiBrick × List AntiBrickObs :=
  match s.phase with
  | .up checked (.looping l) =>
      let r := confirmCheck l x
      (r.2.foldl (AntiBrick.act lib io) { s with phase := .up checked r.1 },
        r.2.flatMap (confirmObs s.device.running.image))
  | _ => (s, [])

/-- The station, where `fwVersion` is the version that an image reports as its own. -/
def antiBrick : Machine AntiBrick AntiBrickEvent AntiBrickObs where
  step s
    | .reset reason io =>
        { s with
          device := (station lib).step s.device (.reset reason io)
          phase := if s.device.fallsBack lib reason io then .down else .booting }
    | .check io items booking update => (s.check lib fwVersion L io items booking update).1
    | .poll midnight manifest io => s.poll lib fwVersion midnight manifest io
    | .sample x io => (s.sample lib x io).1
    | .survived =>
        match s.phase with
        | .up _ _ => { s with device := (station lib).step s.device .survived }
        | _ => s
    | .note => { s with device := (station lib).step s.device .note }
  out s
    | .reset reason io => [startedObs lib s.device reason io]
    | .check io items booking update => (s.check lib fwVersion L io items booking update).2
    | .sample x io => (s.sample lib x io).2
    | _ => []

end

/-! ### What the bootloader and a selection leave -/

/-- The new entry stands before entries that were there. -/
def KeepsEntries (lib : EspOta CStr) : Prop := ∀ slot image es, ∃ es',
  es'.Sublist es ∧ lib.setBootPartition slot image es = ⟨slot, image, .new⟩ :: es'

/-- The entries of some images that wait for their first boot. -/
def waiting (p : CStr → Bool) (es : List (OtaEntry CStr)) : ℕ :=
  es.countP fun e => decide (e.state = .new) && p e.image

theorem waiting_le {p : CStr → Bool} {es es' : List (OtaEntry CStr)} (h : es'.Sublist es) :
    waiting p es' ≤ waiting p es :=
  h.countP_le

theorem waiting_cons (p : CStr → Bool) (e : OtaEntry CStr) (es : List (OtaEntry CStr)) :
    waiting p (e :: es) = waiting p es + if e.state = .new ∧ p e.image = true then 1 else 0 := by
  rw [waiting, waiting, List.countP_cons]
  simp

section

variable {lib : EspOta CStr}

/-- **A boot** finds nothing to start, starts a new image to prove itself, or one that has. -/
theorem boot_cases (lib : EspOta CStr) (es : List (OtaEntry CStr)) :
    lib.boot es = [] ∨
      (∃ e rest, (e :: rest).Sublist es ∧ e.state = .new ∧
        lib.boot es = { e with state := .pendingVerify } :: rest) ∨
      ∃ e rest, (e :: rest).Sublist es ∧ e.state = .valid ∧ lib.boot es = e :: rest := by
  induction es with
  | nil => exact Or.inl lib.boot_nil
  | cons e es ih =>
      have hskip (hrejected : e.state = .pendingVerify ∨ e.state = .invalid) :
          lib.boot (e :: es) = [] ∨
            (∃ e' rest, (e' :: rest).Sublist (e :: es) ∧ e'.state = .new ∧
              lib.boot (e :: es) = { e' with state := .pendingVerify } :: rest) ∨
            ∃ e' rest, (e' :: rest).Sublist (e :: es) ∧ e'.state = .valid ∧
              lib.boot (e :: es) = e' :: rest := by
        rw [lib.boot_rejected e es hrejected]
        rcases ih with hnone | ⟨e', rest, hsub, hnew, heq⟩ | ⟨e', rest, hsub, hvalid, heq⟩
        · exact Or.inl hnone
        · exact Or.inr (Or.inl ⟨e', rest, hsub.cons e, hnew, heq⟩)
        · exact Or.inr (Or.inr ⟨e', rest, hsub.cons e, hvalid, heq⟩)
      cases hstate : e.state with
      | new => exact Or.inr (Or.inl ⟨e, es, List.Sublist.refl _, hstate, lib.boot_new e es hstate⟩)
      | valid => exact Or.inr (Or.inr ⟨e, es, List.Sublist.refl _, hstate, lib.boot_valid e es hstate⟩)
      | pendingVerify => exact hskip (Or.inl hstate)
      | invalid => exact hskip (Or.inr hstate)

theorem reboot_otadata (lib : EspOta CStr) (s : Station CStr) (reason : ResetReason) (io : FallbackIo) :
    (s.reboot lib reason io).otadata =
      if s.fallsBack lib reason io = true then [] else lib.boot s.otadata := by
  simp only [Station.fallsBack, decide_eq_true_eq]
  rfl

theorem mem_reboot {s : Station CStr} {reason : ResetReason} {io : FallbackIo} {a : OtaEntry CStr}
    (h : a ∈ (s.reboot lib reason io).otadata) : a ∈ lib.boot s.otadata := by
  rw [reboot_otadata] at h
  split at h
  · exact absurd h List.not_mem_nil
  · exact h

/-- An entry that a boot leaves was there, or is the new one that was started. -/
theorem mem_boot {es : List (OtaEntry CStr)} {a : OtaEntry CStr} (h : a ∈ lib.boot es) :
    a ∈ es ∨ a.state = .pendingVerify ∧ ∃ b ∈ es, b.slot = a.slot := by
  rcases boot_cases lib es with hnone | ⟨e, rest, hsub, -, heq⟩ | ⟨e, rest, hsub, -, heq⟩
  · rw [hnone] at h
    exact absurd h List.not_mem_nil
  · rw [heq] at h
    rcases List.mem_cons.mp h with rfl | hrest
    · exact Or.inr ⟨rfl, e, hsub.subset List.mem_cons_self, rfl⟩
    · exact Or.inl (hsub.subset (List.mem_cons_of_mem _ hrest))
  · rw [heq] at h
    exact Or.inl (hsub.subset h)

theorem install_cases (hkeeps : KeepsEntries lib) (s : Station CStr) (slot : AppSlot) (version : CStr) :
    ∃ es', (station lib).step s (.install slot version) = { s with otadata := es' } ∧
      (∀ e ∈ es', e ∈ s.otadata ∨ e = ⟨slot, version, .new⟩) ∧
      ∀ p, waiting p es' ≤ waiting p s.otadata + 1 := by
  by_cases hpending : s.running.pendingVerify = true
  · exact ⟨s.otadata, if_pos hpending, fun e he => Or.inl he, fun p => Nat.le_succ _⟩
  · obtain ⟨es', hsub, heq⟩ := hkeeps slot version s.otadata
    refine ⟨⟨slot, version, .new⟩ :: es', ?_, ?_, ?_⟩
    · rw [← heq]
      exact if_neg hpending
    · intro e he
      exact (List.mem_cons.mp he).symm.imp_left fun hold => hsub.subset hold
    · intro p
      rw [waiting_cons]
      have hold := waiting_le (p := p) hsub
      split
      · exact Nat.succ_le_succ hold
      · exact hold.trans (Nat.le_succ _)

/-- **A selection** adds at most one entry for each slot. -/
theorem select_spec (hkeeps : KeepsEntries lib) (s : Station CStr) (version : CStr) (slots : List AppSlot) :
    ∃ es', s.select lib version slots = { s with otadata := es' } ∧
      (∀ e ∈ es', e ∈ s.otadata ∨ e.slot ∈ slots ∧ e.image = version ∧ e.state = .new) ∧
      ∀ p, waiting p es' ≤ waiting p s.otadata + slots.length := by
  induction slots generalizing s with
  | nil => exact ⟨s.otadata, rfl, fun e he => Or.inl he, fun p => Nat.le_refl _⟩
  | cons slot slots ih =>
      obtain ⟨es₁, hstep, hmem₁, hcount₁⟩ := install_cases hkeeps s slot version
      obtain ⟨es₂, hrest, hmem₂, hcount₂⟩ := ih { s with otadata := es₁ }
      refine ⟨es₂, ?_, ?_, ?_⟩
      · show Station.select lib ((station lib).step s (.install slot version)) version slots = _
        rw [hstep, hrest]
      · intro e he
        rcases hmem₂ e he with hold | ⟨hslot, himage, hnew⟩
        · rcases hmem₁ e hold with hold | rfl
          · exact Or.inl hold
          · exact Or.inr ⟨List.mem_cons_self, rfl, rfl⟩
        · exact Or.inr ⟨List.mem_cons_of_mem _ hslot, himage, hnew⟩
      · intro p
        have hfirst := hcount₁ p
        have hall : waiting p es₂ ≤ waiting p es₁ + slots.length := hcount₂ p
        rw [List.length_cons]
        omega

end

/-! ### What one event can do -/

/-- NVS answers, and whenever the manifest is reached it offers `version` with at most `k` app images.
`esp_ota_begin` refuses while the running image has not proved itself, and its state is read right. -/
def SingleRelease (version : CStr) (k : ℕ) (s : AntiBrick) : AntiBrickEvent → Prop
  | .check io items _ _ => io.nvs = nvsOk ∧ Offers version io.manifest ∧ appImages items ≤ k ∧
      (s.device.running.pendingVerify = true → ∀ url e, .url url e ∈ items → e.beginOk = false)
  | .sample x _ => x.pendingVerify = true → s.device.running.pendingVerify = true
  | _ => True

/-- The check `x` of the health task comes to a decision. -/
def Decides (s : AntiBrick) (x : HealthSample) : Prop :=
  ∃ checked l, s.phase = .up checked (.looping l) ∧ (confirmCheck l x).2 ≠ []

section

variable (lib : EspOta CStr) (version : CStr) (k : ℕ) (s : AntiBrick)

/-- What an event leaves and puts out, while only `version` is offered. -/
inductive Effect : AntiBrickEvent → AntiBrick → List AntiBrickObs → Prop
  /-- Only the phase and the marker move. -/
  | quiet {e : AntiBrickEvent} {s' : AntiBrick} :
      s'.nvs = s.nvs → s'.device.otadata = s.device.otadata → s'.device.running = s.device.running →
      s'.device.bootloop = s.device.bootloop → (s.phase = .down → s'.phase = .down) → Effect e s' []
  | reset (reason : ResetReason) (io : FallbackIo) :
      Effect (.reset reason io)
        ⟨s.nvs, s.device.reboot lib reason io,
          if s.device.fallsBack lib reason io then .down else .booting⟩
        [startedObs lib s.device reason io]
  | survived : Effect .survived { s with device := { s.device with bootloop := 0 } } []
  /-- The power is lost in the booking. -/
  | torn {e : AntiBrickEvent} (writes : ℕ) :
      Effect e ⟨attemptCut s.nvs nvsOk version (.powerLoss writes), s.device, .down⟩ []
  /-- An attempt, and the selections of its update. -/
  | granted {io : CheckIo} {items : List ManifestItem} {booking update : Cut} {s' : AntiBrick}
      {slots : List AppSlot} :
      s.phase ≠ .down → (otaAttemptAllowed s.nvs nvsOk version).1 = true →
      s'.nvs = (otaAttemptAllowed s.nvs nvsOk version).2 →
      s'.device.otadata = (s.device.select lib version slots).otadata →
      s'.device.running = s.device.running → s'.device.bootloop = s.device.bootloop →
      slots.length ≤ k →
      (∀ slot ∈ slots, ∃ url e, .url url e ∈ items ∧ e.slot = some slot ∧ e.beginOk = true) →
      Effect (.check io items booking update) s' [.granted version]
  /-- The health task confirms the running image, and clears what is on record. -/
  | proved {x : HealthSample} {io : ActIo} {s' : AntiBrick} :
      s.device.running.pendingVerify = true → s'.device.otadata = lib.markAppValid s.device.otadata →
      s'.device.running = { s.device.running with pendingVerify := false } →
      s'.device.bootloop = s.device.bootloop → Decides s x →
      Effect (.sample x io) s' [.confirmed s.device.running.image]
  /-- The health task rolls the running image back. -/
  | rejected {x : HealthSample} {io : ActIo} {s' : AntiBrick} :
      s.device.running.pendingVerify = true → s'.nvs = s.nvs →
      s'.device.otadata = lib.markAppInvalid s.device.otadata →
      s'.device.running = s.device.running → s'.device.bootloop = s.device.bootloop →
      Decides s x → s'.phase = .down → Effect (.sample x io) s' []

end

section

variable {lib : EspOta CStr} {fwVersion : Option CStr → CStr} {version : CStr} {k : ℕ}

/-- An update selects slots that `esp_ota_begin` was called for, and nothing else of the OTA data moves. -/
theorem update_spec (hkeeps : KeepsEntries lib) (L : Layout) (s : AntiBrick) {items : List ManifestItem}
    (hfew : appImages items ≤ k) (cut : Cut) :
    ∃ slots : List AppSlot, slots.length ≤ k ∧
      (∀ slot ∈ slots, ∃ url e, .url url e ∈ items ∧ e.slot = some slot ∧ e.beginOk = true) ∧
      (s.update lib L version items cut).nvs = s.nvs ∧
      (s.update lib L version items cut).device.otadata = (s.device.select lib version slots).otadata ∧
      (s.update lib L version items cut).device.running = s.device.running ∧
      (s.update lib L version items cut).device.bootloop = s.device.bootloop := by
  have hsub : (cut.made (updateSelections L items)).Sublist (updateSelections L items) := by
    cases cut with
    | returns => exact List.Sublist.refl _
    | powerLoss writes => exact List.take_sublist _ _
  refine ⟨cut.made (updateSelections L items), ?_, ?_, ?_⟩
  · exact hsub.length_le.trans ((length_selections_le _ items).trans hfew)
  · exact fun slot hslot => mem_selections (hsub.subset hslot)
  · obtain ⟨es', hselect, -⟩ := select_spec hkeeps s.device version (cut.made (updateSelections L items))
    have hrunning := congrArg Station.running hselect
    have hbootloop := congrArg Station.bootloop hselect
    cases cut with
    | powerLoss writes => exact ⟨rfl, rfl, hrunning, hbootloop⟩
    | returns =>
        unfold AntiBrick.update
        dsimp only
        split
        · exact ⟨rfl, rfl, hrunning, hbootloop⟩
        · exact ⟨rfl, rfl, hrunning, hbootloop⟩

/-- What the boot check asks the gate for is the release on offer. -/
theorem eq_of_checkVersion {newer : CStr → Bool} {io : CheckIo} (hoffers : Offers version io.manifest)
    {version' : CStr} (h : checkVersion newer io = some version') : version' = version := by
  unfold checkVersion at h
  cases hmanifest : io.manifest with
  | none => simp [hmanifest] at h
  | some m =>
      obtain rfl := hoffers m hmanifest
      simp only [hmanifest] at h
      split_ifs at h
      exact (Option.some.inj h).symm

theorem check_effect (hkeeps : KeepsEntries lib) (L : Layout) (s : AntiBrick) {io : CheckIo}
    {items : List ManifestItem} (booking update : Cut)
    (hok : SingleRelease version k s (.check io items booking update)) :
    Effect lib version k s (.check io items booking update)
      (s.check lib fwVersion L io items booking update).1
      (s.check lib fwVersion L io items booking update).2 := by
  obtain ⟨hnvs, hoffers, hfew, -⟩ := hok
  unfold AntiBrick.check
  cases hphase : s.phase with
  | up checked task => exact .quiet rfl rfl rfl rfl id
  | down => exact .quiet rfl rfl rfl rfl id
  | booting =>
      have hnot (s' : AntiBrick) : s.phase = .down → s'.phase = .down := by simp [hphase]
      dsimp only
      cases hversion : checkVersion (s.newer fwVersion) io with
      | none => exact .quiet rfl rfl rfl rfl (hnot _)
      | some version' =>
          obtain rfl := eq_of_checkVersion hoffers hversion
          dsimp only
          rw [hnvs]
          cases booking with
          | powerLoss writes => exact .torn writes
          | returns =>
              dsimp only
              by_cases hfull : recordedCount s.nvs nvsOk version' ≥ maxOtaAttempts
              · rw [attempt_of_exhausted hfull, if_neg Bool.false_ne_true]
                exact .quiet rfl rfl rfl rfl (hnot _)
              · have hgranted : (otaAttemptAllowed s.nvs nvsOk version').1 = true := by
                  rw [attempt_of_left hfull]
                obtain ⟨slots, hlen, hbegun, hkept, hota, hrunning, hbootloop⟩ :=
                  update_spec hkeeps L { s with nvs := (otaAttemptAllowed s.nvs nvsOk version').2 } hfew update
                rw [if_pos hgranted]
                exact .granted (by simp [hphase]) hgranted hkept hota hrunning hbootloop hlen hbegun

/-- **A boot check that is not cut short** leaves on record what `otaBootCheck` does. -/
theorem check_nvs (lib : EspOta CStr) (L : Layout) {s : AntiBrick} (hbooting : s.phase = .booting) (io : CheckIo)
    (items : List ManifestItem) (update : Cut) :
    (s.check lib fwVersion L io items .returns update).1.nvs =
      (otaBootCheck (s.newer fwVersion) s.nvs io).2 := by
  have hupdate (s : AntiBrick) (version : CStr) : (s.update lib L version items update).nvs = s.nvs := by
    unfold AntiBrick.update
    cases update with
    | powerLoss writes => rfl
    | returns => dsimp only; split <;> rfl
  unfold AntiBrick.check
  rw [hbooting, otaBootCheck_eq]
  cases checkVersion (s.newer fwVersion) io with
  | none => rfl
  | some version =>
      dsimp only
      split
      · exact hupdate _ version
      · rfl

theorem poll_effect (s : AntiBrick) (midnight : Bool) (manifest : Option Manifest) (io : NvsIo) :
    Effect lib version k s (.poll midnight manifest io) (s.poll lib fwVersion midnight manifest io) [] := by
  unfold AntiBrick.poll
  cases hphase : s.phase with
  | booting => exact .quiet rfl rfl rfl rfl id
  | down => exact .quiet rfl rfl rfl rfl id
  | up checked task =>
      dsimp only
      split
      · exact .quiet rfl rfl rfl rfl (by simp [hphase])
      · exact .quiet rfl rfl rfl rfl (by simp [hphase])

/-- The acts of a check: none that counts, a confirmation, or a rollback. -/
theorem acts_cases (l : ConfirmLocals) (x : HealthSample) :
    (confirmCheck l x).2 = [] ∨ (confirmCheck l x).2 = [.markValid false] ∨
      x.pendingVerify = true ∧ ((confirmCheck l x).2 = [.markValid true] ∨
        (confirmCheck l x).2 = [.markValid true, .eraseFailKeys] ∨ (confirmCheck l x).2 = [.rollback]) := by
  rcases confirmCheck_cases l x with ⟨-, heq⟩ | ⟨-, heq⟩ | ⟨-, -, heq⟩
  · rw [heq]
    rcases confirmImage_cases x with hnone | ⟨hpending, ok, hmark | ⟨rfl, hboth⟩⟩
    · exact Or.inl hnone
    · cases ok with
      | false => exact Or.inr (Or.inl hmark)
      | true => exact Or.inr (Or.inr ⟨hpending, Or.inl hmark⟩)
    · exact Or.inr (Or.inr ⟨hpending, Or.inr (Or.inl hboth)⟩)
  · rw [heq]
    exact Or.inl rfl
  · rw [heq]
    cases hpending : x.pendingVerify with
    | false => exact Or.inl rfl
    | true => exact Or.inr (Or.inr ⟨rfl, Or.inr (Or.inr rfl)⟩)

theorem confirm_step (lib : EspOta CStr) {s : Station CStr} (hpending : s.running.pendingVerify = true) :
    (station lib).step s .confirm =
      { s with
        otadata := lib.markAppValid s.otadata
        running := { s.running with pendingVerify := false } } :=
  if_pos hpending

theorem sample_effect (s : AntiBrick) {x : HealthSample} (io : ActIo)
    (hread : x.pendingVerify = true → s.device.running.pendingVerify = true) :
    Effect lib version k s (.sample x io) (s.sample lib x io).1 (s.sample lib x io).2 := by
  unfold AntiBrick.sample
  cases hphase : s.phase with
  | booting => exact .quiet rfl rfl rfl rfl id
  | down => exact .quiet rfl rfl rfl rfl id
  | up checked task =>
      cases task with
      | ended => exact .quiet rfl rfl rfl rfl id
      | looping l =>
          dsimp only
          have hup (s' : AntiBrick) : s.phase = .down → s'.phase = .down := by simp [hphase]
          have hdecides (hacts : (confirmCheck l x).2 ≠ []) : Decides s x := ⟨checked, l, hphase, hacts⟩
          rcases acts_cases l x with hacts | hacts | ⟨hpending, hacts | hacts | hacts⟩
          · rw [hacts]
            exact .quiet rfl rfl rfl rfl (hup _)
          · rw [hacts]
            exact .quiet rfl rfl rfl rfl (hup _)
          · have hdecided := hdecides (by rw [hacts]; exact List.cons_ne_nil _ _)
            have hconfirm := confirm_step lib (hread hpending)
            rw [hacts]
            exact .proved (hread hpending) (congrArg Station.otadata hconfirm)
              (congrArg Station.running hconfirm) (congrArg (fun t => t.bootloop) hconfirm) hdecided
          · have hdecided := hdecides (by rw [hacts]; exact List.cons_ne_nil _ _)
            have hconfirm := confirm_step lib (hread hpending)
            rw [hacts]
            exact .proved (hread hpending) (congrArg Station.otadata hconfirm)
              (congrArg Station.running hconfirm) (congrArg (fun t => t.bootloop) hconfirm) hdecided
          · have hdecided := hdecides (by rw [hacts]; exact List.cons_ne_nil _ _)
            rw [hacts]
            show Effect lib version k s (.sample x io)
              (if io.reboots then _ else { s with phase := .up checked (confirmCheck l x).1 }) []
            cases io.reboots with
            | false => exact .quiet rfl rfl rfl rfl (hup _)
            | true => exact .rejected (hread hpending) rfl rfl rfl rfl hdecided rfl

/-- **One event** of the station has one of these effects. -/
theorem antiBrick_effect (hkeeps : KeepsEntries lib) (L : Layout) (s : AntiBrick) (e : AntiBrickEvent)
    (hok : SingleRelease version k s e) :
    Effect lib version k s e ((antiBrick lib fwVersion L).step s e) ((antiBrick lib fwVersion L).out s e) := by
  cases e with
  | reset reason io => exact .reset reason io
  | check io items booking update => exact check_effect hkeeps L s booking update hok
  | poll midnight manifest io => exact poll_effect s midnight manifest io
  | sample x io => exact sample_effect s io hok
  | survived =>
      show Effect lib version k s .survived (match s.phase with | .up _ _ => _ | _ => s) []
      split
      · exact .survived
      · exact .quiet rfl rfl rfl rfl id
  | note => exact .quiet rfl rfl rfl rfl id

/-! ### An image on probation -/

/-- An image that has not proved itself is the one selected, unless the station is going down. -/
def Anchored (s : AntiBrick) : Prop :=
  s.phase ≠ .down → s.device.running.pendingVerify = true →
    ∃ e es, s.device.otadata = e :: es ∧ e.state = .pendingVerify ∧ s.device.running.image = some e.image

/-- While the running image has not proved itself nothing is selected. -/
theorem select_of_pending {s : AntiBrick} {io : CheckIo} {items : List ManifestItem} {booking update : Cut}
    (hok : SingleRelease version k s (.check io items booking update))
    (hpending : s.device.running.pendingVerify = true) {slots : List AppSlot}
    (hbegun : ∀ slot ∈ slots, ∃ url e, .url url e ∈ items ∧ e.slot = some slot ∧ e.beginOk = true) :
    slots = [] := by
  obtain ⟨-, -, -, hrefuses⟩ := hok
  cases slots with
  | nil => rfl
  | cons slot slots =>
      obtain ⟨url, e, hmem, -, hbegin⟩ := hbegun slot List.mem_cons_self
      exact absurd ((hrefuses hpending url e hmem).symm.trans hbegin) (by decide)

/-- **One event** keeps an image on probation at the head of the selection. -/
theorem anchored_step {s s' : AntiBrick} {e : AntiBrickEvent} {os : List AntiBrickObs}
    (hok : SingleRelease version k s e) (heffect : Effect lib version k s e s' os) (hs : Anchored s) :
    Anchored s' := by
  cases heffect with
  | quiet _ hota hrunning _ hphase =>
      intro hup hpending
      rw [hrunning] at hpending ⊢
      rw [hota]
      exact hs (mt hphase hup) hpending
  | reset reason io =>
      intro hup hpending
      have hstays : s.device.fallsBack lib reason io = false := by
        by_contra hfalls
        exact hup (if_pos (by simpa using hfalls))
      have hota : (s.device.reboot lib reason io).otadata = lib.boot s.device.otadata := by
        rw [reboot_otadata, hstays, if_neg Bool.false_ne_true]
      change (runningOf (lib.boot s.device.otadata)).pendingVerify = true at hpending
      show ∃ e es, (s.device.reboot lib reason io).otadata = e :: es ∧ e.state = .pendingVerify ∧
        (runningOf (lib.boot s.device.otadata)).image = some e.image
      rw [hota]
      cases hboot : lib.boot s.device.otadata with
      | nil =>
          rw [hboot] at hpending
          exact absurd hpending Bool.false_ne_true
      | cons e es =>
          rw [hboot] at hpending
          exact ⟨e, es, rfl, of_decide_eq_true hpending, rfl⟩
  | survived => exact hs
  | torn writes => exact fun hup => absurd rfl hup
  | granted hphase _ _ hota hrunning _ _ hbegun =>
      intro _ hpending
      rw [hrunning] at hpending ⊢
      rw [hota, select_of_pending hok hpending hbegun]
      exact hs hphase hpending
  | proved _ _ hrunning =>
      intro _ hpending
      rw [hrunning] at hpending
      exact absurd hpending Bool.false_ne_true
  | rejected _ _ _ _ _ _ hdown => exact fun hup => absurd hdown hup

/-- **A proved image** that is selected after an event was so before, or has just been confirmed. -/
theorem valid_step (hkeeps : KeepsEntries lib) {s s' : AntiBrick} {e : AntiBrickEvent} {os : List AntiBrickObs}
    (heffect : Effect lib version k s e s' os) (hs : Anchored s) :
    ∀ a ∈ s'.device.otadata, a.state = .valid →
      a ∈ s.device.otadata ∨ .confirmed (some a.image) ∈ os := by
  intro a ha hvalid
  cases heffect with
  | quiet _ hota => exact Or.inl (hota ▸ ha)
  | reset reason io =>
      rcases mem_boot (mem_reboot ha) with hold | ⟨hpending, -⟩
      · exact Or.inl hold
      · exact absurd (hvalid.symm.trans hpending) (by decide)
  | survived => exact Or.inl ha
  | torn writes => exact Or.inl ha
  | @granted _ _ _ _ _ slots _ _ _ hota =>
      obtain ⟨es', hselect, hmem, -⟩ := select_spec hkeeps s.device version slots
      rw [hota, hselect] at ha
      rcases hmem a ha with hold | ⟨_, _, hnew⟩
      · exact Or.inl hold
      · exact absurd (hvalid.symm.trans hnew) (by decide)
  | proved hpending hota _ _ hdecides =>
      have hup : s.phase ≠ .down := by
        obtain ⟨checked, l, hphase, -⟩ := hdecides
        simp [hphase]
      obtain ⟨e, es, hsel, _, himage⟩ := hs hup hpending
      rw [hota, hsel, lib.markAppValid_cons] at ha
      rw [hsel]
      rcases List.mem_cons.mp ha with rfl | hrest
      · exact Or.inr (List.mem_singleton.mpr (congrArg AntiBrickObs.confirmed himage.symm))
      · exact Or.inl (List.mem_cons_of_mem _ hrest)
  | rejected hpending _ hota _ _ hdecides _ =>
      have hup : s.phase ≠ .down := by
        obtain ⟨checked, l, hphase, -⟩ := hdecides
        simp [hphase]
      obtain ⟨e, es, hsel, _, _⟩ := hs hup hpending
      rw [hota, hsel, lib.markAppInvalid_cons] at ha
      rw [hsel]
      rcases List.mem_cons.mp ha with rfl | hrest
      · exact absurd hvalid (by simp)
      · exact Or.inl (List.mem_cons_of_mem _ hrest)

end

end RtkdataFw.Update
