import RtkdataFw.Update.BootLoopGuard

/-!
# Which image a boot is charged to

The boot-loop guard sees a reset reason, a marker and the state of the image that runs now.  Which image ran
before is not among them, and the bootloader, an installation and `ota_mark_valid_task` all change it between
two boots.

* `EspOta` — the OTA library and the bootloader, as far as their documentation goes;
* `RightCharge` — a boot is charged only to the image that has just crashed or restarted unplanned;
* `Attributable` — the ends of a session after which the guard sees enough;
* `charges_are_right` — a run of such ends charges no image for another one;
* `crash_of_pending_charged`, `crash_after_install_charged`, `health_rollback_charged` — the other ends do.
-/

namespace RtkdataFw.Update

open RtkdataFw.Lib

/-- `esp_ota_img_states_t`. -/
inductive ImgState where
  | new
  | pendingVerify
  | valid
  | invalid
  deriving DecidableEq, Repr

structure OtaEntry (Image : Type*) where
  slot : AppSlot
  image : Image
  state : ImgState
  deriving DecidableEq, Repr

/-- What ESP-IDF does with the OTA selection, newest entry first, when rollback is enabled. -/
structure EspOta (Image : Type*) where
  /-- The bootloader: the first entry that is left is booted, the factory image when none is. -/
  boot : List (OtaEntry Image) → List (OtaEntry Image)
  setBootPartition : AppSlot → Image → List (OtaEntry Image) → List (OtaEntry Image)
  /-- `esp_ota_mark_app_valid_cancel_rollback`. -/
  markAppValid : List (OtaEntry Image) → List (OtaEntry Image)
  /-- `esp_ota_mark_app_invalid_rollback_and_reboot`, up to the restart. -/
  markAppInvalid : List (OtaEntry Image) → List (OtaEntry Image)
  boot_nil : boot [] = []
  boot_valid : ∀ e es, e.state = .valid → boot (e :: es) = e :: es
  /-- A new image gets one boot to prove itself. -/
  boot_new : ∀ e es, e.state = .new → boot (e :: es) = { e with state := .pendingVerify } :: es
  /-- An image that has not proved itself, or was marked invalid, is not booted again. -/
  boot_rejected : ∀ e es, e.state = .pendingVerify ∨ e.state = .invalid → boot (e :: es) = boot es
  setBootPartition_head : ∀ slot image es,
    ∃ es', setBootPartition slot image es = ⟨slot, image, .new⟩ :: es'
  markAppValid_cons : ∀ e es, markAppValid (e :: es) = { e with state := .valid } :: es
  markAppInvalid_cons : ∀ e es, markAppInvalid (e :: es) = { e with state := .invalid } :: es

/-- The image that runs, `none` for the factory image. -/
structure Running (Image : Type*) where
  slot : AppSlot
  image : Option Image
  pendingVerify : Bool
  deriving DecidableEq, Repr

structure Station (Image : Type*) where
  plannedRb : UInt8
  bootloop : UInt8
  otadata : List (OtaEntry Image)
  running : Running Image
  deriving DecidableEq, Repr

/-- What the guard meets when it has to fall back. -/
structure FallbackIo where
  otadataFound : Bool
  eraseOk : Bool
  deriving DecidableEq, Repr

inductive StationEvent (Image : Type*) where
  /-- An image is flashed and selected. -/
  | install (slot : AppSlot) (image : Image)
  /-- `ota_note_planned_reboot`. -/
  | note
  /-- `ota_mark_valid_task` confirms the running image. -/
  | confirm
  /-- The device has survived `OTA_BOOTLOOP_CLEAR_MS`. -/
  | survived
  | reset (reason : ResetReason) (io : FallbackIo)
  /-- `ota_mark_valid_task` asks for a rollback, which reboots when there is another image. -/
  | healthRollback (reboots : Bool) (io : FallbackIo)
  deriving DecidableEq, Repr

/-- How a session ended. -/
inductive SessionEnd where
  | crash
  | unplanned
  | planned
  | healthRollback
  | other
  deriving DecidableEq, Repr

/-- A boot: how the session before it ended, the images before and now, and whether the guard counted it. -/
structure BootRecord (Image : Type*) where
  ended : SessionEnd
  before : Option Image
  now : Option Image
  charged : Bool
  deriving DecidableEq, Repr

variable {Image : Type*}

/-! ### The boots -/

/-- The running image, given what the bootloader left selected. -/
def runningOf : List (OtaEntry Image) → Running Image
  | [] => ⟨.factory, none, false⟩
  | e :: _ => ⟨e.slot, some e.image, e.state = .pendingVerify⟩

/-- The image was flashed at the factory. -/
def factoryStation : Station Image := ⟨0, 0, [], runningOf []⟩

def bootIo (running : Running Image) (reason : ResetReason) (io : FallbackIo) : BootIo :=
  ⟨reason, running.pendingVerify, some running.slot, io.otadataFound, io.eraseOk⟩

def Station.guardDevice (s : Station Image) : GuardDevice :=
  ⟨s.plannedRb, s.bootloop, s.otadata.head?.map OtaEntry.slot⟩

/-- The bootloader has started an image. -/
def Station.load (lib : EspOta Image) (s : Station Image) : Station Image :=
  { s with otadata := lib.boot s.otadata, running := runningOf (lib.boot s.otadata) }

/-- The guard counts the boot. -/
def Station.charged (s : Station Image) (reason : ResetReason) (io : FallbackIo) : Bool :=
  crashLike reason (s.plannedRb != 0) (bootIo s.running reason io).justInstalled

/-- `ota_boot_loop_guard` on the image that was started. -/
def Station.guard (s : Station Image) (reason : ResetReason) (io : FallbackIo) : Station Image :=
  let r := otaBootLoopGuard s.guardDevice (bootIo s.running reason io) guardNvsOk
  { s with
    plannedRb := r.1.plannedRb
    bootloop := r.1.bootloop
    otadata := if .erase true ∈ r.2 then [] else s.otadata }

/-- A reset, up to the end of the guard. -/
def Station.reboot (lib : EspOta Image) (s : Station Image) (reason : ResetReason) (io : FallbackIo) :
    Station Image :=
  (s.load lib).guard reason io

/-- The resets that are a crash whatever the marker says. -/
def CrashReason (reason : ResetReason) : Prop :=
  reason ∈ [ResetReason.panic, .intWdt, .taskWdt, .wdt, .brownout, .unknown]

instance (reason : ResetReason) : Decidable (CrashReason reason) :=
  inferInstanceAs (Decidable (_ ∈ _))

def Station.endedBy (s : Station Image) (reason : ResetReason) : SessionEnd :=
  if CrashReason reason then .crash
  else if reason = .sw then (if s.plannedRb = 0 then .unplanned else .planned)
  else .other

/-- The rollback goes ahead. -/
def Station.RollsBack (s : Station Image) (reboots : Bool) : Prop :=
  s.running.pendingVerify = true ∧ reboots = true

instance (s : Station Image) (reboots : Bool) : Decidable (s.RollsBack reboots) :=
  inferInstanceAs (Decidable (_ ∧ _))

def Station.reject (lib : EspOta Image) (s : Station Image) : Station Image :=
  { s with otadata := lib.markAppInvalid s.otadata }

def Station.record (lib : EspOta Image) (s : Station Image) (ended : SessionEnd) (reason : ResetReason)
    (io : FallbackIo) : BootRecord Image :=
  ⟨ended, s.running.image, (s.load lib).running.image, (s.load lib).charged reason io⟩

def station (lib : EspOta Image) : Machine (Station Image) (StationEvent Image) (BootRecord Image) where
  step s
    | .install slot image =>
        if s.running.pendingVerify then s
        else { s with otadata := lib.setBootPartition slot image s.otadata }
    | .note => { s with plannedRb := (otaNotePlannedReboot s.guardDevice true true).plannedRb }
    | .confirm =>
        if s.running.pendingVerify then
          { s with
            otadata := lib.markAppValid s.otadata
            running := { s.running with pendingVerify := false } }
        else s
    | .survived => { s with bootloop := (otaBootloopClearTask s.guardDevice true).bootloop }
    | .reset reason io => s.reboot lib reason io
    | .healthRollback reboots io => if s.RollsBack reboots then (s.reject lib).reboot lib .sw io else s
  out s
    | .reset reason io => [s.record lib (s.endedBy reason) reason io]
    | .healthRollback reboots io =>
        if s.RollsBack reboots then [(s.reject lib).record lib .healthRollback .sw io] else []
    | _ => []

/-! ### Whom a boot may be charged to -/

/-- A boot that counts follows a crash or an unplanned restart of the image that runs now. -/
def RightCharge (o : BootRecord Image) : Prop :=
  o.charged = true → o.now = o.before ∧ (o.ended = .crash ∨ o.ended = .unplanned)

/-- The running image has proved itself, and is the one selected. -/
def Station.Settled (s : Station Image) : Prop :=
  match s.otadata with
  | [] => s.running.image = none
  | e :: _ => e.state = .valid ∧ s.running.image = some e.image

/-- A new image is selected, to be booted next. -/
def Station.Renewed (s : Station Image) : Prop := s.otadata.head?.map OtaEntry.state = some .new

/-- A crash ends a session of the selected image after its confirmation, so does an unmarked restart, unless
it starts a new image; and no rollback of `ota_mark_valid_task` goes unmarked. -/
def Attributable (s : Station Image) : StationEvent Image → Prop
  | .reset reason _ =>
      (CrashReason reason → s.Settled) ∧ (reason = .sw → s.plannedRb = 0 → s.Settled ∨ s.Renewed)
  | .healthRollback reboots _ => s.RollsBack reboots → s.plannedRb ≠ 0
  | _ => True

/-! ### What the guard makes of a boot -/

theorem crashLike_iff_reason (reason : ResetReason) (planned justInstalled : Bool) :
    crashLike reason planned justInstalled = true ↔
      CrashReason reason ∨ reason = .sw ∧ planned = false ∧ justInstalled = false := by
  cases reason <;> cases planned <;> cases justInstalled <;> decide

theorem charged_iff (s : Station Image) (reason : ResetReason) (io : FallbackIo) :
    s.charged reason io = true ↔
      CrashReason reason ∨ reason = .sw ∧ s.plannedRb = 0 ∧ s.running.pendingVerify = false := by
  have hplanned : (s.plannedRb != 0) = false ↔ s.plannedRb = 0 := by simp
  rw [Station.charged, crashLike_iff_reason, hplanned]
  rfl

/-- **The counter moves exactly at a charge**: up by one, unless the factory image is called for. -/
theorem guard_counts (s : Station Image) (reason : ResetReason) (io : FallbackIo) :
    (s.charged reason io = false → (s.guard reason io).bootloop = s.bootloop) ∧
      (s.charged reason io = true → (s.guard reason io).bootloop = s.bootloop + 1 ∨
        (s.guard reason io).bootloop = 0 ∧ (s.guard reason io).otadata = []) := by
  unfold Station.charged Station.guard
  rcases guard_cases s.guardDevice (bootIo s.running reason io) with
    ⟨hcrash, hres⟩ | ⟨hcrash, ⟨_, hres⟩ | ⟨_, _, hres⟩ | ⟨_, _, hres⟩⟩
  · rw [hres]
    exact ⟨fun _ => rfl, fun h => absurd (h.symm.trans hcrash) (by decide)⟩
  · rw [hres]
    exact ⟨fun h => absurd (h.symm.trans hcrash) (by decide), fun _ => Or.inl rfl⟩
  · rw [hres]
    exact ⟨fun h => absurd (h.symm.trans hcrash) (by decide), fun _ => Or.inl rfl⟩
  · rw [hres]
    exact ⟨fun h => absurd (h.symm.trans hcrash) (by decide), fun _ => Or.inr ⟨rfl, rfl⟩⟩

section

variable {lib : EspOta Image} {s : Station Image}

/-- A settled image is booted again. -/
theorem load_settled (h : s.Settled) : (s.load lib).running.image = s.running.image := by
  show (runningOf (lib.boot s.otadata)).image = _
  unfold Station.Settled at h
  cases hsel : s.otadata with
  | nil =>
      rw [hsel] at h
      rw [lib.boot_nil]
      exact h.symm
  | cons e es =>
      rw [hsel] at h
      rw [lib.boot_valid e es h.1]
      exact h.2.symm

/-- A new image is booted to prove itself. -/
theorem load_renewed (h : s.Renewed) : (s.load lib).running.pendingVerify = true := by
  show (runningOf (lib.boot s.otadata)).pendingVerify = true
  unfold Station.Renewed at h
  cases hsel : s.otadata with
  | nil => simp [hsel] at h
  | cons e es =>
      have hnew : e.state = .new := by simpa [hsel] using h
      rw [lib.boot_new e es hnew]
      rfl

theorem endedBy_crash {reason : ResetReason} (h : CrashReason reason) : s.endedBy reason = .crash :=
  if_pos h

theorem endedBy_unplanned (h : s.plannedRb = 0) : s.endedBy .sw = .unplanned := by
  rw [Station.endedBy, if_neg (by decide), if_pos rfl, if_pos h]

/-- **One event** after which the guard sees enough. -/
theorem rightCharge_step (s : Station Image) (e : StationEvent Image) (hattr : Attributable s e) :
    ∀ o ∈ (station lib).out s e, RightCharge o := by
  intro o ho
  cases e with
  | reset reason io =>
      obtain ⟨hcrash, hsw⟩ := hattr
      obtain rfl : o = s.record lib (s.endedBy reason) reason io := List.mem_singleton.mp ho
      intro hcharged
      rcases (charged_iff (s.load lib) reason io).mp hcharged with hreason | ⟨rfl, hmark, hproved⟩
      · exact ⟨load_settled (hcrash hreason), Or.inl (endedBy_crash hreason)⟩
      · rcases hsw rfl hmark with hsettled | hrenewed
        · exact ⟨load_settled hsettled, Or.inr (endedBy_unplanned hmark)⟩
        · exact absurd (hproved.symm.trans (load_renewed hrenewed)) (by decide)
  | healthRollback reboots io =>
      change o ∈ if s.RollsBack reboots then _ else [] at ho
      by_cases hback : s.RollsBack reboots
      · rw [if_pos hback] at ho
        obtain rfl := List.mem_singleton.mp ho
        intro hcharged
        rcases (charged_iff ((s.reject lib).load lib) .sw io).mp hcharged with hreason | ⟨_, hmark, _⟩
        · exact absurd hreason (by decide)
        · exact absurd hmark (hattr hback)
      · rw [if_neg hback] at ho
        exact absurd ho List.not_mem_nil
  | install slot image => exact absurd ho List.not_mem_nil
  | note => exact absurd ho List.not_mem_nil
  | confirm => exact absurd ho List.not_mem_nil
  | survived => exact absurd ho List.not_mem_nil

end

/-- **Charges are right** in every run of boots whose sessions end so that the guard sees enough. -/
theorem charges_are_right (lib : EspOta Image) (es : List (StationEvent Image))
    (hattr : (station lib).Admits Attributable factoryStation es) :
    ∀ o ∈ (station lib).outputs factoryStation es, RightCharge o :=
  (station lib).forall_outputs (I := fun _ => True) (fun _ _ _ _ => trivial)
    (fun s e _ he => rightCharge_step s e he) trivial hattr

/-! ### The other ends of a session -/

section

variable {lib : EspOta Image} {s : Station Image} {e : OtaEntry Image} {es : List (OtaEntry Image)}

theorem boot_of_valid (hvalid : ∀ e' ∈ es, e'.state = .valid) : lib.boot es = es := by
  cases es with
  | nil => exact lib.boot_nil
  | cons e es => exact lib.boot_valid e es (hvalid e List.mem_cons_self)

/-- **A crash before the confirmation** is charged to the image that the bootloader goes back to. -/
theorem crash_of_pending_charged {reason : ResetReason} (hsel : s.otadata = e :: es)
    (hpending : e.state = .pendingVerify) (hrun : s.running.image = some e.image)
    (hvalid : ∀ e' ∈ es, e'.state = .valid) (hother : (runningOf es).image ≠ some e.image)
    (hcrash : CrashReason reason) (io : FallbackIo) :
    ¬ RightCharge (s.record lib (s.endedBy reason) reason io) := by
  intro hright
  have hsame := (hright ((charged_iff (s.load lib) reason io).mpr (Or.inl hcrash))).1
  change (runningOf (lib.boot s.otadata)).image = s.running.image at hsame
  rw [hsel, lib.boot_rejected e es (Or.inl hpending), boot_of_valid hvalid, hrun] at hsame
  exact hother hsame

/-- **A crash between an installation and its restart** is charged to the new image. -/
theorem crash_after_install_charged {reason : ResetReason} {slot : AppSlot} {image : Image}
    (hproved : s.running.pendingVerify = false) (hother : s.running.image ≠ some image)
    (hcrash : CrashReason reason) (io : FallbackIo) :
    ∃ o ∈ (station lib).outputs s [.install slot image, .reset reason io], ¬ RightCharge o := by
  obtain ⟨es', hes'⟩ := lib.setBootPartition_head slot image s.otadata
  have hinstall : (station lib).step s (.install slot image) = { s with otadata := ⟨slot, image, .new⟩ :: es' } := by
    show (if s.running.pendingVerify then s else _) = _
    rw [hproved, if_neg (by decide), hes']
  refine ⟨_, List.mem_append_right _ (List.mem_append_left _ (List.mem_singleton_self _)), ?_⟩
  rw [hinstall]
  intro hright
  have hsame := (hright ((charged_iff _ reason io).mpr (Or.inl hcrash))).1
  change (runningOf (lib.boot (⟨slot, image, .new⟩ :: es'))).image = s.running.image at hsame
  rw [lib.boot_new _ es' rfl] at hsame
  exact hother hsame.symm

/-- **An unmarked rollback of `ota_mark_valid_task`** is charged to the image before. -/
theorem health_rollback_charged (hsel : s.otadata = e :: es) (hback : s.running.pendingVerify = true)
    (hvalid : ∀ e' ∈ es, e'.state = .valid) (hmark : s.plannedRb = 0) (io : FallbackIo) :
    ∃ o ∈ (station lib).out s (.healthRollback true io), ¬ RightCharge o := by
  refine ⟨(s.reject lib).record lib .healthRollback .sw io, ?_, ?_⟩
  · show _ ∈ if s.RollsBack true then _ else []
    rw [if_pos ⟨hback, rfl⟩]
    exact List.mem_singleton_self _
  · have hproved : ((s.reject lib).load lib).running.pendingVerify = false := by
      show (runningOf (lib.boot (lib.markAppInvalid s.otadata))).pendingVerify = false
      rw [hsel, lib.markAppInvalid_cons, lib.boot_rejected _ _ (Or.inr rfl), boot_of_valid hvalid]
      cases es with
      | nil => rfl
      | cons e' es => simp [runningOf, hvalid e' List.mem_cons_self]
    intro hright
    have hended := (hright ((charged_iff _ .sw io).mpr (Or.inr ⟨rfl, hmark, hproved⟩))).2
    exact absurd hended (by simp [Station.record])

end

/-! ### The bootloader of the device -/

def espBoot : List (OtaEntry Image) → List (OtaEntry Image)
  | [] => []
  | e :: es =>
      match e.state with
      | .new => { e with state := .pendingVerify } :: es
      | .valid => e :: es
      | .pendingVerify => espBoot es
      | .invalid => espBoot es

/-- The state of the newest entry is set. -/
def markNewest (state : ImgState) : List (OtaEntry Image) → List (OtaEntry Image)
  | [] => []
  | e :: es => { e with state := state } :: es

def espOta : EspOta Image where
  boot := espBoot
  setBootPartition slot image es := ⟨slot, image, .new⟩ :: es.filter fun e => e.slot ≠ slot
  markAppValid := markNewest .valid
  markAppInvalid := markNewest .invalid
  boot_nil := rfl
  boot_valid e es h := by simp [espBoot, h]
  boot_new e es h := by simp [espBoot, h]
  boot_rejected e es h := by
    rcases h with h | h
    · simp [espBoot, h]
    · simp [espBoot, h]
  setBootPartition_head slot image es := ⟨_, rfl⟩
  markAppValid_cons _ _ := rfl
  markAppInvalid_cons _ _ := rfl

def fallbackOk : FallbackIo := ⟨true, true⟩

/-- Image 1 is installed and confirmed. -/
def installFirst : List (StationEvent ℕ) :=
  [.install .ota0 1, .note, .reset .sw fallbackOk, .confirm]

theorem charges_are_right_panic :
    (station espOta).outputs factoryStation (installFirst ++ [.reset .panic fallbackOk]) =
        [⟨.planned, none, some 1, false⟩, ⟨.crash, some 1, some 1, true⟩] ∧
      ∀ o ∈ (station espOta).outputs factoryStation (installFirst ++ [.reset .panic fallbackOk]),
        RightCharge o :=
  ⟨by decide +kernel, charges_are_right espOta _
    ⟨trivial, trivial, ⟨fun h => absurd h (by decide), fun _ h => absurd h (by decide)⟩, trivial,
      ⟨fun _ => ⟨rfl, rfl⟩, fun h => absurd h (by decide)⟩, trivial⟩⟩

/-- Image 2 is installed next, and does not meet the health contract. -/
def unhealthyRun : List (StationEvent ℕ) :=
  installFirst ++ [.install .ota1 2, .note, .reset .sw fallbackOk, .healthRollback true fallbackOk]

/-- **A rollback is charged to the image before.** -/
theorem unhealthyRun_charged :
    (station espOta).outputs factoryStation unhealthyRun =
        [⟨.planned, none, some 1, false⟩, ⟨.planned, some 1, some 2, false⟩,
          ⟨.healthRollback, some 2, some 1, true⟩] ∧
      ¬ ∀ es : List (StationEvent ℕ), ∀ o ∈ (station espOta).outputs factoryStation es, RightCharge o := by
  have hrun : (station espOta).outputs factoryStation unhealthyRun =
      [⟨.planned, none, some 1, false⟩, ⟨.planned, some 1, some 2, false⟩,
        ⟨.healthRollback, some 2, some 1, true⟩] := by decide +kernel
  refine ⟨hrun, ?_⟩
  intro h
  have hright := h unhealthyRun ⟨.healthRollback, some 2, some 1, true⟩ (by rw [hrun]; decide)
  exact absurd (hright rfl).1 (by decide)

end RtkdataFw.Update
