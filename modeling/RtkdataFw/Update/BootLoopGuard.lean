import RtkdataFw.Lib.Machine
import RtkdataFw.Update.Firmware

/-!
# The boot-loop guard of `update.c`

`ota_boot_loop_guard` runs once at each boot.  It keeps a counter of eight bits in NVS and a marker that a
restart was planned, and erases the OTA selection when too many boots in a row were faults, so that the
bootloader falls back to the factory image.  `Tally` counts the same in the log of the run, without a bound.

* `guard_cases` — what the guard does at one boot;
* `run_agrees` — the counter is the tally modulo 256, and the marker is set when the log says so;
* `guard_law` — whatever the boots of a run were, the guard falls back exactly on a tally of
  `MAX_BOOT_LOOPS`.
-/

namespace RtkdataFw.Update

open RtkdataFw.Lib

/-- `MAX_BOOT_LOOPS`. -/
def maxBootLoops : UInt8 := 5

/-- `esp_reset_reason_t`. -/
inductive ResetReason where
  | unknown
  | sw
  | panic
  | intWdt
  | taskWdt
  | wdt
  | brownout
  /-- Power-on, the reset pin, deep sleep and the rest. -/
  | other
  deriving DecidableEq, Repr

/-- What the guard finds at a boot, and how the erase turns out. -/
structure BootIo where
  reason : ResetReason
  /-- The state of the running image is read and is `ESP_OTA_IMG_PENDING_VERIFY`. -/
  pendingVerify : Bool
  running : Option AppSlot
  otadataFound : Bool
  eraseOk : Bool
  deriving DecidableEq, Repr

/-- The two NVS keys of the guard, and the OTA selection. -/
structure GuardDevice where
  plannedRb : UInt8
  bootloop : UInt8
  otadata : Option AppSlot
  deriving DecidableEq, Repr

/-- Which of the NVS calls succeed; a write with its commit. -/
structure GuardNvsIo where
  opens : Bool
  consume : Bool
  count : Bool
  reopens : Bool
  clear : Bool
  noteOpens : Bool
  note : Bool
  deriving DecidableEq, Repr

def guardNvsOk : GuardNvsIo := ⟨true, true, true, true, true, true, true⟩

/-- What the log of a device shows. -/
inductive GuardObs where
  | booted (b : BootIo)
  /-- The counter was cleared after a long run. -/
  | cleared
  /-- A restart was noted as planned. -/
  | noted
  /-- The OTA selection is to be erased, with the outcome. -/
  | erase (ok : Bool)
  | restart
  deriving DecidableEq, Repr

/-! ### The code -/

def setU8 (ok : Bool) (new old : UInt8) : UInt8 := if ok then new else old

def otaNotePlannedReboot (d : GuardDevice) (opens note : Bool) : GuardDevice :=
  if opens then { d with plannedRb := setU8 note 1 d.plannedRb } else d

/-- The marker is read once. -/
def consumePlanned (d : GuardDevice) (consume : Bool) : GuardDevice :=
  if d.plannedRb ≠ 0 then { d with plannedRb := setU8 consume 0 d.plannedRb } else d

/-- A freshly installed image. -/
def BootIo.justInstalled (b : BootIo) : Bool := b.running.isSome && b.pendingVerify

def crashLike (reason : ResetReason) (planned justInstalled : Bool) : Bool :=
  reason == .panic || reason == .intWdt || reason == .taskWdt || reason == .wdt || reason == .brownout ||
    reason == .unknown || (reason == .sw && !planned && !justInstalled)

/-- What follows a successful erase: a clean slate for the factory image, and a restart. -/
def fallBack (d : GuardDevice) (io : GuardNvsIo) : GuardDevice :=
  let d := { d with otadata := none }
  let d := if io.reopens then { d with bootloop := setU8 io.clear 0 d.bootloop } else d
  otaNotePlannedReboot d io.noteOpens io.note

def otaBootLoopGuard (d : GuardDevice) (b : BootIo) (io : GuardNvsIo) : GuardDevice × List GuardObs :=
  if !io.opens then (d, [])
  else
    let planned := d.plannedRb != 0
    let d := consumePlanned d io.consume
    if !crashLike b.reason planned b.justInstalled then (d, [])
    else
      let boots := d.bootloop + 1
      let d := { d with bootloop := setU8 io.count boots d.bootloop }
      if boots < maxBootLoops then (d, [])
      else if b.running = some .factory then (d, [])
      else if !b.otadataFound then (d, [])
      else if !b.eraseOk then (d, [.erase false])
      else (fallBack d io, [.erase true, .noted, .restart])

def otaBootloopClearTask (d : GuardDevice) (ok : Bool) : GuardDevice :=
  { d with bootloop := setU8 ok 0 d.bootloop }

/-- The bootloader takes the factory image when nothing is selected. -/
def GuardDevice.bootSlot (d : GuardDevice) : AppSlot := d.otadata.getD .factory

/-! ### Runs -/

inductive GuardEvent where
  | boot (b : BootIo)
  /-- The device has survived `OTA_BOOTLOOP_CLEAR_MS`. -/
  | survived
  /-- A planned restart of another module. -/
  | planned
  | install (slot : AppSlot)
  deriving DecidableEq, Repr

/-- Boots with NVS working. -/
def bootGuard : Machine GuardDevice GuardEvent GuardObs where
  step d
    | .boot b => (otaBootLoopGuard d b guardNvsOk).1
    | .survived => otaBootloopClearTask d true
    | .planned => otaNotePlannedReboot d true true
    | .install slot => { d with otadata := some slot }
  out d
    | .boot b => .booted b :: (otaBootLoopGuard d b guardNvsOk).2
    | .survived => [.cleared]
    | .planned => [.noted]
    | .install _ => []

def guardInit (otadata : Option AppSlot) : GuardDevice := ⟨0, 0, otadata⟩

/-! ### The tally -/

/-- A fault: a crash reset, or a software reset without a marker on an image that is not fresh. -/
def Counted (b : BootIo) (marker : Bool) : Prop :=
  b.reason ∈ [ResetReason.panic, .intWdt, .taskWdt, .wdt, .brownout, .unknown] ∨
    b.reason = .sw ∧ marker = false ∧ ¬ (b.running.isSome = true ∧ b.pendingVerify = true)

instance (b : BootIo) (marker : Bool) : Decidable (Counted b marker) :=
  inferInstanceAs (Decidable (_ ∨ _ ∧ _ ∧ ¬ (_ ∧ _)))

/-- Whether a restart was noted since the last boot, and the faults since the counter was last cleared. -/
structure Tally where
  marker : Bool
  count : ℕ
  deriving DecidableEq, Repr

/-- The faults up to and with a boot. -/
def Tally.atBoot (t : Tally) (b : BootIo) : ℕ := if Counted b t.marker then t.count + 1 else t.count

def Tally.step (t : Tally) : GuardObs → Tally
  | .booted b => ⟨false, t.atBoot b⟩
  | .cleared => { t with count := 0 }
  | .noted => { t with marker := true }
  | .erase true => { t with count := 0 }
  | .erase false => t
  | .restart => t

def tally (log : List GuardObs) : Tally := log.foldl Tally.step ⟨false, 0⟩

/-- The two NVS keys hold the tally. -/
structure Agrees (d : GuardDevice) (t : Tally) : Prop where
  marker : d.plannedRb ≠ 0 ↔ t.marker = true
  count : d.bootloop = UInt8.ofNat t.count

/-! ### One boot -/

theorem consumePlanned_ok (d : GuardDevice) : consumePlanned d true = { d with plannedRb := 0 } := by
  rw [consumePlanned]
  by_cases hplanned : d.plannedRb ≠ 0
  · rw [if_pos hplanned]
    rfl
  · rw [if_neg hplanned]
    obtain ⟨planned, bootloop, otadata⟩ := d
    cases not_not.mp hplanned
    rfl

/-- What keeps a fault from the fallback. -/
def StaysOn (d : GuardDevice) (b : BootIo) : Prop :=
  d.bootloop + 1 < maxBootLoops ∨ b.running = some .factory ∨ b.otadataFound = false

/-- **One boot**: not a fault; a fault that is only counted; an erase that fails; or the fallback. -/
theorem guard_cases (d : GuardDevice) (b : BootIo) :
    crashLike b.reason (d.plannedRb != 0) b.justInstalled = false ∧
        otaBootLoopGuard d b guardNvsOk = ({ d with plannedRb := 0 }, []) ∨
      crashLike b.reason (d.plannedRb != 0) b.justInstalled = true ∧
        (StaysOn d b ∧
            otaBootLoopGuard d b guardNvsOk = (⟨0, d.bootloop + 1, d.otadata⟩, []) ∨
          ¬ StaysOn d b ∧ b.eraseOk = false ∧
            otaBootLoopGuard d b guardNvsOk = (⟨0, d.bootloop + 1, d.otadata⟩, [.erase false]) ∨
          ¬ StaysOn d b ∧ b.eraseOk = true ∧
            otaBootLoopGuard d b guardNvsOk = (⟨1, 0, none⟩, [.erase true, .noted, .restart])) := by
  have hguard : otaBootLoopGuard d b guardNvsOk =
      if !crashLike b.reason (d.plannedRb != 0) b.justInstalled then ({ d with plannedRb := 0 }, [])
      else if d.bootloop + 1 < maxBootLoops then (⟨0, d.bootloop + 1, d.otadata⟩, [])
      else if b.running = some .factory then (⟨0, d.bootloop + 1, d.otadata⟩, [])
      else if !b.otadataFound then (⟨0, d.bootloop + 1, d.otadata⟩, [])
      else if !b.eraseOk then (⟨0, d.bootloop + 1, d.otadata⟩, [.erase false])
      else (⟨1, 0, none⟩, [.erase true, .noted, .restart]) := by
    rw [otaBootLoopGuard, if_neg (by decide), show guardNvsOk.consume = true from rfl, consumePlanned_ok]
    rfl
  rw [hguard]
  cases hcrash : crashLike b.reason (d.plannedRb != 0) b.justInstalled with
  | false => exact Or.inl ⟨rfl, rfl⟩
  | true =>
      refine Or.inr ⟨rfl, ?_⟩
      rw [if_neg (by decide)]
      by_cases hfew : d.bootloop + 1 < maxBootLoops
      · rw [if_pos hfew]
        exact Or.inl ⟨Or.inl hfew, rfl⟩
      · rw [if_neg hfew]
        by_cases hfactory : b.running = some .factory
        · rw [if_pos hfactory]
          exact Or.inl ⟨Or.inr (Or.inl hfactory), rfl⟩
        · rw [if_neg hfactory]
          cases hfound : b.otadataFound with
          | false => exact Or.inl ⟨Or.inr (Or.inr hfound), rfl⟩
          | true =>
              have hgoes : ¬ StaysOn d b := by
                intro h
                rcases h with hlt | heq | hnone
                · exact hfew hlt
                · exact hfactory heq
                · exact absurd (hfound.symm.trans hnone) (by decide)
              cases herase : b.eraseOk with
              | false => exact Or.inr (Or.inl ⟨hgoes, rfl, rfl⟩)
              | true => exact Or.inr (Or.inr ⟨hgoes, rfl, rfl⟩)

/-! ### The counter is the tally -/

/-- The code's reading of the reset agrees with the tally's. -/
theorem crashLike_iff {d : GuardDevice} {t : Tally} (h : Agrees d t) (b : BootIo) :
    crashLike b.reason (d.plannedRb != 0) b.justInstalled = true ↔ Counted b t.marker := by
  have hmarker : (d.plannedRb != 0) = t.marker := by
    rw [Bool.eq_iff_iff, bne_iff_ne]
    exact h.marker
  rw [hmarker, Counted, BootIo.justInstalled]
  cases b.reason <;> cases t.marker <;> cases b.running.isSome <;> cases b.pendingVerify <;> decide

theorem ofNat_succ (n : ℕ) : UInt8.ofNat n + 1 = UInt8.ofNat (n + 1) := by
  rw [UInt8.ofNat_add]
  rfl

theorem Agrees.atBoot_counted {d : GuardDevice} {t : Tally} (h : Agrees d t) {b : BootIo}
    (hcounted : Counted b t.marker) : d.bootloop + 1 = UInt8.ofNat (t.atBoot b) := by
  rw [Tally.atBoot, if_pos hcounted, h.count, ofNat_succ]

/-- **One event** of the device, and what its log adds to the tally. -/
theorem agrees_step {d : GuardDevice} {t : Tally} (h : Agrees d t) (e : GuardEvent) :
    Agrees (bootGuard.step d e) ((bootGuard.out d e).foldl Tally.step t) := by
  cases e with
  | survived => exact ⟨h.marker, rfl⟩
  | planned => exact ⟨by simp [bootGuard, otaNotePlannedReboot, setU8, Tally.step], h.count⟩
  | install slot => exact ⟨h.marker, h.count⟩
  | boot b =>
      show Agrees (otaBootLoopGuard d b guardNvsOk).1
        ((GuardObs.booted b :: (otaBootLoopGuard d b guardNvsOk).2).foldl Tally.step t)
      rcases guard_cases d b with ⟨hcrash, hres⟩ | ⟨hcrash, ⟨_, hres⟩ | ⟨_, _, hres⟩ | ⟨_, _, hres⟩⟩
      · rw [hres]
        have hnot : ¬ Counted b t.marker := by
          rw [← crashLike_iff h, hcrash]
          simp
        refine ⟨by simp [Tally.step], ?_⟩
        show d.bootloop = UInt8.ofNat (t.atBoot b)
        rw [Tally.atBoot, if_neg hnot, h.count]
      · rw [hres]
        exact ⟨by simp [Tally.step], h.atBoot_counted ((crashLike_iff h b).mp hcrash)⟩
      · rw [hres]
        exact ⟨by simp [Tally.step], h.atBoot_counted ((crashLike_iff h b).mp hcrash)⟩
      · rw [hres]
        exact ⟨by simp [Tally.step], rfl⟩

/-- The device after a run, and its tally. -/
def deviceAfter (otadata : Option AppSlot) (es : List GuardEvent) : GuardDevice :=
  bootGuard.run (guardInit otadata) es

def tallyAfter (otadata : Option AppSlot) (es : List GuardEvent) : Tally :=
  tally (bootGuard.outputs (guardInit otadata) es)

/-- **The counter is the tally**, after every run. -/
theorem run_agrees (otadata : Option AppSlot) (es : List GuardEvent) :
    Agrees (deviceAfter otadata es) (tallyAfter otadata es) := by
  refine bootGuard.history_nil (P := fun d log => Agrees d (tally log)) ?_
    ⟨by simp [guardInit, tally], rfl⟩ (bootGuard.admits_true (guardInit otadata) es)
  intro d log e h _
  rw [tally, List.foldl_append]
  exact agrees_step h e

/-! ### The law of the guard -/

/-- A boot that calls for the fallback: a fault, the limit reached, and another image than factory. -/
def CallsForFallback (t : Tally) (b : BootIo) : Prop :=
  Counted b t.marker ∧ maxBootLoops.toNat ≤ t.atBoot b ∧ b.running ≠ some .factory

/-- What a boot does, on a device with a tally. -/
structure GuardLaw (d : GuardDevice) (t : Tally) (b : BootIo) : Prop where
  /-- The OTA selection is erased only where the fallback is called for. -/
  eraseOnly : ∀ ok, .erase ok ∈ bootGuard.out d (.boot b) → CallsForFallback t b
  /-- Called for, with an OTA selection, the erase is attempted. -/
  attempts : CallsForFallback t b → b.otadataFound = true →
    .erase b.eraseOk ∈ bootGuard.out d (.boot b)
  /-- An erase that succeeds clears the counter and restarts into factory, as planned. -/
  succeeds : CallsForFallback t b → b.otadataFound = true → b.eraseOk = true →
    (bootGuard.step d (.boot b)).bootloop = 0 ∧ (bootGuard.step d (.boot b)).plannedRb = 1 ∧
      (bootGuard.step d (.boot b)).bootSlot = .factory ∧ .restart ∈ bootGuard.out d (.boot b)
  /-- An erase that fails keeps the counter and starts the image. -/
  fails : CallsForFallback t b → b.otadataFound = true → b.eraseOk = false →
    (bootGuard.step d (.boot b)).bootloop.toNat = t.atBoot b ∧
      .restart ∉ bootGuard.out d (.boot b)
  /-- The marker is set when a restart was noted since the last boot; it excuses a software reset. -/
  excuses : t.marker = true → b.reason = .sw →
    (bootGuard.step d (.boot b)).bootloop = d.bootloop ∧ bootGuard.out d (.boot b) = [.booted b]
  /-- And no second one: it is gone after the boot, unless that falls back. -/
  once : .erase true ∉ bootGuard.out d (.boot b) → (bootGuard.step d (.boot b)).plannedRb = 0

/-- A fault after fewer than 255 others brings the stored counter to the tally's number. -/
theorem Agrees.toNat_counted {d : GuardDevice} {t : Tally} (h : Agrees d t) {b : BootIo}
    (hcounted : Counted b t.marker) (hcount : t.atBoot b < 256) : (d.bootloop + 1).toNat = t.atBoot b := by
  rw [h.atBoot_counted hcounted, UInt8.toNat_ofNat']
  exact Nat.mod_eq_of_lt hcount

theorem stays_or_calls {d : GuardDevice} {t : Tally} (h : Agrees d t) {b : BootIo}
    (hcounted : Counted b t.marker) (hcount : t.atBoot b < 256) :
    StaysOn d b ↔ ¬ (CallsForFallback t b ∧ b.otadataFound = true) := by
  rw [StaysOn, CallsForFallback, UInt8.lt_iff_toNat_lt, h.toNat_counted hcounted hcount, ← Nat.not_le]
  cases b.otadataFound with
  | false => simp
  | true =>
      simp only [hcounted, true_and, Bool.true_eq_false, or_false, and_true, ne_eq, not_and_or, not_not]

theorem not_counted_of_marker {b : BootIo} {marker : Bool} (hmarker : marker = true) (hsw : b.reason = .sw) :
    ¬ Counted b marker := by
  intro h
  rcases h with hcrash | ⟨_, hnone, _⟩
  · rw [hsw] at hcrash
    exact absurd hcrash (by decide)
  · exact absurd (hmarker.symm.trans hnone) (by decide)

/-- **One boot obeys the law**, where the keys hold the tally and the counter has not come round. -/
theorem guardLaw_of_agrees {d : GuardDevice} {t : Tally} (h : Agrees d t) (b : BootIo)
    (hcount : t.atBoot b < 256) : GuardLaw d t b := by
  have hout : bootGuard.out d (.boot b) = .booted b :: (otaBootLoopGuard d b guardNvsOk).2 := rfl
  have hstep : bootGuard.step d (.boot b) = (otaBootLoopGuard d b guardNvsOk).1 := rfl
  rcases guard_cases d b with ⟨hcrash, hres⟩ | ⟨hcrash, hfault⟩
  · rw [hres] at hout hstep
    have hnot : ¬ Counted b t.marker := by
      rw [← crashLike_iff h, hcrash]
      simp
    refine ⟨?_, fun hcalls => absurd hcalls.1 hnot, fun hcalls => absurd hcalls.1 hnot,
      fun hcalls => absurd hcalls.1 hnot, ?_, ?_⟩
    · intro ok hmem
      rw [hout] at hmem
      exact absurd hmem (by simp)
    · intro _ _
      rw [hstep]
      exact ⟨rfl, hout⟩
    · intro _
      exact congrArg GuardDevice.plannedRb hstep
  · have hcounted : Counted b t.marker := (crashLike_iff h b).mp hcrash
    have hstays := stays_or_calls h hcounted hcount
    have hexcused : t.marker = true → b.reason = .sw → False := fun hmarker hsw =>
      not_counted_of_marker hmarker hsw hcounted
    rcases hfault with ⟨hon, hres⟩ | ⟨hgoes, herase, hres⟩ | ⟨hgoes, herase, hres⟩
    · rw [hres] at hout hstep
      have hnot := hstays.mp hon
      refine ⟨?_, fun hcalls hfound => absurd ⟨hcalls, hfound⟩ hnot,
        fun hcalls hfound => absurd ⟨hcalls, hfound⟩ hnot,
        fun hcalls hfound => absurd ⟨hcalls, hfound⟩ hnot,
        fun hmarker hsw => (hexcused hmarker hsw).elim, ?_⟩
      · intro ok hmem
        rw [hout] at hmem
        exact absurd hmem (by simp)
      · intro _
        exact congrArg GuardDevice.plannedRb hstep
    · rw [hres] at hout hstep
      have hcalls := not_not.mp (mt hstays.mpr hgoes)
      refine ⟨fun _ _ => hcalls.1, ?_, ?_, fun _ _ _ => ⟨?_, ?_⟩,
        fun hmarker hsw => (hexcused hmarker hsw).elim, ?_⟩
      · intro _ _
        rw [hout, herase]
        exact List.mem_cons_of_mem _ List.mem_cons_self
      · intro _ _ hok
        exact absurd (herase.symm.trans hok) (by decide)
      · rw [hstep]
        exact h.toNat_counted hcounted hcount
      · rw [hout]
        simp
      · intro _
        exact congrArg GuardDevice.plannedRb hstep
    · rw [hres] at hout hstep
      have hcalls := not_not.mp (mt hstays.mpr hgoes)
      refine ⟨fun _ _ => hcalls.1, ?_, ?_, ?_,
        fun hmarker hsw => (hexcused hmarker hsw).elim, ?_⟩
      · intro _ _
        rw [hout, herase]
        exact List.mem_cons_of_mem _ List.mem_cons_self
      · intro _ _ _
        rw [hstep, hout]
        exact ⟨rfl, rfl, rfl, by simp⟩
      · intro _ _ hfail
        exact absurd (herase.symm.trans hfail) (by decide)
      · intro hnone
        rw [hout] at hnone
        exact absurd (List.mem_cons_of_mem _ List.mem_cons_self) hnone

/-- **The boot-loop guard.**  Whatever boots, clears, planned restarts and installs a run has had, the next
boot obeys the law on the tally of its log, up to 255 faults. -/
theorem guard_law (otadata : Option AppSlot) (es : List GuardEvent) (b : BootIo)
    (hcount : (tallyAfter otadata es).atBoot b < 256) :
    GuardLaw (deviceAfter otadata es) (tallyAfter otadata es) b :=
  guardLaw_of_agrees (run_agrees otadata es) b hcount

/-- A boot after a panic of an image in the first slot. -/
def panicBoot (eraseOk : Bool) : BootIo := ⟨.panic, false, some .ota0, true, eraseOk⟩

/-- The fifth panic in a row, with an erase that fails, and the sixth. -/
theorem guard_law_example :
    GuardLaw (deviceAfter (some .ota0) (List.replicate 5 (.boot (panicBoot false))))
        (tallyAfter (some .ota0) (List.replicate 5 (.boot (panicBoot false)))) (panicBoot true) ∧
      CallsForFallback (tallyAfter (some .ota0) (List.replicate 5 (.boot (panicBoot false))))
        (panicBoot true) :=
  ⟨guard_law (some .ota0) (List.replicate 5 (.boot (panicBoot false))) (panicBoot true) (by decide +kernel),
    by decide +kernel, by decide +kernel, by decide +kernel⟩

end RtkdataFw.Update
