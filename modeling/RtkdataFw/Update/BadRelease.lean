import RtkdataFw.Update.AntiBrick

/-!
# What a bad release can do

A release that never proves itself, or crashes whatever runs it, is what the anti-brick mechanisms are for.  Both
bounds are ledgers over a run: each start is paid for by an entry of the OTA data that waits for its first boot,
such an entry by an attempt that is left of the budget, and a crash of a proved image by what the guard grants.

* `release_pays`, `looping_pays` — the ledgers of one event;
* `release_cost` — how often a release is started on probation, and what its confirmation is needed for;
* `factory_for_good` — how many boots of a station whose images crash are not of the factory image.
-/

namespace RtkdataFw.Update

open RtkdataFw.Lib

section

variable {lib : EspOta CStr} {version : CStr} {k : ℕ}

/-! ### What a release costs -/

/-- A start of one of these images that has not proved itself. -/
def unproved (p : CStr → Bool) : AntiBrickObs → Bool
  | .started (some image) true _ => p image
  | _ => false

def isConfirmed : AntiBrickObs → Bool
  | .confirmed _ => true
  | _ => false

/-- A cut booking leaves no more of the budget than there was. -/
theorem torn_remaining (hfits : version.size ≤ storedB) (nvs : OtaNvs) (writes : ℕ) :
    remaining version (attemptCut nvs nvsOk version (.powerLoss writes)) ≤ remaining version nvs := by
  rw [attemptCut_eq]
  by_cases hbooks : BooksAttempt nvs nvsOk version
  · have hleft : ¬ recordedCount nvs nvsOk version ≥ maxOtaAttempts := hbooks.2
    rw [if_pos hbooks]
    match writes with
    | 0 => exact Nat.le_refl _
    | 1 =>
        have htorn := torn_pays hfits nvs
        rw [tornAttempt, if_neg hleft] at htorn
        exact htorn
    | writes + 2 =>
        have hspends := attempt_spends hfits nvs
        rw [attempt_of_left hleft] at hspends
        have hboth : (⟨if versionLands nvsOk (.powerLoss (writes + 2)) then some version else nvs.failVer,
            if countLands nvsOk (.powerLoss (writes + 2)) then some (recordedCount nvs nvsOk version + 1)
              else nvs.failCnt⟩ : OtaNvs) = ⟨some version, some (recordedCount nvs nvsOk version + 1)⟩ := by
          simp [versionLands, countLands, Cut.reaches, nvsOk]
        rw [hboth]
        exact hspends.trans (Nat.sub_le _ _)
  · rw [if_neg hbooks]

theorem granted_remaining (hfits : version.size ≤ storedB) {nvs : OtaNvs}
    (h : (otaAttemptAllowed nvs nvsOk version).1 = true) :
    remaining version (otaAttemptAllowed nvs nvsOk version).2 + 1 ≤ remaining version nvs := by
  have hpays := attempt_pays hfits nvs
  have hout : (ota version).out nvs .attempt = [()] := if_pos h
  rw [hout, List.length_singleton] at hpays
  exact (Nat.add_comm _ _).trans_le hpays

/-- **A reset** takes an image that it starts unproved from those that wait. -/
theorem reboot_waiting (lib : EspOta CStr) (p : CStr → Bool) (s : Station CStr) (reason : ResetReason)
    (io : FallbackIo) :
    [startedObs lib s reason io].countP (unproved p) + waiting p (s.reboot lib reason io).otadata ≤
      waiting p s.otadata := by
  have herased : waiting p (s.reboot lib reason io).otadata ≤ waiting p (lib.boot s.otadata) := by
    rw [reboot_otadata]
    split
    · exact Nat.zero_le _
    · exact Nat.le_refl _
  refine (Nat.add_le_add_left herased _).trans ?_
  rw [List.countP_singleton]
  show (if unproved p (.started (runningOf (lib.boot s.otadata)).image
    (runningOf (lib.boot s.otadata)).pendingVerify _) = true then 1 else 0) + _ ≤ _
  rcases boot_cases lib s.otadata with hnone | ⟨e, rest, hsub, hnew, heq⟩ | ⟨e, rest, hsub, hvalid, heq⟩
  · rw [hnone]
    exact (Nat.zero_add _).trans_le (Nat.zero_le _)
  · have hall := waiting_le (p := p) hsub
    rw [waiting_cons] at hall
    rw [heq, waiting_cons]
    simp only [runningOf, unproved, hnew, true_and, decide_true, reduceCtorEq, false_and, if_false] at hall ⊢
    omega
  · have hall := waiting_le (p := p) hsub
    rw [heq]
    simpa [runningOf, unproved, hvalid] using hall

/-- **The ledger of a release**: a start that is not proved is paid for by an entry that waits for it, an entry
by an attempt that is left, and the attempts by a confirmation. -/
theorem release_pays (hkeeps : KeepsEntries lib) (hfits : version.size ≤ storedB) {s s' : AntiBrick}
    {e : AntiBrickEvent} {os : List AntiBrickObs} (heffect : Effect lib version k s e s' os)
    (hs : Anchored s) :
    os.countP (unproved (· = version)) +
        (k * remaining version s'.nvs + waiting (· = version) s'.device.otadata) ≤
      k * remaining version s.nvs + waiting (· = version) s.device.otadata +
        k * maxOtaAttempts.toNat * os.countP isConfirmed := by
  cases heffect with
  | quiet hnvs hota =>
      rw [hnvs, hota]
      simp
  | reset reason io =>
      have hpays := reboot_waiting lib (· = version) s.device reason io
      dsimp only
      omega
  | survived => simp
  | torn writes =>
      have hleft := Nat.mul_le_mul_left k (torn_remaining hfits s.nvs writes)
      simpa using hleft
  | @granted _ _ _ _ _ slots _ hgranted hnvs hota _ _ hfew _ =>
      obtain ⟨es', hselect, -, hcount⟩ := select_spec hkeeps s.device version slots
      have hadded := hcount (· = version)
      have hspent := Nat.mul_le_mul_left k (granted_remaining hfits hgranted)
      rw [Nat.mul_add, Nat.mul_one] at hspent
      rw [hnvs, hota, hselect]
      show 0 + (_ + waiting _ es') ≤ _
      omega
  | @proved x _ _ hpending hota hrunning _ hdecides =>
      have hup : s.phase ≠ .down := by
        obtain ⟨checked, l, hphase, -⟩ := hdecides
        simp [hphase]
      obtain ⟨e, es, hsel, hstate, -⟩ := hs hup hpending
      have hbudget : k * remaining version s'.nvs ≤ k * maxOtaAttempts.toNat :=
        Nat.mul_le_mul_left k (Nat.sub_le _ _)
      rw [hota, hsel, lib.markAppValid_cons, waiting_cons, waiting_cons, hstate]
      simp [unproved, isConfirmed]
      omega
  | rejected hpending hnvs hota _ _ hdecides _ =>
      have hup : s.phase ≠ .down := by
        obtain ⟨checked, l, hphase, -⟩ := hdecides
        simp [hphase]
      obtain ⟨e, es, hsel, hstate, -⟩ := hs hup hpending
      rw [hnvs, hota, hsel, lib.markAppInvalid_cons, waiting_cons, waiting_cons, hstate]
      simp

/-- An image that is started without a probation is selected and proved. -/
theorem started_proved {s : Station CStr} {reason : ResetReason} {io : FallbackIo} {image : CStr} {fellBack : Bool}
    (h : startedObs lib s reason io = .started (some image) false fellBack) :
    ∃ a ∈ s.otadata, a.state = .valid ∧ a.image = image := by
  have himage : (runningOf (lib.boot s.otadata)).image = some image ∧
      (runningOf (lib.boot s.otadata)).pendingVerify = false := by
    injection h with himage hproved
    exact ⟨himage, hproved⟩
  rcases boot_cases lib s.otadata with hnone | ⟨e, rest, _, _, heq⟩ | ⟨e, rest, hsub, hvalid, heq⟩
  · rw [hnone] at himage
    exact absurd himage.1 (by simp [runningOf])
  · rw [heq] at himage
    exact absurd himage.2 (by simp [runningOf])
  · rw [heq] at himage
    exact ⟨e, hsub.subset List.mem_cons_self, hvalid, Option.some.inj himage.1⟩

/-- What was put out vouches for `version` wherever it counts as proved. -/
structure Vouched (version : CStr) (s : AntiBrick) (os : List AntiBrickObs) : Prop where
  anchored : Anchored s
  selected : ∀ a ∈ s.device.otadata, a.image = version → a.state = .valid → .confirmed (some version) ∈ os
  started : ∀ fellBack, .started (some version) false fellBack ∈ os → .confirmed (some version) ∈ os

theorem vouched_step (hkeeps : KeepsEntries lib) {s s' : AntiBrick} {e : AntiBrickEvent}
    {before os : List AntiBrickObs} (hok : SingleRelease version k s e)
    (heffect : Effect lib version k s e s' os) (hs : Vouched version s before) :
    Vouched version s' (before ++ os) := by
  refine ⟨anchored_step hok heffect hs.anchored, ?_, ?_⟩
  · intro a ha himage hvalid
    rcases valid_step hkeeps heffect hs.anchored a ha hvalid with hold | hnow
    · exact List.mem_append_left _ (hs.selected a hold himage hvalid)
    · rw [himage] at hnow
      exact List.mem_append_right _ hnow
  · intro fellBack hstarted
    rcases List.mem_append.mp hstarted with hold | hnow
    · exact List.mem_append_left _ (hs.started fellBack hold)
    · cases heffect with
      | reset reason io =>
          obtain ⟨a, ha, hvalid, himage⟩ := started_proved (List.mem_singleton.mp hnow).symm
          exact List.mem_append_left _ (hs.selected a ha himage hvalid)
      | quiet => exact absurd hnow List.not_mem_nil
      | survived => exact absurd hnow List.not_mem_nil
      | torn => exact absurd hnow List.not_mem_nil
      | granted => simp at hnow
      | proved => simp at hnow
      | rejected => exact absurd hnow List.not_mem_nil

/-- A boot of another image than factory that gets past the guard. -/
def passes : AntiBrickObs → Bool
  | .started (some _) _ false => true
  | _ => false

/-- The crashes in a row that the guard still lets pass. -/
def crashPasses (bootloop : UInt8) : ℕ := if bootloop = 255 then 5 else 4 - bootloop.toNat

theorem crashPasses_le (bootloop : UInt8) : crashPasses bootloop ≤ maxBootLoops.toNat := by
  unfold crashPasses
  split
  · exact Nat.le_refl _
  · exact (Nat.sub_le _ _).trans (by decide)

/-- A crash that the guard lets pass takes one of them. -/
theorem crashPasses_succ {bootloop : UInt8} (h : bootloop + 1 < maxBootLoops) :
    crashPasses (bootloop + 1) + 1 ≤ crashPasses bootloop := by
  have hlow : (bootloop + 1).toNat < 5 := UInt8.lt_iff_toNat_lt.mp h
  have hnext : (bootloop + 1).toNat = (bootloop.toNat + 1) % 256 := UInt8.toNat_add bootloop 1
  have hrange : bootloop.toNat < 256 := bootloop.toNat_lt
  have htop (b : UInt8) : b = 255 ↔ b.toNat = 255 := UInt8.toNat_inj.symm
  simp only [crashPasses, htop]
  split_ifs <;> omega

instance (s : Station CStr) : Decidable s.Renewed := inferInstanceAs (Decidable (_ = _))

/-- Every session of an image other than factory ends in a crash, or in the installation of another one, before
it has survived `OTA_BOOTLOOP_CLEAR_MS` and before the health task decides; the OTA selection can be erased. -/
def CrashLooping (version : CStr) (k : ℕ) (s : AntiBrick) (e : AntiBrickEvent) : Prop :=
  SingleRelease version k s e ∧
    match e with
    | .reset reason io => io = fallbackOk ∧ (CrashReason reason ∨ s.device.Renewed ∨
        s.device.running.image = none ∨ s.device.otadata = [])
    | .check _ items _ _ => ∀ url e, .url url e ∈ items → e.slot ≠ some .factory
    | .sample x _ => ¬ Decides s x
    | .survived => s.device.running.image = none
    | _ => True

/-- The factory image is in no OTA slot, and runs only where no proved image is left. -/
structure FactoryLast (s : AntiBrick) : Prop where
  anchored : Anchored s
  slots : ∀ a ∈ s.device.otadata, a.slot ≠ .factory
  factory : s.device.running.image = none → ∀ a ∈ s.device.otadata, a.state ≠ .valid

/-- What the guard still grants to proved images. -/
def provedPasses (s : Station CStr) : ℕ :=
  if ∃ a ∈ s.otadata, a.state = .valid then crashPasses s.bootloop else 0

theorem provedPasses_le {s s' : Station CStr} (hvalid : ∀ a ∈ s'.otadata, a.state = .valid → a ∈ s.otadata)
    (hcount : crashPasses s'.bootloop ≤ crashPasses s.bootloop) : provedPasses s' ≤ provedPasses s := by
  unfold provedPasses
  split
  · rename_i h
    obtain ⟨a, ha, hstate⟩ := h
    rw [if_pos ⟨a, hvalid a ha hstate, hstate⟩]
    exact hcount
  · exact Nat.zero_le _

/-- **The guard at a reset**: not a fault, a fault that it lets pass, or the fallback. -/
theorem reboot_guard (lib : EspOta CStr) (s : Station CStr) (reason : ResetReason) :
    (s.load lib).charged reason fallbackOk = false ∧ s.fallsBack lib reason fallbackOk = false ∧
        (s.reboot lib reason fallbackOk).bootloop = s.bootloop ∨
      s.fallsBack lib reason fallbackOk = false ∧
        (s.bootloop + 1 < maxBootLoops ∨ (s.load lib).running.slot = .factory) ∧
        (s.reboot lib reason fallbackOk).bootloop = s.bootloop + 1 ∨
      s.fallsBack lib reason fallbackOk = true := by
  have hfalls : s.fallsBack lib reason fallbackOk = decide (.erase true ∈ (otaBootLoopGuard
      (s.load lib).guardDevice (bootIo (s.load lib).running reason fallbackOk) guardNvsOk).2) := rfl
  have hboot : (s.reboot lib reason fallbackOk).bootloop = (otaBootLoopGuard
      (s.load lib).guardDevice (bootIo (s.load lib).running reason fallbackOk) guardNvsOk).1.bootloop := rfl
  rw [hfalls, hboot]
  rcases guard_cases (s.load lib).guardDevice (bootIo (s.load lib).running reason fallbackOk) with
    ⟨hcrash, hres⟩ | ⟨_, ⟨hon, hres⟩ | ⟨_, herase, _⟩ | ⟨_, _, hres⟩⟩
  · rw [hres]
    exact Or.inl ⟨hcrash, rfl, rfl⟩
  · rw [hres]
    refine Or.inr (Or.inl ⟨rfl, ?_, rfl⟩)
    rcases hon with hfew | hfactory | hlost
    · exact Or.inl hfew
    · exact Or.inr (Option.some.inj hfactory)
    · exact absurd hlost.symm Bool.false_ne_true
  · exact absurd herase.symm Bool.false_ne_true
  · rw [hres]
    exact Or.inr (Or.inr (by simp))

/-- A boot of another image than factory that the guard lets pass takes nothing from what it grants, or one
when it is charged. -/
theorem guard_lets {s : Station CStr} {reason : ResetReason}
    (hpass : s.fallsBack lib reason fallbackOk = false) (hslot : (s.load lib).running.slot ≠ .factory) :
    crashPasses (s.reboot lib reason fallbackOk).bootloop ≤ crashPasses s.bootloop ∧
      ((s.load lib).charged reason fallbackOk = true →
        crashPasses (s.reboot lib reason fallbackOk).bootloop + 1 ≤ crashPasses s.bootloop) := by
  rcases reboot_guard lib s reason with ⟨hfree, _, hsame⟩ | ⟨_, hfew, hnext⟩ | hfalls
  · rw [hsame]
    exact ⟨Nat.le_refl _, fun hcharged => absurd (hfree.symm.trans hcharged) Bool.false_ne_true⟩
  · have htaken := crashPasses_succ (hfew.resolve_right hslot)
    rw [hnext]
    exact ⟨(Nat.le_succ _).trans htaken, fun _ => htaken⟩
  · exact absurd (hpass.symm.trans hfalls) Bool.false_ne_true

/-- **A reset of a station whose images crash** is paid for by an entry that waits, or by the guard. -/
theorem crash_pays (lib : EspOta CStr) {s : AntiBrick} {reason : ResetReason} {io : FallbackIo} (hs : FactoryLast s)
    (hok : CrashLooping version k s (.reset reason io)) :
    [startedObs lib s.device reason io].countP passes +
        (provedPasses (s.device.reboot lib reason io) +
          waiting (fun _ => true) (s.device.reboot lib reason io).otadata) ≤
      provedPasses s.device + waiting (fun _ => true) s.device.otadata := by
  obtain ⟨-, rfl, hend⟩ := hok
  have hobs : startedObs lib s.device reason fallbackOk =
      .started (runningOf (lib.boot s.device.otadata)).image (runningOf (lib.boot s.device.otadata)).pendingVerify
        (s.device.fallsBack lib reason fallbackOk) := rfl
  have hota := reboot_otadata lib s.device reason fallbackOk
  rw [List.countP_singleton, hobs]
  cases hfalls : s.device.fallsBack lib reason fallbackOk with
  | true =>
      -- the guard erases the selection, and nothing is left to pay for
      rw [hfalls, if_pos rfl] at hota
      have hgone : provedPasses (s.device.reboot lib reason fallbackOk) = 0 := by
        rw [provedPasses, hota]
        simp
      rw [hgone, hota]
      cases (runningOf (lib.boot s.device.otadata)).image <;> exact Nat.zero_le _
  | false =>
      rw [hfalls, if_neg Bool.false_ne_true] at hota
      rcases boot_cases lib s.device.otadata with
        hnone | ⟨e, rest, hsub, hnew, heq⟩ | ⟨e, rest, hsub, hvalid, heq⟩
      · have hgone : provedPasses (s.device.reboot lib reason fallbackOk) = 0 := by
          rw [provedPasses, hota, hnone]
          simp
        rw [hgone, hota, hnone]
        exact Nat.zero_le _
      · have hslot : (s.device.load lib).running.slot ≠ .factory := by
          show (runningOf (lib.boot s.device.otadata)).slot ≠ .factory
          rw [heq]
          exact hs.slots e (hsub.subset List.mem_cons_self)
        have hkept : provedPasses (s.device.reboot lib reason fallbackOk) ≤ provedPasses s.device := by
          refine provedPasses_le ?_ (guard_lets hfalls hslot).1
          intro a ha hstate
          rw [hota, heq] at ha
          rcases List.mem_cons.mp ha with rfl | hrest
          · exact absurd hstate (by simp)
          · exact hsub.subset (List.mem_cons_of_mem _ hrest)
        have hpaid := waiting_le (p := fun _ => true) hsub
        rw [waiting_cons, if_pos ⟨hnew, rfl⟩] at hpaid
        rw [hota, heq, waiting_cons]
        simp only [runningOf, passes, if_true, reduceCtorEq, false_and, if_false]
        omega
      · have hslot : (s.device.load lib).running.slot ≠ .factory := by
          show (runningOf (lib.boot s.device.otadata)).slot ≠ .factory
          rw [heq]
          exact hs.slots e (hsub.subset List.mem_cons_self)
        have hmem : e ∈ s.device.otadata := hsub.subset List.mem_cons_self
        have hcrash : CrashReason reason := by
          rcases hend with hcrash | hrenewed | hfactory | hempty
          · exact hcrash
          · have hpending : (runningOf (lib.boot s.device.otadata)).pendingVerify = true := load_renewed hrenewed
            rw [heq, runningOf, hvalid] at hpending
            exact absurd hpending (by simp)
          · exact absurd hvalid (hs.factory hfactory e hmem)
          · rw [hempty] at hmem
            exact absurd hmem List.not_mem_nil
        have htaken := (guard_lets hfalls hslot).2 ((charged_iff _ reason fallbackOk).mpr (Or.inl hcrash))
        have hbefore : provedPasses s.device = crashPasses s.device.bootloop := if_pos ⟨e, hmem, hvalid⟩
        have hafter : provedPasses (s.device.reboot lib reason fallbackOk) =
            crashPasses (s.device.reboot lib reason fallbackOk).bootloop := by
          refine if_pos ⟨e, ?_, hvalid⟩
          rw [hota, heq]
          exact List.mem_cons_self
        have hwaiting := waiting_le (p := fun _ => true) hsub
        rw [hbefore, hafter, hota, heq]
        simp only [runningOf, passes, if_true]
        omega

/-- Nothing is confirmed while the health task does not decide. -/
theorem not_confirmed {s s' : AntiBrick} {e : AntiBrickEvent} {os : List AntiBrickObs}
    (hok : CrashLooping version k s e) (heffect : Effect lib version k s e s' os) (image : Option CStr) :
    .confirmed image ∉ os := by
  cases heffect with
  | proved _ _ _ _ hdecides => exact absurd hdecides hok.2
  | reset reason io => simp [startedObs]
  | granted => simp
  | quiet => exact List.not_mem_nil
  | survived => exact List.not_mem_nil
  | torn => exact List.not_mem_nil
  | rejected => exact List.not_mem_nil

theorem factoryLast_step (hkeeps : KeepsEntries lib) {s s' : AntiBrick} {e : AntiBrickEvent}
    {os : List AntiBrickObs} (hok : CrashLooping version k s e) (heffect : Effect lib version k s e s' os)
    (hs : FactoryLast s) : FactoryLast s' := by
  have hvalid (a : OtaEntry CStr) (ha : a ∈ s'.device.otadata) (hstate : a.state = .valid) :
      a ∈ s.device.otadata :=
    (valid_step hkeeps heffect hs.anchored a ha hstate).resolve_right (not_confirmed hok heffect _)
  refine ⟨anchored_step hok.1 heffect hs.anchored, ?_, ?_⟩
  · intro a ha
    cases heffect with
    | quiet _ hota => exact hs.slots a (hota ▸ ha)
    | reset reason io =>
        rcases mem_boot (mem_reboot ha) with hold | ⟨-, b, hold, hslot⟩
        · exact hs.slots a hold
        · exact hslot ▸ hs.slots b hold
    | survived => exact hs.slots a ha
    | torn writes => exact hs.slots a ha
    | @granted _ _ _ _ _ slots _ _ _ hota _ _ _ hbegun =>
        obtain ⟨es', hselect, hmem, -⟩ := select_spec hkeeps s.device version slots
        rw [hota, hselect] at ha
        rcases hmem a ha with hold | ⟨hslot, -, -⟩
        · exact hs.slots a hold
        · obtain ⟨url, e, hitem, heq, -⟩ := hbegun a.slot hslot
          exact fun hfactory => hok.2 url e hitem (hfactory ▸ heq)
    | proved _ _ _ _ hdecides => exact absurd hdecides hok.2
    | rejected _ _ _ _ _ hdecides _ => exact absurd hdecides hok.2
  · intro hnone a ha hstate
    have hold := hvalid a ha hstate
    cases heffect with
    | quiet _ _ hrunning => exact hs.factory (hrunning ▸ hnone) a hold hstate
    | reset reason io =>
        have hboot := mem_reboot ha
        change (runningOf (lib.boot s.device.otadata)).image = none at hnone
        cases hsel : lib.boot s.device.otadata with
        | nil => exact absurd (hsel ▸ hboot) List.not_mem_nil
        | cons e es =>
            rw [hsel] at hnone
            exact absurd hnone (Option.some_ne_none _)
    | survived => exact hs.factory hnone a hold hstate
    | torn writes => exact hs.factory hnone a hold hstate
    | granted _ _ _ _ hrunning => exact hs.factory (hrunning ▸ hnone) a hold hstate
    | proved _ _ _ _ hdecides => exact absurd hdecides hok.2
    | rejected _ _ _ _ _ hdecides _ => exact absurd hdecides hok.2

/-- **The ledger of a station whose images crash.** -/
theorem looping_pays (hkeeps : KeepsEntries lib) (hfits : version.size ≤ storedB) {s s' : AntiBrick}
    {e : AntiBrickEvent} {os : List AntiBrickObs} (hok : CrashLooping version k s e)
    (heffect : Effect lib version k s e s' os) (hs : FactoryLast s) :
    os.countP passes + (provedPasses s'.device + waiting (fun _ => true) s'.device.otadata +
        k * remaining version s'.nvs) ≤
      provedPasses s.device + waiting (fun _ => true) s.device.otadata + k * remaining version s.nvs := by
  cases heffect with
  | quiet hnvs hota _ hbootloop =>
      have hsame : provedPasses s'.device = provedPasses s.device := by
        rw [provedPasses, provedPasses, hota, hbootloop]
      rw [hnvs, hota, hsame]
      exact (Nat.zero_add _).le
  | reset reason io =>
      have hpaid := crash_pays lib hs hok
      dsimp only
      omega
  | survived =>
      have hgone : provedPasses { s.device with bootloop := 0 } = 0 := by
        refine if_neg fun h => ?_
        obtain ⟨a, ha, hstate⟩ := h
        exact hs.factory hok.2 a ha hstate
      rw [hgone]
      simp
  | torn writes =>
      have hleft := Nat.mul_le_mul_left k (torn_remaining hfits s.nvs writes)
      simpa using hleft
  | @granted _ _ _ _ _ slots _ hgranted hnvs hota _ hbootloop hfew _ =>
      obtain ⟨es', hselect, hmem, hcount⟩ := select_spec hkeeps s.device version slots
      have hadded := hcount (fun _ => true)
      have hspent := Nat.mul_le_mul_left k (granted_remaining hfits hgranted)
      rw [Nat.mul_add, Nat.mul_one] at hspent
      rw [hselect] at hota
      have hkept : provedPasses s'.device ≤ provedPasses s.device := by
        refine provedPasses_le ?_ (Nat.le_of_eq (congrArg crashPasses hbootloop))
        intro a ha hstate
        rw [hota] at ha
        rcases hmem a ha with hold | ⟨_, _, hnew⟩
        · exact hold
        · exact absurd (hstate.symm.trans hnew) (by decide)
      rw [hnvs, hota]
      show 0 + _ ≤ _
      dsimp only
      omega
  | proved _ _ _ _ hdecides => exact absurd hdecides hok.2
  | rejected _ _ _ _ _ hdecides _ => exact absurd hdecides hok.2

/-- A station between two updates: no image waits or is on probation. -/
structure AtRest (s : Station CStr) : Prop where
  noneWaits : ∀ a ∈ s.otadata, a.state ≠ .new
  slots : ∀ a ∈ s.otadata, a.slot ≠ .factory
  factory : s.running.image = none → ∀ a ∈ s.otadata, a.state ≠ .valid
  proved : s.running.pendingVerify = false

end

/-! ### A bad release on the bootloader of the device -/

theorem keepsEntries_espOta : KeepsEntries espOta := fun slot _ es =>
  ⟨es.filter fun e => e.slot ≠ slot, List.filter_sublist, rfl⟩

/-- `1.1.5`. -/
def version115 : CStr := ⟨[0x31, 0x2e, 0x31, 0x2e, 0x35], by decide⟩

/-- Each image reports the version that it was published as, the factory image `1.1.5`. -/
def publishedVersion (image : Option CStr) : CStr := image.getD version115

/-- `1.1.6` is on offer, and downloads. -/
def badCheck (update : Cut) : AntiBrickEvent :=
  .check ⟨true, some ⟨some version116, true⟩, 136000, true, 136000, nvsOk⟩ [.url appBin goodEnv] .returns update

/-- It is installed and panics. -/
def badNight (update : Cut) : List AntiBrickEvent :=
  [badCheck update, .reset .sw fallbackOk, .reset .panic fallbackOk]

/-- Three nights, on one of which the power is lost right after the selection, and a fourth check. -/
def badNights : List AntiBrickEvent :=
  badNight .returns ++ badNight (.powerLoss 1) ++ badNight .returns ++ [badCheck .returns]

def factoryBrick : AntiBrick := ⟨⟨none, none⟩, factoryStation, .booting⟩

theorem badCheck_ok (s : AntiBrick) (update : Cut) (hproved : s.device.running.pendingVerify = false) :
    SingleRelease version116 1 s (badCheck update) := by
  refine ⟨rfl, fun m hm => (Option.mem_some.mp hm).symm, by decide, ?_⟩
  exact fun hpending => absurd (hproved.symm.trans hpending) (by decide)

/-- A station that runs `1.1.5` from a slot. -/
def provedBrick : AntiBrick :=
  ⟨⟨none, none⟩, ⟨0, 0, [⟨.ota1, version115, .valid⟩], ⟨.ota1, some version115, false⟩⟩, .booting⟩

/-- It panics until the guard falls back, and then the bad release comes. -/
def crashRun : List AntiBrickEvent :=
  List.replicate 5 (.reset .panic fallbackOk) ++ .reset .sw fallbackOk :: badNights

end RtkdataFw.Update
