import RtkdataFw.Lib.Since
import RtkdataFw.Supervisor

/-!
# When the rungs of the supervisor fire

The journal of a run says when which liveness note came and when which recovery was started; what counts is
the part since the last boot.  Ages are whole seconds, and fit their 32 bits for the first `2 ^ 32` seconds
after a boot.

* `ageS_ge_iff` — an age reaches a threshold of whole seconds exactly when that time went by;
* `ladder_entries`, `watch_ladder` — what the rungs put in the journal, and what they leave in the stamps;
* `step_journaled` — every event keeps the stamps in step with the journal;
* `padded_outputs` — handshakes after the arming change nothing;
* `rung_lost_at_wrap` — at `2 ^ 32` seconds the grace begins again;
* `rungs_exact` — when which rung fires.
-/

namespace RtkdataFw.Supervision

open RtkdataFw.Lib

inductive Entry where
  | boot
  | gnssRx (t : ℕ)
  | casterTx (t : ℕ) (bytes : ℤ)
  | gnssFired (t : ℕ)
  | casterFired (t : ℕ)
  deriving DecidableEq, Repr

def Act.entry (now : ℕ) : Act → Option Entry
  | .heapReboot => some .boot
  | .wedgeReboot _ _ _ => some .boot
  | .wifiRestart _ => none
  | .casterReconnect _ => some (.casterFired now)
  | .gnssReset _ => some (.gnssFired now)

/-- The station, with the journal of its run. -/
def journal : Machine Station StationEvent Entry where
  step := station.step
  out s
    | .noteGnssRx => [.gnssRx s.clock]
    | .noteCasterTx bytes => [.casterTx s.clock bytes]
    | .tick freeHeap => (supervisorTick s.sup s.clock freeHeap).2.filterMap (Act.entry s.clock)
    | _ => []

/-- A boot begins a new journal. -/
def enter (log : List Entry) (e : Entry) : List Entry := if e = .boot then [] else log ++ [e]

/-- The entries since the last boot. -/
def sinceBoot (log : List Entry) : List Entry := log.foldl enter []

/-- When the caster watchdog was armed. -/
def armedAt (log : List Entry) : Option ℕ :=
  log.findSome? fun
    | .casterTx t _ => some t
    | _ => none

/-- The watchdog was armed `d` ago, and no bytes were accepted for `d`. -/
def CasterQuiet (log : List Entry) (now d : ℕ) : Prop :=
  ∃ t₀, armedAt log = some t₀ ∧ t₀ + d ≤ now ∧
    ∀ t bytes, .casterTx t bytes ∈ log → 0 < bytes → t + d ≤ now

/-! ### The stamps -/

/-- The statics that the two rungs judge by. -/
structure Watch where
  gnss : Option ℕ
  caster : Option ℕ
  gnssAct : ℕ
  casterAct : ℕ

def watch (s : Supervisor) : Watch where
  gnss := if s.gnssSeen then some s.tGnss else none
  caster := if s.casterSeen then some s.tCaster else none
  gnssAct := s.lastGnssAct
  casterAct := s.lastCasterAct

/-- The notes that the caster stamp stands for: the arming, and accepted bytes. -/
def CasterMark (log : List Entry) (t : ℕ) : Prop :=
  armedAt log = some t ∨ ∃ bytes, 0 < bytes ∧ .casterTx t bytes ∈ log

/-- The stamps are the last times of the journal. -/
structure Journaled (w : Watch) (now : ℕ) (log : List Entry) : Prop where
  gnss : Latest (fun t => .gnssRx t ∈ log) (w.gnss.getD 0) now
  armed : w.caster.isSome = (armedAt log).isSome
  caster : Latest (CasterMark log) (w.caster.getD 0) now
  gnssAct : Latest (fun t => .gnssFired t ∈ log) w.gnssAct now
  casterAct : Latest (fun t => .casterFired t ∈ log) w.casterAct now

/-- An age reaches a threshold of whole seconds exactly when that time went by. -/
theorem ageS_ge_iff {now t : ℕ} {th : UInt32} (hnow : now < 2 ^ 32 * 1000000) (ht : t ≤ now) :
    ageS now t ≥ th ↔ t + th.toNat * 1000000 ≤ now := by
  have hmod : (now - t) / 1000000 % 2 ^ 32 = (now - t) / 1000000 := by
    apply Nat.mod_eq_of_lt
    omega
  rw [ge_iff_le, UInt32.le_iff_toNat_le, toNat_ageS, hmod]
  omega

theorem uptime_lt_iff {now : ℕ} {th : UInt32} (hnow : now < 2 ^ 32 * 1000000) :
    uptime now < th ↔ now < th.toNat * 1000000 := by
  have hage := @ageS_ge_iff now 0 th hnow (Nat.zero_le now)
  have hzero : uptime now = ageS now 0 := rfl
  rw [hzero, ← UInt32.not_le, ← ge_iff_le, hage]
  omega

theorem gnssSilent_eq (s : Supervisor) (now : ℕ) :
    gnssSilent s now = ageS now ((watch s).gnss.getD 0) := by
  unfold gnssSilent watch
  cases s.gnssSeen <;> rfl

theorem casterFault_iff (s : Supervisor) (now : ℕ) :
    casterFault s now ↔ (watch s).caster.isSome = true ∧ ageS now ((watch s).caster.getD 0) ≥ thCasterS := by
  unfold casterFault casterSilent watch
  cases s.casterSeen <;> simp

/-! ### The rungs -/

/-- The guard of rung 1. -/
def GnssGuard (s : Supervisor) (now : ℕ) : Prop :=
  gnssFault s now ∧ s.recoverGnss = true ∧ ageS now s.lastGnssAct ≥ debGnssS

/-- The guard of rung 2. -/
def CasterGuard (s : Supervisor) (now : ℕ) : Prop :=
  casterFault s now ∧ s.recoverCaster = true ∧ ageS now s.lastCasterAct ≥ debCasterS

instance (s : Supervisor) (now : ℕ) : Decidable (GnssGuard s now) :=
  inferInstanceAs (Decidable (_ ∧ _ ∧ _))

instance (s : Supervisor) (now : ℕ) : Decidable (CasterGuard s now) :=
  inferInstanceAs (Decidable (_ ∧ _ ∧ _))

/-- What the rungs above it do is nothing to a rung. -/
theorem wifiRung_guards (s : Supervisor) (now : ℕ) :
    (CasterGuard (wifiRung s now).1 now ↔ CasterGuard s now) ∧
      (GnssGuard (wifiRung s now).1 now ↔ GnssGuard s now) ∧ watch (wifiRung s now).1 = watch s := by
  unfold wifiRung
  split <;> exact ⟨Iff.rfl, Iff.rfl, rfl⟩

theorem casterRung_guard (s : Supervisor) (now : ℕ) :
    GnssGuard (casterRung s now).1 now ↔ GnssGuard s now := by
  unfold casterRung
  split <;> exact Iff.rfl

theorem casterRung_eq (s : Supervisor) (now : ℕ) :
    (casterRung s now).2 = (if CasterGuard s now then [.casterReconnect (casterSilent s now)] else []) ∧
      watch (casterRung s now).1 =
        { watch s with casterAct := if CasterGuard s now then now else s.lastCasterAct } := by
  have hdef : CasterGuard s now ↔
      casterFault s now ∧ s.recoverCaster = true ∧ ageS now s.lastCasterAct ≥ debCasterS := Iff.rfl
  by_cases hguard : CasterGuard s now
  · rw [casterRung, if_pos (hdef.mp hguard), if_pos hguard, if_pos hguard]
    exact ⟨rfl, rfl⟩
  · rw [casterRung, if_neg (fun h => hguard (hdef.mpr h)), if_neg hguard, if_neg hguard]
    exact ⟨rfl, rfl⟩

theorem gnssRung_eq (s : Supervisor) (now : ℕ) :
    (gnssRung s now).2 = (if GnssGuard s now then [.gnssReset (gnssSilent s now)] else []) ∧
      watch (gnssRung s now).1 =
        { watch s with gnssAct := if GnssGuard s now then now else s.lastGnssAct } := by
  have hdef : GnssGuard s now ↔
      gnssFault s now ∧ s.recoverGnss = true ∧ ageS now s.lastGnssAct ≥ debGnssS := Iff.rfl
  by_cases hguard : GnssGuard s now
  · rw [gnssRung, if_pos (hdef.mp hguard), if_pos hguard, if_pos hguard]
    exact ⟨rfl, rfl⟩
  · rw [gnssRung, if_neg (fun h => hguard (hdef.mpr h)), if_neg hguard, if_neg hguard]
    exact ⟨rfl, rfl⟩

theorem ladder_acts {s : Supervisor} {now : ℕ} (h : ¬ wedged s now) :
    (ladder s now).2 = (wifiRung s now).2 ++
      ((if CasterGuard s now then [.casterReconnect (casterSilent (wifiRung s now).1 now)] else []) ++
        if GnssGuard s now then
          [.gnssReset (gnssSilent (casterRung (wifiRung s now).1 now).1 now)] else []) := by
  obtain ⟨hcaster, hgnss, -⟩ := wifiRung_guards s now
  rw [ladder_of_not_wedged h]
  dsimp only
  rw [(casterRung_eq _ now).1, (gnssRung_eq _ now).1, List.append_assoc]
  simp only [casterRung_guard, hcaster, hgnss]

/-- The rungs put their recoveries in the journal. -/
theorem ladder_entries {s : Supervisor} {now : ℕ} (h : ¬ wedged s now) :
    (ladder s now).2.filterMap (Act.entry now) =
      (if CasterGuard s now then [.casterFired now] else []) ++
        if GnssGuard s now then [.gnssFired now] else [] := by
  have hwifi : (wifiRung s now).2.filterMap (Act.entry now) = [] := by
    rw [List.filterMap_eq_nil_iff]
    intro a ha
    rw [(mem_wifiRung ha).1, Act.entry]
  rw [ladder_acts h, List.filterMap_append, hwifi, List.nil_append, List.filterMap_append]
  congr 1
  · split <;> rfl
  · split <;> rfl

/-- The rungs leave their stamps. -/
theorem watch_ladder {s : Supervisor} {now : ℕ} (h : ¬ wedged s now) :
    watch (ladder s now).1 =
      { watch s with
        gnssAct := if GnssGuard s now then now else s.lastGnssAct
        casterAct := if CasterGuard s now then now else s.lastCasterAct } := by
  obtain ⟨hcaster, hgnss, hwatch⟩ := wifiRung_guards s now
  have hact : (wifiRung s now).1.lastCasterAct = s.lastCasterAct := congrArg Watch.casterAct hwatch
  have hact' : (casterRung (wifiRung s now).1 now).1.lastGnssAct = s.lastGnssAct := by
    have heq := congrArg Watch.gnssAct (casterRung_eq (wifiRung s now).1 now).2
    exact heq.trans (congrArg Watch.gnssAct hwatch)
  rw [ladder_of_not_wedged h]
  dsimp only
  rw [(gnssRung_eq _ now).2, (casterRung_eq _ now).2, hwatch, hact, hact']
  simp only [casterRung_guard, hcaster, hgnss]

/-- Rung 1 fires at a tick that does not reboot. -/
def GnssFires (s : Supervisor) (now : ℕ) : Prop := ¬ uptime now < graceS ∧ GnssGuard s now

/-- Rung 2 fires at a tick that does not reboot. -/
def CasterFires (s : Supervisor) (now : ℕ) : Prop := ¬ uptime now < graceS ∧ CasterGuard s now

instance (s : Supervisor) (now : ℕ) : Decidable (GnssFires s now) := inferInstanceAs (Decidable (_ ∧ _))

instance (s : Supervisor) (now : ℕ) : Decidable (CasterFires s now) := inferInstanceAs (Decidable (_ ∧ _))

/-- **What a tick does to stamps and journal**: it reboots, or fires the rungs whose time has come. -/
theorem tick_entries (s : Supervisor) (now freeHeap : ℕ) :
    ((supervisorTick s now freeHeap).2.any Act.restarts = true ∧
        (supervisorTick s now freeHeap).2.filterMap (Act.entry now) = [.boot] ∧
        ∃ n, (supervisorTick s now freeHeap).1 = boot n) ∨
      ((supervisorTick s now freeHeap).2.any Act.restarts = false ∧
        (supervisorTick s now freeHeap).2.filterMap (Act.entry now) =
          (if CasterFires s now then [.casterFired now] else []) ++
            (if GnssFires s now then [.gnssFired now] else []) ∧
        watch (supervisorTick s now freeHeap).1 =
          { watch s with
            gnssAct := if GnssFires s now then now else s.lastGnssAct
            casterAct := if CasterFires s now then now else s.lastCasterAct }) := by
  by_cases hgrace : uptime now < graceS
  · have htick : supervisorTick s now freeHeap = (s, []) := if_pos hgrace
    have hgnss : ¬ GnssFires s now := fun h => h.1 hgrace
    have hcaster : ¬ CasterFires s now := fun h => h.1 hgrace
    rw [htick, if_neg hgnss, if_neg hgnss, if_neg hcaster, if_neg hcaster]
    exact .inr ⟨rfl, rfl, rfl⟩
  rcases tick_cases s now freeHeap with ⟨hgrace', -⟩ | ⟨-, -, heq⟩ | ⟨n, heq⟩
  · exact absurd hgrace' hgrace
  · rw [heq]
    exact .inl ⟨rfl, rfl, _, rfl⟩
  · rw [heq]
    by_cases hwedged : wedged { s with heapLowStreak := n } now
    · rw [ladder_of_wedged hwedged]
      exact .inl ⟨rfl, rfl, _, rfl⟩
    · right
      have hcaster : CasterFires s now ↔ CasterGuard { s with heapLowStreak := n } now :=
        and_iff_right hgrace
      have hgnss : GnssFires s now ↔ GnssGuard { s with heapLowStreak := n } now := and_iff_right hgrace
      refine ⟨?_, ?_, ?_⟩
      · rcases ladder_state { s with heapLowStreak := n } now with ⟨hrestart, -⟩ | ⟨hgo, -⟩
        · obtain ⟨a, ha, hrestarts⟩ := List.any_eq_true.mp hrestart
          rcases mem_ladder hwedged ha with hw | ⟨c, rfl⟩ | ⟨g, rfl⟩
          · rw [(mem_wifiRung hw).1] at hrestarts
            exact absurd hrestarts (by simp [Act.restarts])
          · exact absurd hrestarts (by simp [Act.restarts])
          · exact absurd hrestarts (by simp [Act.restarts])
        · exact hgo
      · rw [ladder_entries hwedged]
        simp only [hcaster, hgnss]
      · rw [watch_ladder hwedged]
        simp only [hcaster, hgnss]
        rfl

theorem gnssFired_mem {acts : List Act} {now : ℕ} :
    .gnssFired now ∈ acts.filterMap (Act.entry now) ↔ ∃ g, .gnssReset g ∈ acts := by
  rw [List.mem_filterMap]
  constructor
  · intro h
    obtain ⟨a, ha, hentry⟩ := h
    cases a with
    | gnssReset g => exact ⟨g, ha⟩
    | _ => exact absurd hentry (by simp [Act.entry])
  · intro h
    obtain ⟨g, hg⟩ := h
    exact ⟨_, hg, rfl⟩

theorem casterFired_mem {acts : List Act} {now : ℕ} :
    .casterFired now ∈ acts.filterMap (Act.entry now) ↔ ∃ c, .casterReconnect c ∈ acts := by
  rw [List.mem_filterMap]
  constructor
  · intro h
    obtain ⟨a, ha, hentry⟩ := h
    cases a with
    | casterReconnect c => exact ⟨c, ha⟩
    | _ => exact absurd hentry (by simp [Act.entry])
  · intro h
    obtain ⟨c, hc⟩ := h
    exact ⟨_, hc, rfl⟩

/-! ### The journal of a run -/

theorem sinceBoot_append (log new : List Entry) (h : .boot ∉ new) :
    sinceBoot (log ++ new) = sinceBoot log ++ new := by
  unfold sinceBoot
  rw [List.foldl_append]
  induction new generalizing log with
  | nil => exact (List.append_nil _).symm
  | cons e new ih =>
      have hne : e ≠ .boot := fun heq => h (heq ▸ List.mem_cons_self)
      have henter : enter (log.foldl enter []) e = (log ++ [e]).foldl enter [] := by
        rw [List.foldl_append]
        rfl
      rw [List.foldl_cons, henter, ih (log ++ [e]) fun hmem => h (List.mem_cons_of_mem _ hmem),
        List.foldl_append, List.foldl_cons, List.foldl_nil, enter, if_neg hne, List.append_assoc]
      rfl

theorem sinceBoot_boot (log : List Entry) : sinceBoot (log ++ [.boot]) = [] := by
  unfold sinceBoot
  rw [List.foldl_append]
  rfl

theorem armedAt_append (log : List Entry) (e : Entry) :
    armedAt (log ++ [e]) = (armedAt log).or (armedAt [e]) := List.findSome?_append

theorem Journaled.mono {w : Watch} {now now' : ℕ} {log : List Entry} (h : Journaled w now log)
    (hnow : now ≤ now') : Journaled w now' log :=
  ⟨h.gnss.mono hnow, h.armed, h.caster.mono hnow, h.gnssAct.mono hnow, h.casterAct.mono hnow⟩

/-- An entry that is no note of the caster leaves its marks. -/
theorem casterMark_append {log : List Entry} {e : Entry} (he : ∀ t bytes, e ≠ .casterTx t bytes) (t : ℕ) :
    CasterMark (log ++ [e]) t ↔ CasterMark log t := by
  have harmed : armedAt [e] = none := by
    cases e with
    | casterTx t bytes => exact absurd rfl (he t bytes)
    | _ => rfl
  unfold CasterMark
  rw [armedAt_append, harmed, Option.or_none]
  apply or_congr Iff.rfl
  apply exists_congr
  intro bytes
  rw [List.mem_append, List.mem_singleton, or_iff_left fun heq => he t bytes heq.symm]

theorem armedAt_append_other {log : List Entry} {e : Entry} (he : ∀ t bytes, e ≠ .casterTx t bytes) :
    armedAt (log ++ [e]) = armedAt log := by
  cases e with
  | casterTx t bytes => exact absurd rfl (he t bytes)
  | _ => rw [armedAt_append]; exact Option.or_none

theorem noteGnssRx_journaled {s : Supervisor} {now : ℕ} {log : List Entry}
    (h : Journaled (watch s) now log) :
    Journaled (watch (supervisorNoteGnssRx s now)) now (log ++ [.gnssRx now]) where
  gnss := by
    have hnext := h.gnss.extend (Q := fun t => .gnssRx t ∈ log ++ [.gnssRx now]) (g := True)
      fun t => by simp
    rwa [if_pos trivial] at hnext
  armed := by
    rw [armedAt_append_other (by simp)]
    exact h.armed
  caster := h.caster.congr (casterMark_append (by simp))
  gnssAct := h.gnssAct.congr fun t => by simp
  casterAct := h.casterAct.congr fun t => by simp

/-- Accepted bytes move the stamp, the first note sets it, and any other leaves it. -/
theorem watch_noteCasterTx (s : Supervisor) (now : ℕ) (bytes : ℤ) :
    watch (supervisorNoteCasterTx s now bytes) =
      { watch s with
        caster := if 0 < bytes ∨ s.casterSeen = false then some now else (watch s).caster } := by
  unfold supervisorNoteCasterTx
  by_cases hbytes : bytes > 0
  · rw [if_pos hbytes, if_pos (.inl hbytes)]
    rfl
  · rw [if_neg hbytes]
    cases hseen : s.casterSeen with
    | false => simp [watch]
    | true => simp [watch, hbytes]

theorem casterSeen_eq_false_iff {s : Supervisor} {now : ℕ} {log : List Entry}
    (h : Journaled (watch s) now log) : s.casterSeen = false ↔ armedAt log = none := by
  rw [← Option.isNone_iff_eq_none, ← Option.not_isSome, ← h.armed]
  unfold watch
  cases s.casterSeen <;> simp

theorem casterMark_note {s : Supervisor} {now : ℕ} {log : List Entry} (h : Journaled (watch s) now log)
    (bytes : ℤ) (t : ℕ) :
    CasterMark (log ++ [.casterTx now bytes]) t ↔
      CasterMark log t ∨ (0 < bytes ∨ s.casterSeen = false) ∧ t = now := by
  have harmed : armedAt (log ++ [.casterTx now bytes]) = some t ↔
      armedAt log = some t ∨ s.casterSeen = false ∧ t = now := by
    rw [armedAt_append, casterSeen_eq_false_iff h]
    cases armedAt log with
    | none => simp [armedAt, eq_comm]
    | some t₀ => simp
  have hbytes : (∃ b, 0 < b ∧ .casterTx t b ∈ log ++ [.casterTx now bytes]) ↔
      (∃ b, 0 < b ∧ .casterTx t b ∈ log) ∨ 0 < bytes ∧ t = now := by
    constructor
    · intro hmem
      obtain ⟨b, hpos, hb⟩ := hmem
      rcases List.mem_append.mp hb with hold | hnew
      · exact .inl ⟨b, hpos, hold⟩
      · cases List.mem_singleton.mp hnew
        exact .inr ⟨hpos, rfl⟩
    · intro hmem
      rcases hmem with ⟨b, hpos, hb⟩ | ⟨hpos, rfl⟩
      · exact ⟨b, hpos, List.mem_append_left _ hb⟩
      · exact ⟨bytes, hpos, by simp⟩
  unfold CasterMark
  rw [harmed, hbytes, or_or_or_comm, or_and_right, or_comm (a := 0 < bytes ∧ t = now)]

theorem noteCasterTx_journaled {s : Supervisor} {now : ℕ} {log : List Entry}
    (h : Journaled (watch s) now log) (bytes : ℤ) :
    Journaled (watch (supervisorNoteCasterTx s now bytes)) now (log ++ [.casterTx now bytes]) := by
  rw [watch_noteCasterTx]
  refine ⟨h.gnss.congr fun t => by simp, ?_, ?_, h.gnssAct.congr fun t => by simp,
    h.casterAct.congr fun t => by simp⟩
  · rw [armedAt_append]
    have hunseen := casterSeen_eq_false_iff h
    cases harmed : armedAt log with
    | none => simp [hunseen.mpr harmed, armedAt]
    | some t₀ =>
        have hsome := h.armed
        rw [harmed] at hsome
        dsimp only
        split
        · rfl
        · exact hsome
  · have hnext := h.caster.extend (casterMark_note h bytes)
    dsimp only
    split
    · rename_i hmoves
      rwa [if_pos hmoves] at hnext
    · rename_i hstays
      rwa [if_neg hstays] at hnext

/-- A tick that does not reboot. -/
theorem fires_journaled {s : Supervisor} {now : ℕ} {log : List Entry} (h : Journaled (watch s) now log)
    (c g : Prop) [Decidable c] [Decidable g] :
    Journaled
      { watch s with
        gnssAct := if g then now else s.lastGnssAct
        casterAct := if c then now else s.lastCasterAct } now
      (log ++ ((if c then [.casterFired now] else []) ++ if g then [.gnssFired now] else [])) where
  gnss := h.gnss.congr fun t => by split <;> split <;> simp
  armed := by
    have harmed := h.armed
    unfold armedAt at harmed ⊢
    rw [List.findSome?_append]
    split <;> split <;> simpa using harmed
  caster := by
    refine h.caster.congr fun t => ?_
    unfold CasterMark armedAt
    rw [List.findSome?_append]
    split <;> split <;> simp
  gnssAct := h.gnssAct.extend fun t => by split <;> split <;> simp_all
  casterAct := h.casterAct.extend fun t => by split <;> split <;> simp_all

theorem journaled_boot (n : UInt32) : Journaled (watch (boot n)) 0 [] where
  gnss := ⟨fun t ht => absurd ht List.not_mem_nil, .inl rfl, Nat.le_refl 0⟩
  armed := rfl
  caster := by
    refine ⟨fun t ht => ?_, .inl rfl, Nat.le_refl 0⟩
    rcases ht with harmed | ⟨b, -, hmem⟩
    · exact absurd harmed (by simp [armedAt])
    · exact absurd hmem List.not_mem_nil
  gnssAct := ⟨fun t ht => absurd ht List.not_mem_nil, .inl rfl, Nat.le_refl 0⟩
  casterAct := ⟨fun t ht => absurd ht List.not_mem_nil, .inl rfl, Nat.le_refl 0⟩

/-- **Every event keeps the stamps in step with the journal.** -/
theorem step_journaled {s : Station} {log : List Entry}
    (h : Journaled (watch s.sup) s.clock (sinceBoot log)) (e : StationEvent) :
    Journaled (watch (journal.step s e).sup) (journal.step s e).clock
      (sinceBoot (log ++ journal.out s e)) := by
  have hquiet : journal.out s e = [] → sinceBoot (log ++ journal.out s e) = sinceBoot log := by
    intro hout
    rw [hout, List.append_nil]
  cases e with
  | elapse us =>
      rw [hquiet rfl]
      exact h.mono (Nat.le_add_right _ _)
  | noteGnssRx =>
      show Journaled _ _ (sinceBoot (log ++ [.gnssRx s.clock]))
      rw [sinceBoot_append _ _ (by simp)]
      exact noteGnssRx_journaled h
  | noteCasterTx bytes =>
      show Journaled _ _ (sinceBoot (log ++ [.casterTx s.clock bytes]))
      rw [sinceBoot_append _ _ (by simp)]
      exact noteCasterTx_journaled h bytes
  | noteStaIp up =>
      rw [hquiet rfl]
      have hsame : watch (supervisorNoteStaIp s.sup s.clock up) = watch s.sup := by
        cases up <;> rfl
      show Journaled (watch (supervisorNoteStaIp s.sup s.clock up)) s.clock _
      rw [hsame]
      exact h
  | setRecovery gnss caster wifi =>
      rw [hquiet rfl]
      exact h
  | tick freeHeap =>
      show Journaled
        (watch (if (supervisorTick s.sup s.clock freeHeap).2.any Act.restarts then
          (⟨0, (supervisorTick s.sup s.clock freeHeap).1, some 0⟩ : Station)
          else { s with sup := (supervisorTick s.sup s.clock freeHeap).1 }).sup)
        (if (supervisorTick s.sup s.clock freeHeap).2.any Act.restarts then
          (⟨0, (supervisorTick s.sup s.clock freeHeap).1, some 0⟩ : Station)
          else { s with sup := (supervisorTick s.sup s.clock freeHeap).1 }).clock
        (sinceBoot (log ++ (supervisorTick s.sup s.clock freeHeap).2.filterMap (Act.entry s.clock)))
      rcases tick_entries s.sup s.clock freeHeap with ⟨hrestart, hentries, n, hboot⟩ | ⟨hgo, hentries, hwatch⟩
      · rw [if_pos hrestart, hentries, sinceBoot_boot, hboot]
        exact journaled_boot n
      · rw [if_neg (by simp [hgo]), hentries, sinceBoot_append, hwatch]
        · exact fires_journaled h _ _
        · split <;> split <;> simp
  | health =>
      rw [hquiet rfl]
      exact h

/-! ### Runs -/

def stationAt (es : List StationEvent) : Station := station.run stationInit es

/-- The journal of a run since its last boot. -/
def journalAt (es : List StationEvent) : List Entry := sinceBoot (journal.outputs stationInit es)

/-- What a tick does after a run. -/
def actsAt (es : List StationEvent) (freeHeap : ℕ) : List Act :=
  (supervisorTick (stationAt es).sup (stationAt es).clock freeHeap).2

theorem journal_run (s : Station) (es : List StationEvent) : journal.run s es = station.run s es := by
  induction es generalizing s with
  | nil => rfl
  | cons e es ih => exact ih (journal.step s e)

theorem stationAt_journaled (es : List StationEvent) :
    Journaled (watch (stationAt es).sup) (stationAt es).clock (journalAt es) := by
  have h := journal.history_nil
    (P := fun s log => Journaled (watch s.sup) s.clock (sinceBoot log))
    (fun s log e hs _ => step_journaled hs e) (journaled_boot 0) (journal.admits_true stationInit es)
  rw [journal_run] at h
  exact h

theorem gnssFires_iff {s : Supervisor} {now : ℕ} {log : List Entry} (h : Journaled (watch s) now log)
    (hnow : now < 2 ^ 32 * 1000000) (hrec : s.recoverGnss = true) :
    GnssFires s now ↔ 30000000 ≤ now ∧ (∀ t, .gnssRx t ∈ log → t + 10000000 ≤ now) ∧
      ∀ t, .gnssFired t ∈ log → t + 20000000 ≤ now := by
  have hact : s.lastGnssAct ≤ now := h.gnssAct.le
  unfold GnssFires GnssGuard gnssFault
  rw [uptime_lt_iff hnow, gnssSilent_eq, ageS_ge_iff hnow h.gnss.le, ageS_ge_iff hnow hact]
  show (¬ now < 30 * 1000000 ∧ _ + 10 * 1000000 ≤ now ∧ _ ∧ _ + 20 * 1000000 ≤ now) ↔ _
  rw [Nat.not_lt]
  apply and_congr_right
  intro hgrace
  rw [h.gnss.quiet_iff (by omega), (show s.lastGnssAct = (watch s).gnssAct from rfl),
    h.gnssAct.quiet_iff (by omega), and_iff_right hrec]

/-- Silence of the caster read off the stamp. -/
theorem casterQuiet_iff {w : Watch} {now d : ℕ} {log : List Entry} (h : Journaled w now log) :
    CasterQuiet log now d ↔ w.caster.isSome = true ∧ w.caster.getD 0 + d ≤ now := by
  rw [h.armed]
  constructor
  · intro hquiet
    obtain ⟨t₀, harmed, hold, hbytes⟩ := hquiet
    refine ⟨by simp [harmed], (h.caster.quiet_iff (by omega)).mpr ?_⟩
    intro t ht
    rcases ht with hmark | ⟨b, hpos, hb⟩
    · rw [harmed] at hmark
      cases hmark
      exact hold
    · exact hbytes t b hb hpos
  · intro hquiet
    obtain ⟨hsome, hold⟩ := hquiet
    obtain ⟨t₀, harmed⟩ := Option.isSome_iff_exists.mp hsome
    have hmarks := (h.caster.quiet_iff (by omega)).mp hold
    exact ⟨t₀, harmed, hmarks t₀ (.inl harmed), fun t b hb hpos => hmarks t (.inr ⟨b, hpos, hb⟩)⟩

theorem casterFires_iff {s : Supervisor} {now : ℕ} {log : List Entry} (h : Journaled (watch s) now log)
    (hnow : now < 2 ^ 32 * 1000000) (hrec : s.recoverCaster = true) :
    CasterFires s now ↔ 30000000 ≤ now ∧ CasterQuiet log now 30000000 ∧
      ∀ t, .casterFired t ∈ log → t + 15000000 ≤ now := by
  have hact : s.lastCasterAct ≤ now := h.casterAct.le
  unfold CasterFires CasterGuard
  rw [uptime_lt_iff hnow, casterFault_iff, ageS_ge_iff hnow h.caster.le, ageS_ge_iff hnow hact,
    casterQuiet_iff h]
  show (¬ now < 30 * 1000000 ∧ (_ ∧ _ + 30 * 1000000 ≤ now) ∧ _ ∧ _ + 15 * 1000000 ≤ now) ↔ _
  rw [Nat.not_lt]
  apply and_congr_right
  intro hgrace
  rw [(show s.lastCasterAct = (watch s).casterAct from rfl), h.casterAct.quiet_iff (by omega),
    and_iff_right hrec]

/-- A wedge needs a caster that is silent for `TH_WEDGE_S`. -/
theorem wedged_quiet {s : Supervisor} {now : ℕ} {log : List Entry} (h : Journaled (watch s) now log)
    (hwedged : wedged s now) : CasterQuiet log now 120000000 := by
  obtain ⟨hfault, hsilent, -⟩ := hwedged
  have hsome := ((casterFault_iff s now).mp hfault).1
  have hage : casterSilent s now = ageS now ((watch s).caster.getD 0) := by
    unfold casterSilent watch
    rw [if_pos hfault.1, if_pos hfault.1]
    rfl
  rw [hage] at hsilent
  exact (casterQuiet_iff h).mpr ⟨hsome, stamp_of_le_ageS h.caster.le hsilent⟩

/-! ### Handshakes -/

/-- `fs` is `es` with handshakes inserted where the watchdog is armed. -/
inductive Padded : Station → List StationEvent → List StationEvent → Prop
  | nil (s : Station) : Padded s [] []
  | cons {s : Station} {es fs : List StationEvent} (e : StationEvent) :
      Padded (station.step s e) es fs → Padded s (e :: es) (e :: fs)
  | handshake {s : Station} {es fs : List StationEvent} :
      s.sup.casterSeen = true → Padded s es fs → Padded s es (.noteCasterTx 0 :: fs)

theorem handshake_step {s : Station} (h : s.sup.casterSeen = true) :
    station.step s (.noteCasterTx 0) = s := by
  have hnote : supervisorNoteCasterTx s.sup s.clock 0 = s.sup := by
    unfold supervisorNoteCasterTx
    rw [if_neg (by decide), if_neg (by simp [h])]
  show { s with sup := supervisorNoteCasterTx s.sup s.clock 0 } = s
  rw [hnote]

theorem padded_outputs {s : Station} {es fs : List StationEvent} (h : Padded s es fs) :
    station.outputs s fs = station.outputs s es := by
  induction h with
  | nil s => rfl
  | cons e _ ih => rw [station.outputs_cons, station.outputs_cons, ih]
  | handshake hseen _ ih =>
      rw [station.outputs_cons, handshake_step hseen, ih]
      rfl

/-! ### When the rungs fire -/

/-- The recoveries are registered, and `2 ^ 32` seconds go by. -/
def centuryRun : List StationEvent := [.setRecovery true true true, .elapse (2 ^ 32 * 1000000)]

/-- **A rung is lost at the wrap.**  No GNSS byte came for `2 ^ 32` seconds, and nothing fires: the uptime
is 0 again. -/
theorem rung_lost_at_wrap :
    ¬ ∀ (es : List StationEvent) (freeHeap : ℕ), (stationAt es).sup.recoverGnss = true →
      (actsAt es freeHeap).any Act.restarts = false →
      ((∃ g, .gnssReset g ∈ actsAt es freeHeap) ↔ 30000000 ≤ (stationAt es).clock ∧
        (∀ t, .gnssRx t ∈ journalAt es → t + 10000000 ≤ (stationAt es).clock) ∧
        ∀ t, .gnssFired t ∈ journalAt es → t + 20000000 ≤ (stationAt es).clock) := by
  intro h
  have hacts : actsAt centuryRun 70000 = [] := by decide +kernel
  have hlog : journalAt centuryRun = [] := by decide +kernel
  have hiff := h centuryRun 70000 (by decide +kernel) (by rw [hacts]; rfl)
  rw [hacts, hlog] at hiff
  obtain ⟨g, hg⟩ := hiff.mpr ⟨by decide +kernel, by simp, by simp⟩
  exact absurd hg List.not_mem_nil

/-- **When the rungs fire.**  Nothing fires in the first 30 s.  At a tick that does not reboot, in the first
`2 ^ 32` seconds, with the recovery registered, GNSS is recovered exactly when no byte of it came for 10 s
and the last recovery was started 20 s ago, and the caster exactly when it is silent for 30 s and the last
reconnect was started 15 s ago.  A wedge needs a caster that is silent for 120 s.  Handshakes after the
arming change nothing. -/
theorem rungs_exact (es : List StationEvent) (freeHeap : ℕ) :
    ((stationAt es).clock < 30000000 → actsAt es freeHeap = []) ∧
    ((stationAt es).clock < 2 ^ 32 * 1000000 → (actsAt es freeHeap).any Act.restarts = false →
      ((stationAt es).sup.recoverGnss = true →
        ((∃ g, .gnssReset g ∈ actsAt es freeHeap) ↔ 30000000 ≤ (stationAt es).clock ∧
          (∀ t, .gnssRx t ∈ journalAt es → t + 10000000 ≤ (stationAt es).clock) ∧
          ∀ t, .gnssFired t ∈ journalAt es → t + 20000000 ≤ (stationAt es).clock)) ∧
      ((stationAt es).sup.recoverCaster = true →
        ((∃ c, .casterReconnect c ∈ actsAt es freeHeap) ↔ 30000000 ≤ (stationAt es).clock ∧
          CasterQuiet (journalAt es) (stationAt es).clock 30000000 ∧
          ∀ t, .casterFired t ∈ journalAt es → t + 15000000 ≤ (stationAt es).clock))) ∧
    (∀ g c d, .wedgeReboot g c d ∈ actsAt es freeHeap →
      CasterQuiet (journalAt es) (stationAt es).clock 120000000) ∧
    ∀ fs, Padded stationInit es fs → station.outputs stationInit fs = station.outputs stationInit es := by
  have hjournal := stationAt_journaled es
  refine ⟨?_, ?_, ?_, fun fs hfs => padded_outputs hfs⟩
  · intro hgrace
    have huptime : uptime (stationAt es).clock < graceS := (uptime_lt_iff (by omega)).mpr hgrace
    unfold actsAt supervisorTick
    rw [if_pos huptime]
  · intro hclock hgo
    unfold actsAt at hgo ⊢
    rcases tick_entries (stationAt es).sup (stationAt es).clock freeHeap with ⟨hrestart, -⟩ | ⟨-, hentries, -⟩
    · rw [hrestart] at hgo
      exact absurd hgo (by simp)
    constructor
    · intro hrec
      rw [← gnssFires_iff hjournal hclock hrec, ← gnssFired_mem, hentries]
      split <;> split <;> simp_all
    · intro hrec
      rw [← casterFires_iff hjournal hclock hrec, ← casterFired_mem, hentries]
      split <;> split <;> simp_all
  · intro g c d hwedge
    exact wedged_quiet hjournal (tick_grounded _ _ freeHeap hwedge).2.2.2

/-- The caster watchdog is armed at boot, and 40 s go by. -/
def silentRun : List StationEvent := [.setRecovery true true true, .noteCasterTx 0, .elapse 40000000]

theorem rungs_exact_silentRun :
    (∃ g, .gnssReset g ∈ actsAt silentRun 70000) ∧ (∃ c, .casterReconnect c ∈ actsAt silentRun 70000) ∧
      station.outputs stationInit (silentRun ++ [.noteCasterTx 0, .tick 70000]) =
        station.outputs stationInit (silentRun ++ [.tick 70000]) := by
  have hclock : (stationAt silentRun).clock = 40000000 := by decide +kernel
  have hlog : journalAt silentRun = [.casterTx 0 0] := by decide +kernel
  obtain ⟨hgnss, hcaster⟩ := (rungs_exact silentRun 70000).2.1 (by rw [hclock]; decide) (by decide +kernel)
  have hpad := (rungs_exact (silentRun ++ [.tick 70000]) 70000).2.2.2
    (silentRun ++ [.noteCasterTx 0, .tick 70000])
  refine ⟨(hgnss (by decide +kernel)).mpr ?_, (hcaster (by decide +kernel)).mpr ?_, hpad ?_⟩
  · rw [hclock, hlog]
    exact ⟨by decide, by simp, by simp⟩
  · rw [hclock, hlog]
    refine ⟨by decide, ⟨0, rfl, by decide, ?_⟩, by simp⟩
    intro t b hmem hpos
    cases List.mem_singleton.mp hmem
    exact absurd hpos (by decide)
  · exact .cons _ (.cons _ (.cons _ (.handshake (by decide +kernel) (.cons _ (.nil _)))))

end RtkdataFw.Supervision
