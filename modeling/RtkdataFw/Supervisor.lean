import Mathlib.Data.Int.Basic
import Mathlib.Data.List.Basic
import RtkdataFw.Lib.Clock
import RtkdataFw.Lib.Machine

/-!
# The health supervisor of `supervisor.c`

`Supervisor` holds the static variables of the module and the locals of its task; times are the
microseconds of `esp_timer`.  A tick reads the clock once.  `Station` adds what the module does not know:
the clock itself, and since when the station has been without an IP.

* `supervisorTick`, `supervisorHealth` — one turn of the task's loop, and the health snapshot;
* `tick_cases` — the inversion of a tick; `tick_grounded` and `tick_state` — what the state says when it puts
  out an act, and what it leaves;
* `station_step_ok` — what the notes keep: while the IP is lost, the stamp is not younger than the loss;
* `blip_restarts_wifi` — an outage that has just begun restarts the driver;
* `escalation_needs_outage` — with ages that do not cross a threshold early, escalation is never early.
-/

namespace RtkdataFw.Supervision

open RtkdataFw.Lib

def graceS : UInt32 := 30

def thGnssS : UInt32 := 10

def thCasterS : UInt32 := 30

def thLinkS : UInt32 := 60

def thWedgeS : UInt32 := 120

def debGnssS : UInt32 := 20

def debCasterS : UInt32 := 15

def debLinkS : UInt32 := 30

def heapFloorB : ℕ := 12 * 1024

def heapLowS : ℕ := 15

structure Supervisor where
  supervisedReboots : UInt32
  tGnss : ℕ
  tCaster : ℕ
  tIp : ℕ
  gnssSeen : Bool
  casterSeen : Bool
  ipSeen : Bool
  linkUp : Bool
  recGnss : UInt32
  recCaster : UInt32
  recWifi : UInt32
  /-- Whether a recovery action is registered. -/
  recoverGnss : Bool
  recoverCaster : Bool
  recoverWifi : Bool
  lastGnssAct : ℕ
  lastCasterAct : ℕ
  lastLinkAct : ℕ
  heapLowStreak : ℕ
  deriving DecidableEq, Repr

/-- The statics at boot.  The reboot counter alone survives a soft reboot. -/
def boot (supervisedReboots : UInt32) : Supervisor where
  supervisedReboots := supervisedReboots
  tGnss := 0
  tCaster := 0
  tIp := 0
  gnssSeen := false
  casterSeen := false
  ipSeen := false
  linkUp := false
  recGnss := 0
  recCaster := 0
  recWifi := 0
  recoverGnss := false
  recoverCaster := false
  recoverWifi := false
  lastGnssAct := 0
  lastCasterAct := 0
  lastLinkAct := 0
  heapLowStreak := 0

/-- `age_s` at time `now`. -/
def ageS (now t : ℕ) : UInt32 := UInt32.ofNat ((now - t) / 1000000)

/-! ### The notes -/

def supervisorNoteGnssRx (s : Supervisor) (now : ℕ) : Supervisor :=
  { s with tGnss := now, gnssSeen := true }

/-- Accepted bytes refresh the stamp; the handshake (`bytes == 0`) only arms an unarmed watchdog. -/
def supervisorNoteCasterTx (s : Supervisor) (now : ℕ) (bytes : ℤ) : Supervisor :=
  if bytes > 0 then { s with tCaster := now, casterSeen := true }
  else if !s.casterSeen then { s with tCaster := now, casterSeen := true }
  else s

def supervisorNoteStaIp (s : Supervisor) (now : ℕ) (up : Bool) : Supervisor :=
  if up then { s with tIp := now, ipSeen := true, linkUp := true }
  else { s with linkUp := false }

def supervisorSetRecovery (s : Supervisor) (gnss caster wifi : Bool) : Supervisor :=
  { s with recoverGnss := gnss, recoverCaster := caster, recoverWifi := wifi }

/-! ### The health snapshot -/

structure SupervisorHealth where
  uptimeS : UInt32
  gnssSilentS : UInt32
  casterSilentS : UInt32
  ipDownS : UInt32
  gnssOk : Bool
  casterOk : Bool
  linkOk : Bool
  recoveriesGnss : UInt32
  recoveriesCaster : UInt32
  recoveriesWifi : UInt32
  rebootsSupervised : UInt32
  deriving DecidableEq, Repr

def uptime (now : ℕ) : UInt32 := UInt32.ofNat (now / 1000000)

def gnssSilent (s : Supervisor) (now : ℕ) : UInt32 :=
  if s.gnssSeen then ageS now s.tGnss else uptime now

def casterSilent (s : Supervisor) (now : ℕ) : UInt32 :=
  if s.casterSeen then ageS now s.tCaster else 0

def ipDown (s : Supervisor) (now : ℕ) : UInt32 :=
  if !s.linkUp && s.ipSeen then ageS now s.tIp else 0

def supervisorHealth (s : Supervisor) (now : ℕ) : SupervisorHealth where
  uptimeS := uptime now
  gnssSilentS := gnssSilent s now
  casterSilentS := casterSilent s now
  ipDownS := if s.linkUp then 0 else if s.ipSeen then ageS now s.tIp else 0
  gnssOk := s.gnssSeen && decide (gnssSilent s now < thGnssS)
  casterOk := !s.casterSeen || decide (casterSilent s now < thCasterS)
  linkOk := s.linkUp || !s.ipSeen
  recoveriesGnss := s.recGnss
  recoveriesCaster := s.recCaster
  recoveriesWifi := s.recWifi
  rebootsSupervised := s.supervisedReboots

/-! ### The task -/

/-- What a tick does to the outside, with the ages it reports. -/
inductive Act where
  | heapReboot
  | wedgeReboot (gnssSilent casterSilent ipDown : UInt32)
  | wifiRestart (ipDown : UInt32)
  | casterReconnect (casterSilent : UInt32)
  | gnssReset (gnssSilent : UInt32)
  deriving DecidableEq, Repr

def gnssFault (s : Supervisor) (now : ℕ) : Prop := gnssSilent s now ≥ thGnssS

def casterFault (s : Supervisor) (now : ℕ) : Prop :=
  s.casterSeen = true ∧ casterSilent s now ≥ thCasterS

def linkFault (s : Supervisor) (now : ℕ) : Prop :=
  s.ipSeen = true ∧ s.linkUp = false ∧ ipDown s now ≥ thLinkS

/-- Rung 4: the caster dead and an underlying cause dead. -/
def wedged (s : Supervisor) (now : ℕ) : Prop :=
  casterFault s now ∧ casterSilent s now ≥ thWedgeS ∧
    (gnssSilent s now ≥ thWedgeS ∨ ipDown s now ≥ thWedgeS)

instance (s : Supervisor) (now : ℕ) : Decidable (gnssFault s now) :=
  inferInstanceAs (Decidable (_ ≥ _))

instance (s : Supervisor) (now : ℕ) : Decidable (casterFault s now) :=
  inferInstanceAs (Decidable (_ ∧ _))

instance (s : Supervisor) (now : ℕ) : Decidable (linkFault s now) :=
  inferInstanceAs (Decidable (_ ∧ _ ∧ _))

instance (s : Supervisor) (now : ℕ) : Decidable (wedged s now) :=
  inferInstanceAs (Decidable (_ ∧ _ ∧ (_ ∨ _)))

/-- Rung 3: restart the Wi-Fi driver. -/
def wifiRung (s : Supervisor) (now : ℕ) : Supervisor × List Act :=
  if linkFault s now ∧ s.recoverWifi = true ∧ ageS now s.lastLinkAct ≥ debLinkS then
    ({ s with lastLinkAct := now, recWifi := s.recWifi + 1 }, [.wifiRestart (ipDown s now)])
  else (s, [])

/-- Rung 2: force a reconnect to the caster. -/
def casterRung (s : Supervisor) (now : ℕ) : Supervisor × List Act :=
  if casterFault s now ∧ s.recoverCaster = true ∧ ageS now s.lastCasterAct ≥ debCasterS then
    ({ s with lastCasterAct := now, recCaster := s.recCaster + 1 },
      [.casterReconnect (casterSilent s now)])
  else (s, [])

/-- Rung 1: reset and reconfigure the receiver. -/
def gnssRung (s : Supervisor) (now : ℕ) : Supervisor × List Act :=
  if gnssFault s now ∧ s.recoverGnss = true ∧ ageS now s.lastGnssAct ≥ debGnssS then
    ({ s with lastGnssAct := now, recGnss := s.recGnss + 1 }, [.gnssReset (gnssSilent s now)])
  else (s, [])

/-- Rung 4, and the rungs below it when the path is not wedged. -/
def ladder (s : Supervisor) (now : ℕ) : Supervisor × List Act :=
  if wedged s now then
    (boot (s.supervisedReboots + 1),
      [.wedgeReboot (gnssSilent s now) (casterSilent s now) (ipDown s now)])
  else
    let w := wifiRung s now
    let c := casterRung w.1 now
    let g := gnssRung c.1 now
    (g.1, w.2 ++ c.2 ++ g.2)

/-- One turn of the loop in `supervisor_task`. -/
def supervisorTick (s : Supervisor) (now freeHeap : ℕ) : Supervisor × List Act :=
  if uptime now < graceS then (s, [])
  else if freeHeap < heapFloorB then
    if s.heapLowStreak + 1 ≥ heapLowS then (boot (s.supervisedReboots + 1), [.heapReboot])
    else ladder { s with heapLowStreak := s.heapLowStreak + 1 } now
  else ladder { s with heapLowStreak := 0 } now

/-- An act that ends in `esp_restart`. -/
def Act.restarts : Act → Bool
  | .heapReboot => true
  | .wedgeReboot _ _ _ => true
  | _ => false

/-! ### The station -/

structure Station where
  clock : ℕ
  sup : Supervisor
  /-- Since when the station has been without an IP; boot counts. -/
  lost : Option ℕ
  deriving DecidableEq, Repr

inductive StationEvent where
  | elapse (us : ℕ)
  | noteGnssRx
  | noteCasterTx (bytes : ℤ)
  | noteStaIp (up : Bool)
  | setRecovery (gnss caster wifi : Bool)
  | tick (freeHeap : ℕ)
  | health

inductive StationObs where
  | act (clock : ℕ) (lost : Option ℕ) (a : Act)
  | health (clock : ℕ) (lost : Option ℕ) (h : SupervisorHealth)
  deriving DecidableEq, Repr

def stationInit : Station := ⟨0, boot 0, some 0⟩

/-- The outage that a note leaves: it begins when an IP is lost, and goes on while there is none. -/
def lostAfter (s : Station) (up : Bool) : Option ℕ :=
  if up then none
  else match s.lost with
    | some t => some t
    | none => some s.clock

def station : Machine Station StationEvent StationObs where
  step s
    | .elapse us => { s with clock := s.clock + us }
    | .noteGnssRx => { s with sup := supervisorNoteGnssRx s.sup s.clock }
    | .noteCasterTx bytes => { s with sup := supervisorNoteCasterTx s.sup s.clock bytes }
    | .noteStaIp up =>
        { s with sup := supervisorNoteStaIp s.sup s.clock up, lost := lostAfter s up }
    | .setRecovery gnss caster wifi =>
        { s with sup := supervisorSetRecovery s.sup gnss caster wifi }
    | .tick freeHeap =>
        let r := supervisorTick s.sup s.clock freeHeap
        if r.2.any Act.restarts then ⟨0, r.1, some 0⟩ else { s with sup := r.1 }
    | .health => s
  out s
    | .tick freeHeap => (supervisorTick s.sup s.clock freeHeap).2.map (.act s.clock s.lost)
    | .health => [.health s.clock s.lost (supervisorHealth s.sup s.clock)]
    | _ => []

/-! ### What a tick may do -/

theorem toNat_ageS (now t : ℕ) : (ageS now t).toNat = (now - t) / 1000000 % 2 ^ 32 :=
  toNat_ofNat_mod _

theorem ageS_le (now t : ℕ) : (ageS now t).toNat * 1000000 ≤ now - t := by
  have hmod : (ageS now t).toNat ≤ (now - t) / 1000000 := by
    rw [toNat_ageS]
    exact Nat.mod_le _ _
  omega

/-- An age of `th` seconds means `th` seconds since the stamp. -/
theorem stamp_of_le_ageS {now t : ℕ} {th : UInt32} (ht : t ≤ now) (h : ageS now t ≥ th) :
    t + th.toNat * 1000000 ≤ now := by
  have hage := ageS_le now t
  have hth : th.toNat ≤ (ageS now t).toNat := UInt32.le_iff_toNat_le.mp h
  omega

theorem ipDown_pos {s : Supervisor} {now : ℕ} {th : UInt32} (hth : 0 < th) (h : ipDown s now ≥ th) :
    s.linkUp = false ∧ s.ipSeen = true ∧ ageS now s.tIp ≥ th := by
  unfold ipDown at h
  split at h
  · rename_i hdown
    rw [Bool.and_eq_true, Bool.not_eq_true'] at hdown
    exact ⟨hdown.1, hdown.2, h⟩
  · rw [ge_iff_le, UInt32.le_iff_toNat_le] at h
    rw [UInt32.lt_iff_toNat_lt] at hth
    omega

/-- A rung acts when its guard holds, and puts out nothing else. -/
theorem mem_rung {guard : Prop} [Decidable guard] {s s' : Supervisor} {a b : Act}
    (h : b ∈ (if guard then (s', [a]) else (s, [])).2) : b = a ∧ guard := by
  by_cases hguard : guard
  · rw [if_pos hguard] at h
    exact ⟨List.mem_singleton.mp h, hguard⟩
  · rw [if_neg hguard] at h
    exact absurd h List.not_mem_nil

/-- The rungs below the reboot put out what is theirs, and none of it reboots. -/
theorem mem_casterRung {s : Supervisor} {now : ℕ} {a : Act} (h : a ∈ (casterRung s now).2) :
    a = .casterReconnect (casterSilent s now) := (mem_rung h).1

theorem mem_gnssRung {s : Supervisor} {now : ℕ} {a : Act} (h : a ∈ (gnssRung s now).2) :
    a = .gnssReset (gnssSilent s now) := (mem_rung h).1

theorem mem_wifiRung {s : Supervisor} {now : ℕ} {a : Act} (h : a ∈ (wifiRung s now).2) :
    a = .wifiRestart (ipDown s now) ∧ linkFault s now ∧ s.recoverWifi = true ∧
      ageS now s.lastLinkAct ≥ debLinkS := mem_rung h

/-- The rungs below the reboot, one after the other. -/
theorem ladder_of_not_wedged {s : Supervisor} {now : ℕ} (h : ¬ wedged s now) :
    ladder s now =
      ((gnssRung (casterRung (wifiRung s now).1 now).1 now).1,
        (wifiRung s now).2 ++ (casterRung (wifiRung s now).1 now).2 ++
          (gnssRung (casterRung (wifiRung s now).1 now).1 now).2) := by
  rw [ladder, if_neg h]

theorem ladder_of_wedged {s : Supervisor} {now : ℕ} (h : wedged s now) :
    ladder s now =
      (boot (s.supervisedReboots + 1),
        [.wedgeReboot (gnssSilent s now) (casterSilent s now) (ipDown s now)]) := by
  rw [ladder, if_pos h]

theorem mem_ladder {s : Supervisor} {now : ℕ} (h : ¬ wedged s now) {a : Act}
    (ha : a ∈ (ladder s now).2) :
    a ∈ (wifiRung s now).2 ∨ (∃ c, a = .casterReconnect c) ∨ ∃ g, a = .gnssReset g := by
  rw [ladder_of_not_wedged h, List.mem_append, List.mem_append] at ha
  rcases ha with (hw | hc) | hg
  · exact .inl hw
  · exact .inr (.inl ⟨_, mem_casterRung hc⟩)
  · exact .inr (.inr ⟨_, mem_gnssRung hg⟩)

/-- **The inversion of a tick**: the grace, a reboot for lack of heap, or the ladder with the streak of low
heap updated. -/
theorem tick_cases (s : Supervisor) (now freeHeap : ℕ) :
    uptime now < graceS ∧ supervisorTick s now freeHeap = (s, []) ∨
    (freeHeap < heapFloorB ∧ s.heapLowStreak + 1 ≥ heapLowS ∧
      supervisorTick s now freeHeap = (boot (s.supervisedReboots + 1), [.heapReboot])) ∨
    ∃ n, supervisorTick s now freeHeap = ladder { s with heapLowStreak := n } now := by
  by_cases hgrace : uptime now < graceS
  · exact .inl ⟨hgrace, if_pos hgrace⟩
  right
  rw [supervisorTick, if_neg hgrace]
  by_cases hheap : freeHeap < heapFloorB
  · rw [if_pos hheap]
    by_cases hlow : s.heapLowStreak + 1 ≥ heapLowS
    · exact .inl ⟨hheap, hlow, if_pos hlow⟩
    · exact .inr ⟨s.heapLowStreak + 1, if_neg hlow⟩
  · exact .inr ⟨0, if_neg hheap⟩

/-! ### Acts and their ground -/

/-- What an act says about the state of the tick that put it out. -/
def Act.Grounded (s : Supervisor) (now : ℕ) : Act → Prop
  | .wifiRestart d =>
      d = ipDown s now ∧ linkFault s now ∧ s.recoverWifi = true ∧ ageS now s.lastLinkAct ≥ debLinkS
  | .wedgeReboot g c d =>
      g = gnssSilent s now ∧ c = casterSilent s now ∧ d = ipDown s now ∧ wedged s now
  | _ => True

theorem ladder_grounded (s : Supervisor) (now : ℕ) {a : Act} (h : a ∈ (ladder s now).2) :
    a.Grounded s now := by
  by_cases hwedged : wedged s now
  · rw [ladder_of_wedged hwedged] at h
    cases List.mem_singleton.mp h
    exact ⟨rfl, rfl, rfl, hwedged⟩
  · rcases mem_ladder hwedged h with hw | ⟨c, rfl⟩ | ⟨g, rfl⟩
    · obtain ⟨rfl, hguard⟩ := mem_wifiRung hw
      exact ⟨rfl, hguard⟩
    · trivial
    · trivial

/-- **Every act is grounded** in the state that the tick met. -/
theorem tick_grounded (s : Supervisor) (now freeHeap : ℕ) {a : Act}
    (h : a ∈ (supervisorTick s now freeHeap).2) : a.Grounded s now := by
  rcases tick_cases s now freeHeap with ⟨-, heq⟩ | ⟨-, -, heq⟩ | ⟨n, heq⟩
  · rw [heq] at h
    exact absurd h List.not_mem_nil
  · rw [heq] at h
    rw [List.mem_singleton.mp h]
    trivial
  · rw [heq] at h
    -- the streak of low heap is no part of what the ladder looks at
    have hground := ladder_grounded _ now h
    cases a <;> exact hground

/-! ### What a tick keeps -/

/-- The station's link as the supervisor knows it. -/
def SameLink (s s' : Supervisor) : Prop :=
  s'.tIp = s.tIp ∧ s'.ipSeen = s.ipSeen ∧ s'.linkUp = s.linkUp

theorem SameLink.trans {s s' s'' : Supervisor} (h : SameLink s s') (h' : SameLink s' s'') :
    SameLink s s'' :=
  ⟨h'.1.trans h.1, h'.2.1.trans h.2.1, h'.2.2.trans h.2.2⟩

theorem SameLink.rung {guard : Prop} [Decidable guard] {s s' : Supervisor} (h : SameLink s s')
    (a : Act) : SameLink s (if guard then (s', [a]) else (s, [])).1 := by
  by_cases hguard : guard
  · rw [if_pos hguard]
    exact h
  · rw [if_neg hguard]
    exact ⟨rfl, rfl, rfl⟩

theorem wifiRung_link (s : Supervisor) (now : ℕ) : SameLink s (wifiRung s now).1 := by
  rw [wifiRung]
  apply SameLink.rung
  exact ⟨rfl, rfl, rfl⟩

theorem casterRung_link (s : Supervisor) (now : ℕ) : SameLink s (casterRung s now).1 := by
  rw [casterRung]
  apply SameLink.rung
  exact ⟨rfl, rfl, rfl⟩

theorem gnssRung_link (s : Supervisor) (now : ℕ) : SameLink s (gnssRung s now).1 := by
  rw [gnssRung]
  apply SameLink.rung
  exact ⟨rfl, rfl, rfl⟩

/-- The ladder reboots into fresh statics, or leaves the link alone. -/
theorem ladder_state (s : Supervisor) (now : ℕ) :
    ((ladder s now).2.any Act.restarts = true ∧ ∃ n, (ladder s now).1 = boot n) ∨
      ((ladder s now).2.any Act.restarts = false ∧ SameLink s (ladder s now).1) := by
  by_cases hwedged : wedged s now
  · rw [ladder_of_wedged hwedged]
    exact .inl ⟨rfl, _, rfl⟩
  · right
    constructor
    · rw [List.any_eq_false]
      intro a ha
      rcases mem_ladder hwedged ha with hw | ⟨c, rfl⟩ | ⟨g, rfl⟩
      · rw [(mem_wifiRung hw).1]
        simp [Act.restarts]
      · simp [Act.restarts]
      · simp [Act.restarts]
    · rw [ladder_of_not_wedged hwedged]
      exact (wifiRung_link s now).trans ((casterRung_link _ now).trans (gnssRung_link _ now))

/-- **What a tick leaves.**  A reboot ends in the statics of a boot, and any other tick leaves the link
alone. -/
theorem tick_state (s : Supervisor) (now freeHeap : ℕ) :
    ((supervisorTick s now freeHeap).2.any Act.restarts = true ∧
        ∃ n, (supervisorTick s now freeHeap).1 = boot n) ∨
      ((supervisorTick s now freeHeap).2.any Act.restarts = false ∧
        SameLink s (supervisorTick s now freeHeap).1) := by
  rcases tick_cases s now freeHeap with ⟨-, heq⟩ | ⟨-, -, heq⟩ | ⟨n, heq⟩
  · rw [heq]
    exact .inr ⟨rfl, rfl, rfl, rfl⟩
  · rw [heq]
    exact .inl ⟨rfl, _, rfl⟩
  · rw [heq]
    exact ladder_state { s with heapLowStreak := n } now

/-! ### The stamp and the outage -/

/-- What the notes keep: the link flag tells whether there is an outage, and the stamp is not younger
than the beginning of one.  That it is the beginning is not true. -/
structure StationOk (s : Station) : Prop where
  up : s.sup.linkUp = true ↔ s.lost = none
  stamp : s.sup.tIp ≤ s.clock
  lost : ∀ t, s.lost = some t → s.sup.tIp ≤ t ∧ t ≤ s.clock

theorem stationOk_boot (n : UInt32) : StationOk ⟨0, boot n, some 0⟩ where
  up := ⟨fun h => absurd h (by simp [boot]), fun h => absurd h (by simp)⟩
  stamp := Nat.le_refl 0
  lost t ht := by
    cases ht
    exact ⟨Nat.le_refl 0, Nat.le_refl 0⟩

theorem StationOk.of_link {s : Station} (hs : StationOk s) {sup' : Supervisor}
    (h : SameLink s.sup sup') : StationOk { s with sup := sup' } where
  up := by
    rw [h.2.2]
    exact hs.up
  stamp := by
    rw [h.1]
    exact hs.stamp
  lost t ht := by
    rw [h.1]
    exact hs.lost t ht

theorem noteStaIp_ok {s : Station} (hs : StationOk s) (up : Bool) :
    StationOk { s with sup := supervisorNoteStaIp s.sup s.clock up, lost := lostAfter s up } := by
  cases up with
  | true =>
      exact ⟨⟨fun _ => rfl, fun _ => rfl⟩, Nat.le_refl _, fun t ht => absurd ht (by simp [lostAfter])⟩
  | false =>
      cases hlost : s.lost with
      | none =>
          have hafter : lostAfter s false = some s.clock := by simp [lostAfter, hlost]
          rw [hafter]
          refine ⟨⟨fun h => absurd h (by simp [supervisorNoteStaIp]), fun h => absurd h (by simp)⟩,
            hs.stamp, ?_⟩
          intro t ht
          cases ht
          exact ⟨hs.stamp, Nat.le_refl _⟩
      | some t =>
          have hafter : lostAfter s false = some t := by simp [lostAfter, hlost]
          rw [hafter]
          refine ⟨⟨fun h => absurd h (by simp [supervisorNoteStaIp]), fun h => absurd h (by simp)⟩,
            hs.stamp, fun t' ht => hs.lost t' ?_⟩
          rw [hlost]
          exact ht

theorem station_step_ok {s : Station} (hs : StationOk s) (e : StationEvent) :
    StationOk (station.step s e) := by
  cases e with
  | elapse us =>
      exact ⟨hs.up, Nat.le_add_right_of_le hs.stamp,
        fun t ht => ⟨(hs.lost t ht).1, Nat.le_add_right_of_le (hs.lost t ht).2⟩⟩
  | noteGnssRx => exact hs.of_link ⟨rfl, rfl, rfl⟩
  | noteCasterTx bytes =>
      apply hs.of_link
      unfold supervisorNoteCasterTx
      split
      · exact ⟨rfl, rfl, rfl⟩
      · split <;> exact ⟨rfl, rfl, rfl⟩
  | noteStaIp up => exact noteStaIp_ok hs up
  | setRecovery gnss caster wifi => exact hs.of_link ⟨rfl, rfl, rfl⟩
  | tick freeHeap =>
      show StationOk (if (supervisorTick s.sup s.clock freeHeap).2.any Act.restarts then _ else _)
      rcases tick_state s.sup s.clock freeHeap with ⟨hrestart, n, hboot⟩ | ⟨hgo, hlink⟩
      · rw [if_pos hrestart, hboot]
        exact stationOk_boot n
      · rw [if_neg (by simp [hgo])]
        exact hs.of_link hlink
  | health => exact hs

/-! ### Escalation -/

/-- The ghost beside an observation grounds it: an outage long enough, and never overstated. -/
def StationObs.Sound : StationObs → Prop
  | .act clock lost (.wifiRestart _) =>
      ∃ t, lost = some t ∧ t + thLinkS.toNat * 1000000 ≤ clock
  | .act clock lost (.wedgeReboot gnssSilent _ _) =>
      gnssSilent < thWedgeS → ∃ t, lost = some t ∧ t + thWedgeS.toNat * 1000000 ≤ clock
  | .act _ _ _ => True
  | .health clock lost h =>
      match lost with
      | some t => h.ipDownS.toNat * 1000000 ≤ clock - t
      | none => h.ipDownS = 0

/-- The age of the stamp and the outage that began at `t` are on the same side of `th`. -/
def Ripe (s : Station) (t : ℕ) (th : UInt32) : Prop :=
  t + th.toNat * 1000000 ≤ s.clock ∨ s.clock < s.sup.tIp + th.toNat * 1000000

/-- No judgement falls where the stamp is old enough for it and the outage is not.  The stamp is the last
gain of an IP, so this bounds the time that the station had its IP before it lost it. -/
def Fair (s : Station) : StationEvent → Prop
  | .tick _ =>
      ∀ t, s.lost = some t → s.sup.ipSeen = true →
        (s.sup.recoverWifi = true → ageS s.clock s.sup.lastLinkAct ≥ debLinkS → Ripe s t thLinkS) ∧
        (casterSilent s.sup s.clock ≥ thWedgeS → gnssSilent s.sup s.clock < thWedgeS →
          Ripe s t thWedgeS)
  | .health =>
      ∀ t, s.lost = some t → s.sup.ipSeen = true →
        t - s.sup.tIp ≤ (s.clock - s.sup.tIp) % 1000000
  | _ => True

theorem StationOk.outage {s : Station} (hs : StationOk s) (h : s.sup.linkUp = false) :
    ∃ t, s.lost = some t := by
  apply Option.ne_none_iff_exists'.mp
  intro hnone
  rw [hs.up.mpr hnone] at h
  cases h

/-- An age of `th` that is ripe is an outage of `th`. -/
theorem StationOk.ripe_outage {s : Station} (hs : StationOk s) {th : UInt32} (hth : 0 < th)
    (h : ipDown s.sup s.clock ≥ th)
    (hripe : ∀ t, s.lost = some t → s.sup.ipSeen = true → Ripe s t th) :
    ∃ t, s.lost = some t ∧ t + th.toNat * 1000000 ≤ s.clock := by
  obtain ⟨hdown, hseen, hage⟩ := ipDown_pos hth h
  obtain ⟨t, ht⟩ := hs.outage hdown
  have hstamp := stamp_of_le_ageS hs.stamp hage
  rcases hripe t ht hseen with hlong | hyoung
  · exact ⟨t, ht, hlong⟩
  · omega

theorem tick_sound {s : Station} (hs : StationOk s) {freeHeap : ℕ} (hfair : Fair s (.tick freeHeap))
    {a : Act} (ha : a ∈ (supervisorTick s.sup s.clock freeHeap).2) :
    StationObs.Sound (.act s.clock s.lost a) := by
  have hground := tick_grounded s.sup s.clock freeHeap ha
  cases a with
  | wifiRestart d =>
      obtain ⟨-, ⟨-, -, hage⟩, hrec, hdeb⟩ := hground
      exact hs.ripe_outage (by decide) hage fun t ht hseen => (hfair t ht hseen).1 hrec hdeb
  | wedgeReboot g c d =>
      obtain ⟨rfl, rfl, rfl, -, hcaster, hcause⟩ := hground
      intro hgnss
      rcases hcause with hsilent | hage
      · rw [ge_iff_le, UInt32.le_iff_toNat_le] at hsilent
        rw [UInt32.lt_iff_toNat_lt] at hgnss
        omega
      · exact hs.ripe_outage (by decide) hage fun t ht hseen => (hfair t ht hseen).2 hcaster hgnss
  | heapReboot => trivial
  | casterReconnect c => trivial
  | gnssReset g => trivial

theorem ipDownS_eq (s : Supervisor) (now : ℕ) : (supervisorHealth s now).ipDownS = ipDown s now := by
  show (if s.linkUp then 0 else if s.ipSeen then ageS now s.tIp else 0) = ipDown s now
  unfold ipDown
  cases s.linkUp <;> simp

theorem health_sound {s : Station} (hs : StationOk s) (hfair : Fair s .health) :
    StationObs.Sound (.health s.clock s.lost (supervisorHealth s.sup s.clock)) := by
  cases hlost : s.lost with
  | none =>
      show (supervisorHealth s.sup s.clock).ipDownS = 0
      have hup : s.sup.linkUp = true := hs.up.mpr hlost
      show (if s.sup.linkUp then (0 : UInt32) else _) = 0
      rw [if_pos hup]
  | some t =>
      show (supervisorHealth s.sup s.clock).ipDownS.toNat * 1000000 ≤ s.clock - t
      rw [ipDownS_eq]
      unfold ipDown
      split
      · rename_i hdown
        rw [Bool.and_eq_true] at hdown
        have hbegin := hs.lost t hlost
        have hrest := hfair t hlost hdown.2
        have hage : (ageS s.clock s.sup.tIp).toNat ≤ (s.clock - s.sup.tIp) / 1000000 := by
          rw [toNat_ageS]
          exact Nat.mod_le _ _
        have hsplit := Nat.div_add_mod (s.clock - s.sup.tIp) 1000000
        omega
      · exact Nat.zero_le _

/-- The station had its IP for a hundred seconds, loses it at the moment of a tick, and stays without it
for twenty. -/
def blipRun : List StationEvent :=
  [.noteStaIp true, .setRecovery true true true, .noteCasterTx 1, .elapse 100000000, .noteGnssRx,
   .noteStaIp false, .health, .tick 70000, .elapse 20000000, .noteGnssRx, .tick 70000]

/-- **A blip escalates.**  An outage that has just begun is reported as a hundred seconds and restarts the
Wi-Fi driver; at twenty seconds, with a silent caster, it reboots the station. -/
theorem blip_restarts_wifi :
    (station.outputs stationInit blipRun).filterMap (fun
        | .act clock lost a => some (clock, lost, a)
        | .health _ _ _ => none) =
      [(100000000, some 100000000, .wifiRestart 100),
       (100000000, some 100000000, .casterReconnect 100),
       (120000000, some 100000000, .wedgeReboot 0 120 120)] ∧
      ¬ ∀ o ∈ station.outputs stationInit blipRun, o.Sound := by
  refine ⟨by decide +kernel, ?_⟩
  intro h
  obtain ⟨t, ht, hlong⟩ := h (.act 100000000 (some 100000000) (.wifiRestart 100)) (by decide +kernel)
  cases ht
  exact absurd hlong (by decide)

/-- **Escalation needs an outage.**  In a run whose judgements are all fair, the Wi-Fi driver is restarted
only after an outage of `TH_LINK_S`, a wedge with live GNSS means an outage of `TH_WEDGE_S`, and
`ip_down_s` never exceeds the outage. -/
theorem escalation_needs_outage (es : List StationEvent) (hes : station.Admits Fair stationInit es) :
    ∀ o ∈ station.outputs stationInit es, o.Sound := by
  refine station.forall_outputs (I := StationOk) (fun s e hs _ => station_step_ok hs e) ?_
    (stationOk_boot 0) hes
  intro s e hs hfair o ho
  cases e with
  | tick freeHeap =>
      obtain ⟨a, ha, rfl⟩ := List.mem_map.mp ho
      exact tick_sound hs hfair ha
  | health =>
      rw [List.mem_singleton.mp ho]
      exact health_sound hs hfair
  | _ => exact absurd ho List.not_mem_nil

/-- The station loses its IP as soon as it has it, and a tick comes a minute later. -/
def outageRun : List StationEvent :=
  [.noteStaIp true, .noteStaIp false, .setRecovery true true true, .elapse 61000000, .tick 70000,
   .health]

theorem escalation_needs_outage_outageRun :
    StationObs.act 61000000 (some 0) (.wifiRestart 61) ∈ station.outputs stationInit outageRun ∧
      ∀ o ∈ station.outputs stationInit outageRun, o.Sound := by
  refine ⟨by decide +kernel, escalation_needs_outage outageRun ?_⟩
  refine ⟨trivial, trivial, trivial, trivial, ?_, ?_, trivial⟩
  · intro t ht _
    cases ht
    exact ⟨fun _ _ => .inl (by decide), fun hcaster => absurd hcaster (by decide +kernel)⟩
  · intro t ht _
    cases ht
    decide +kernel

end RtkdataFw.Supervision
