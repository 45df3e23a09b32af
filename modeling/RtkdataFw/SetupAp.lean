import Mathlib.Data.List.Basic
import RtkdataFw.Lib.Machine

/-!
# The time box of the setup access point, `wifi.c`

The open access point closes when a 15-minute timer fires.  While a client is connected the control task
arms the timer again instead, at most `apMaxRearms` times in one session of the access point; every
connection of the station interface starts it afresh.  The timer fires on time and the control task runs at
once.

* `step_boxed` — the deadline stays within the part of the time box that the re-arms have used up, unless
  the station interface connects later than that;
* `deauth_keeps_ap_open` — a station interface that reconnects every ten minutes keeps the access point open;
* `late_connect_overruns` — every connection that comes later than that can be followed by an overrun;
* `timeBoxed_of_admits` — without such a connection no session outlasts the time box.
-/

namespace RtkdataFw.Wifi

open RtkdataFw.Lib

/-- `AP_AUTO_OFF_MS`. -/
def apAutoOffMs : ℕ := 15 * 60 * 1000

/-- `AP_MAX_REARMS`. -/
def apMaxRearms : ℕ := 2

structure SetupAp where
  /-- The clock, in milliseconds since boot. -/
  now : ℕ
  /-- The mode of the driver is not `WIFI_MODE_STA`. -/
  apMode : Bool
  /-- The driver is started. -/
  running : Bool
  /-- When the auto-off timer fires, if it is active. -/
  timer : Option ℕ
  apRearmCount : ℕ
  /-- `WIFI_AP_STA_CONNECTED_BIT`. -/
  apStaConnectedBit : Bool
  /-- When the access point last started. -/
  startedMs : ℕ
  deriving DecidableEq, Repr

/-- `ap_active`: the access point is on the air. -/
def SetupAp.ApUp (s : SetupAp) : Prop := s.apMode = true ∧ s.running = true

instance (s : SetupAp) : Decidable s.ApUp := inferInstanceAs (Decidable (_ ∧ _))

/-! ### The code -/

def wifiApStartTimer (s : SetupAp) : SetupAp := { s with timer := some (s.now + apAutoOffMs) }

def handleApStart (s : SetupAp) : SetupAp := { s with apRearmCount := 0, startedMs := s.now }

def handleApStop (s : SetupAp) : SetupAp := { s with apStaConnectedBit := false, apRearmCount := 0 }

/-- `wifi_ap_stop_only`, with the stop event where the access point was on the air. -/
def wifiApStopOnly (s : SetupAp) : SetupAp :=
  if s.running then handleApStop { s with apMode := false } else { s with apMode := false }

/-- `wifi_ap_start_only`, with the start event where the access point was off.  A driver that is stopped
refuses. -/
def wifiApStartOnly (s : SetupAp) : SetupAp :=
  if ¬ s.running then s
  else if s.apMode then s
  else handleApStart { s with apMode := true }

/-- One turn of `wifi_control_task`, after the stop bit. -/
def wifiControlTask (s : SetupAp) : SetupAp :=
  if s.apStaConnectedBit = true ∧ s.apRearmCount < apMaxRearms then
    wifiApStartTimer { s with apRearmCount := s.apRearmCount + 1 }
  else if s.apMode then wifiApStopOnly s
  else s

def handleStaConnected (s : SetupAp) : SetupAp := wifiApStartTimer s

def handleStaDisconnected (s : SetupAp) (provisioned : Bool) : SetupAp :=
  if provisioned then s else wifiApStartTimer (wifiApStartOnly s)

def handleApStaConnected (s : SetupAp) : SetupAp := { s with apStaConnectedBit := true }

/-- `handle_ap_sta_disconnected`, with the clients that are left. -/
def handleApStaDisconnected (s : SetupAp) (num : ℕ) : SetupAp :=
  if num = 0 then { s with apStaConnectedBit := false } else s

def wifiApStopNow (s : SetupAp) : SetupAp := if s.ApUp then wifiControlTask s else s

/-- `esp_wifi_stop`. -/
def wifiStop (s : SetupAp) : SetupAp :=
  if s.ApUp then handleApStop { s with running := false } else { s with running := false }

/-- `esp_wifi_start`. -/
def wifiStart (s : SetupAp) : SetupAp :=
  if s.running then s
  else if s.apMode then handleApStart { s with running := true }
  else { s with running := true }

/-- `wifi_init` up to the start of the driver. -/
def wifiInit : SetupAp := ⟨0, true, false, some apAutoOffMs, 0, false, 0⟩

/-! ### Runs -/

inductive ApEvent where
  /-- At most `ms` milliseconds go by; a timer that fires on the way ends them. -/
  | pass (ms : ℕ)
  | staConnected
  /-- With what the stored network name says. -/
  | staDisconnected (provisioned : Bool)
  | apStaConnected
  | apStaDisconnected (num : ℕ)
  | apStopNow
  | wifiStop
  | wifiStart
  deriving DecidableEq, Repr

/-- Time goes by up to the timer, which fires. -/
def pass (s : SetupAp) (ms : ℕ) : SetupAp :=
  match s.timer with
  | none => { s with now := s.now + ms }
  | some deadline =>
      if deadline ≤ s.now + ms then wifiControlTask { s with now := deadline, timer := none }
      else { s with now := s.now + ms }

def apStep (s : SetupAp) : ApEvent → SetupAp
  | .pass ms => pass s ms
  | .staConnected => handleStaConnected s
  | .staDisconnected provisioned => handleStaDisconnected s provisioned
  | .apStaConnected => handleApStaConnected s
  | .apStaDisconnected num => handleApStaDisconnected s num
  | .apStopNow => wifiApStopNow s
  | .wifiStop => wifiStop s
  | .wifiStart => wifiStart s

def apMachine : Machine SetupAp ApEvent Unit := ⟨apStep, fun _ _ => []⟩

/-- The time box of a session: an access point that is up has been so for less than the box. -/
def TimeBoxed (s : SetupAp) : Prop :=
  s.ApUp → s.now < s.startedMs + (1 + apMaxRearms) * apAutoOffMs

/-- The unit has a stored network name, when the event reads it. -/
def ApEvent.OnProvisioned (e : ApEvent) : Prop := e ≠ .staDisconnected false

instance (e : ApEvent) : Decidable e.OnProvisioned := inferInstanceAs (Decidable (_ ≠ _))

/-- The station interface connects within the time that the re-arms of the session have paid for, or
without an access point. -/
def ApEvent.PaidFor (s : SetupAp) (e : ApEvent) : Prop :=
  e = .staConnected → s.ApUp → s.now ≤ s.startedMs + s.apRearmCount * apAutoOffMs

instance (s : SetupAp) (e : ApEvent) : Decidable (e.PaidFor s) := inferInstanceAs (Decidable (_ → _ → _))

/-! ### The invariant -/

/-- The access point has a deadline, at most one timer period away, and in a session at most one more than
the re-arms. -/
structure Boxed (s : SetupAp) : Prop where
  rearms : s.apRearmCount ≤ apMaxRearms
  deadline : s.apMode = true → ∃ d, s.timer = some d ∧ s.now < d ∧ d ≤ s.now + apAutoOffMs ∧
    (s.running = true → d ≤ s.startedMs + (1 + s.apRearmCount) * apAutoOffMs)

theorem Boxed.timeBoxed {s : SetupAp} (h : Boxed s) : TimeBoxed s := by
  intro h
  obtain ⟨hmode, hrunning⟩ := h
  obtain ⟨d, _, hnow, _, hbox⟩ := h.deadline hmode
  have hrearms : (1 + s.apRearmCount) * apAutoOffMs ≤ (1 + apMaxRearms) * apAutoOffMs :=
    Nat.mul_le_mul_right _ (Nat.add_le_add_left h.rearms 1)
  have hd := hbox hrunning
  omega

theorem boxed_wifiInit : Boxed wifiInit :=
  ⟨by decide, fun _ => ⟨apAutoOffMs, rfl, by decide, by decide, fun h => absurd h (by decide)⟩⟩

/-- An access point that is off. -/
theorem boxed_off {s : SetupAp} (hrearms : s.apRearmCount ≤ apMaxRearms) (hmode : s.apMode = false) :
    Boxed s :=
  ⟨hrearms, fun h => absurd (hmode.symm.trans h) (by simp)⟩

theorem boxed_stopOnly {s : SetupAp} (hrearms : s.apRearmCount ≤ apMaxRearms) :
    Boxed (wifiApStopOnly s) := by
  rw [wifiApStopOnly]
  split
  · exact boxed_off (Nat.zero_le _) rfl
  · exact boxed_off hrearms rfl

/-- The timer is started while the session has paid for one more period, or the access point is off. -/
theorem boxed_startTimer {s : SetupAp} (hrearms : s.apRearmCount ≤ apMaxRearms)
    (hpaid : s.ApUp → s.now ≤ s.startedMs + s.apRearmCount * apAutoOffMs) :
    Boxed (wifiApStartTimer s) := by
  have hpos : 0 < apAutoOffMs := by decide
  refine ⟨hrearms, ?_⟩
  intro hmode
  refine ⟨s.now + apAutoOffMs, rfl, ?_, Nat.le_refl _, ?_⟩
  · show s.now < s.now + apAutoOffMs
    omega
  · intro hrunning
    have hlimit := hpaid ⟨hmode, hrunning⟩
    show s.now + apAutoOffMs ≤ s.startedMs + (1 + s.apRearmCount) * apAutoOffMs
    rw [Nat.add_mul]
    omega

/-- The control task, at the latest when the deadline of the session is reached: it spends a re-arm, or
closes. -/
theorem boxed_controlTask {s : SetupAp} (hrearms : s.apRearmCount ≤ apMaxRearms)
    (hnow : s.apMode = true → s.running = true →
      s.now ≤ s.startedMs + (1 + s.apRearmCount) * apAutoOffMs) : Boxed (wifiControlTask s) := by
  rw [wifiControlTask]
  by_cases hclient : s.apStaConnectedBit = true ∧ s.apRearmCount < apMaxRearms
  · rw [if_pos hclient]
    refine boxed_startTimer hclient.2 ?_
    intro hup
    show s.now ≤ s.startedMs + (s.apRearmCount + 1) * apAutoOffMs
    rw [Nat.add_comm s.apRearmCount 1]
    exact hnow hup.1 hup.2
  · rw [if_neg hclient]
    by_cases hmode : s.apMode = true
    · rw [if_pos hmode]
      exact boxed_stopOnly hrearms
    · rw [if_neg hmode]
      exact boxed_off hrearms (Bool.eq_false_iff.mpr hmode)

theorem step_pass (s : SetupAp) (ms : ℕ) : apMachine.step s (.pass ms) = pass s ms := rfl

/-- The timer is not due yet. -/
theorem pass_early {s : SetupAp} {d ms : ℕ} (htimer : s.timer = some d) (hlt : s.now + ms < d) :
    pass s ms = { s with now := s.now + ms } := by
  rw [pass, htimer]
  exact if_neg (Nat.not_le.mpr hlt)

/-- The timer fires. -/
theorem pass_due {s : SetupAp} {d ms : ℕ} (htimer : s.timer = some d) (hle : d ≤ s.now + ms) :
    pass s ms = wifiControlTask { s with now := d, timer := none } := by
  rw [pass, htimer]
  exact if_pos hle

theorem boxed_pass {s : SetupAp} (h : Boxed s) (ms : ℕ) : Boxed (pass s ms) := by
  cases htimer : s.timer with
  | none =>
      rw [pass, htimer]
      refine ⟨h.rearms, ?_⟩
      intro hmode
      obtain ⟨d, hd, _⟩ := h.deadline hmode
      exact absurd (htimer.symm.trans hd) (by simp)
  | some deadline =>
      by_cases hfires : deadline ≤ s.now + ms
      · rw [pass_due htimer hfires]
        refine boxed_controlTask h.rearms ?_
        intro hmode hrunning
        obtain ⟨d, hd, _, _, hbox⟩ := h.deadline hmode
        cases htimer.symm.trans hd
        exact hbox hrunning
      · rw [pass_early htimer (Nat.lt_of_not_le hfires)]
        refine ⟨h.rearms, ?_⟩
        intro hmode
        obtain ⟨d, hd, hnow, hperiod, hbox⟩ := h.deadline hmode
        cases htimer.symm.trans hd
        refine ⟨deadline, htimer, ?_, ?_, hbox⟩
        · show s.now + ms < deadline
          omega
        · show deadline ≤ s.now + ms + apAutoOffMs
          omega

theorem boxed_wifiStop {s : SetupAp} (h : Boxed s) : Boxed (wifiStop s) := by
  rw [wifiStop]
  split
  · refine ⟨Nat.zero_le _, ?_⟩
    intro hmode
    obtain ⟨d, hd, hnow, hperiod, _⟩ := h.deadline hmode
    exact ⟨d, hd, hnow, hperiod, fun hrunning => absurd hrunning (by simp [handleApStop])⟩
  · refine ⟨h.rearms, ?_⟩
    intro hmode
    obtain ⟨d, hd, hnow, hperiod, _⟩ := h.deadline hmode
    exact ⟨d, hd, hnow, hperiod, fun hrunning => absurd hrunning (by simp)⟩

/-- A new session, with the timer that runs already. -/
theorem boxed_wifiStart {s : SetupAp} (h : Boxed s) : Boxed (wifiStart s) := by
  rw [wifiStart]
  by_cases hrunning : s.running = true
  · rw [if_pos hrunning]
    exact h
  · rw [if_neg hrunning]
    by_cases hmode : s.apMode = true
    · rw [if_pos hmode]
      refine ⟨Nat.zero_le _, ?_⟩
      intro _
      obtain ⟨d, hd, hnow, hperiod, _⟩ := h.deadline hmode
      refine ⟨d, hd, hnow, hperiod, ?_⟩
      intro _
      show d ≤ s.now + (1 + 0) * apAutoOffMs
      omega
    · rw [if_neg hmode]
      exact boxed_off h.rearms (Bool.eq_false_iff.mpr hmode)

/-- **One event** on a provisioned unit keeps the deadline in its box, when it is paid for. -/
theorem step_boxed {s : SetupAp} (h : Boxed s) (e : ApEvent) (hprov : e.OnProvisioned)
    (hpaid : e.PaidFor s) : Boxed (apStep s e) := by
  cases e with
  | pass ms => exact boxed_pass h ms
  | staConnected => exact boxed_startTimer h.rearms (hpaid rfl)
  | staDisconnected provisioned =>
      show Boxed (handleStaDisconnected s provisioned)
      cases provisioned with
      | false => exact absurd rfl hprov
      | true => exact h
  | apStaConnected => exact ⟨h.rearms, h.deadline⟩
  | apStaDisconnected num =>
      show Boxed (handleApStaDisconnected s num)
      rw [handleApStaDisconnected]
      split
      · exact ⟨h.rearms, h.deadline⟩
      · exact h
  | apStopNow =>
      show Boxed (wifiApStopNow s)
      rw [wifiApStopNow]
      split
      · refine boxed_controlTask h.rearms ?_
        intro hmode hrunning
        obtain ⟨d, _, hnow, _, hbox⟩ := h.deadline hmode
        exact Nat.le_trans (Nat.le_of_lt hnow) (hbox hrunning)
      · exact h
  | wifiStop => exact boxed_wifiStop h
  | wifiStart => exact boxed_wifiStart h

/-! ### The defect -/

/-- The access point comes up at boot, no client ever joins, and the station interface is thrown off its
network and connects again every ten minutes. -/
def deauthRun : List ApEvent :=
  .wifiStart :: (List.replicate 6 [.pass (10 * 60 * 1000), .staDisconnected true, .staConnected]).flatten

/-- **The open access point is still up after an hour.** -/
theorem deauth_keeps_ap_open :
    (apMachine.run wifiInit deauthRun).ApUp ∧ (apMachine.run wifiInit deauthRun).startedMs = 0 ∧
      (apMachine.run wifiInit deauthRun).now = 60 * 60 * 1000 ∧
      ¬ TimeBoxed (apMachine.run wifiInit deauthRun) := by
  have hrun : apMachine.run wifiInit deauthRun =
      ⟨60 * 60 * 1000, true, true, some (75 * 60 * 1000), 0, false, 0⟩ := by decide +kernel
  rw [hrun]
  refine ⟨by decide, rfl, rfl, ?_⟩
  intro hboxed
  have hearly := hboxed (by decide)
  exact absurd hearly (by decide)

/-- While a client stays, each period spends a re-arm. -/
theorem run_rearms (k : ℕ) (s : SetupAp) (hclient : s.apStaConnectedBit = true)
    (htimer : s.timer = some (s.now + apAutoOffMs)) (hrearms : s.apRearmCount + k ≤ apMaxRearms) :
    apMachine.run s (List.replicate k (.pass apAutoOffMs)) =
      { s with
        now := s.now + k * apAutoOffMs
        timer := some (s.now + k * apAutoOffMs + apAutoOffMs)
        apRearmCount := s.apRearmCount + k } := by
  induction k generalizing s with
  | zero =>
      simp only [List.replicate_zero, Machine.run_nil, Nat.zero_mul, Nat.add_zero, ← htimer]
  | succ k ih =>
      have hstep : apMachine.step s (.pass apAutoOffMs) =
          { s with
            now := s.now + apAutoOffMs
            timer := some (s.now + apAutoOffMs + apAutoOffMs)
            apRearmCount := s.apRearmCount + 1 } := by
        rw [step_pass, pass_due htimer (Nat.le_refl _), wifiControlTask,
          if_pos ⟨hclient, by show s.apRearmCount < _; omega⟩]
        rfl
      rw [List.replicate_succ, Machine.run_cons, hstep]
      refine (ih _ ?_ rfl ?_).trans ?_
      · exact hclient
      · show s.apRearmCount + 1 + k ≤ apMaxRearms
        omega
      · simp only [Nat.succ_mul, SetupAp.mk.injEq, Option.some.injEq, true_and, and_true]
        omega

/-- **A late connection can be followed by an overrun**: a client joins and stays. -/
theorem late_connect_overruns {s : SetupAp} (hs : Boxed s) (hup : s.ApUp)
    (hlate : ¬ ApEvent.PaidFor s .staConnected) :
    ∃ es : List ApEvent, (∀ e ∈ es, e = .apStaConnected ∨ ∃ ms, e = .pass ms) ∧
      ¬ TimeBoxed (apMachine.run (apStep s .staConnected) es) := by
  have hage : s.startedMs + s.apRearmCount * apAutoOffMs < s.now := by
    by_contra hle
    exact hlate fun _ _ => Nat.le_of_not_lt hle
  obtain ⟨k, hk⟩ := Nat.exists_eq_add_of_le hs.rearms
  refine ⟨.apStaConnected :: List.replicate k (.pass apAutoOffMs) ++ [.pass (apAutoOffMs - 1)], ?_, ?_⟩
  · intro e he
    rcases List.mem_append.mp he with he | he
    · rcases List.mem_cons.mp he with rfl | he
      · exact Or.inl rfl
      · exact Or.inr ⟨_, List.eq_of_mem_replicate he⟩
    · exact Or.inr ⟨_, List.mem_singleton.mp he⟩
  · have hpos : 0 < apAutoOffMs := by decide
    have hmid : apMachine.run (apStep s .staConnected)
        (.apStaConnected :: List.replicate k (.pass apAutoOffMs)) =
        { s with
          now := s.now + k * apAutoOffMs
          timer := some (s.now + k * apAutoOffMs + apAutoOffMs)
          apRearmCount := s.apRearmCount + k
          apStaConnectedBit := true } :=
      run_rearms k (apStep (apStep s .staConnected) .apStaConnected) rfl rfl (Nat.le_of_eq hk.symm)
    rw [Machine.run_append, hmid, Machine.run_cons, Machine.run_nil, step_pass]
    -- one millisecond before the last deadline
    rw [pass_early rfl (by dsimp only; omega)]
    intro hboxed
    have hbound : s.now + k * apAutoOffMs + (apAutoOffMs - 1) <
        s.startedMs + (1 + apMaxRearms) * apAutoOffMs := hboxed hup
    rw [hk, Nat.add_mul, Nat.add_mul] at hbound
    omega

/-- **No session outlasts the time box** in a run on a provisioned unit in which every connection of the
station interface is paid for. -/
theorem timeBoxed_of_admits (es : List ApEvent) (hprov : ∀ e ∈ es, e.OnProvisioned)
    (hpaid : apMachine.Admits (fun s e => e.PaidFor s) wifiInit es) :
    TimeBoxed (apMachine.run wifiInit es) :=
  (apMachine.invariant (I := Boxed) (fun _ e hs he => step_boxed hs e he.2 he.1) boxed_wifiInit
    (apMachine.admits_and hpaid hprov)).timeBoxed

/-- A client stays for one more period, and the station interface reconnects when it is over. -/
theorem timeBoxed_example :
    TimeBoxed (apMachine.run wifiInit [.wifiStart, .staConnected, .apStaConnected, .pass apAutoOffMs,
      .staDisconnected true, .staConnected, .pass (10 * 60 * 1000)]) :=
  timeBoxed_of_admits [.wifiStart, .staConnected, .apStaConnected, .pass apAutoOffMs,
    .staDisconnected true, .staConnected, .pass (10 * 60 * 1000)] (by decide) (by decide)

end RtkdataFw.Wifi
