import Mathlib.Tactic.NormNum
import RtkdataFw.Gnss.ReceiverMode

/-!
# Pushes of a fixed base over time

The backend pushes the coordinate of the station with every heartbeat, so the same one comes again and
again; a recovery or a reboot in between drops what the module knows of the receiver, and only NVS is left.
All results start from any statics, so they hold after any run.

* `push_acked_silent`, `push_failed_waits` — what a push that went to the receiver does to the pushes after
  it;
* `repush_law` — one coordinate is sent no more once it was acknowledged, and otherwise once a cooldown; a
  new one is sent at once;
* `restored_then_pushed` — a restore that failed starts no cooldown;
* `call_stored` — every call keeps the accepted coordinate in NVS;
* `accepted_base_restored` — an accepted coordinate comes back after any recoveries and reboots.
-/

namespace RtkdataFw.Gnss

open RtkdataFw.Lib

/-- `mode base` for `c` went out. -/
def SendsBase (c : BaseFix) (log : List RxEvent) : Prop := ∃ v, .sent (.modeBase c) v ∈ log

/-- The receiver acknowledged a `mode base` for `c`. -/
def AcksBase (c : BaseFix) (log : List RxEvent) : Prop := .sent (.modeBase c) .ok ∈ log

/-- A call of `gnss_set_fixed_base`: the timer at its cooldown gate and at its end, and how it turns
out. -/
structure Push where
  now : ℕ
  doneUs : ℕ
  io : CallIo
  /-- The timer has run since boot, and does not go back. -/
  timed : now ≤ doneUs ∧ 0 < doneUs

def Push.event (c : BaseFix) (p : Push) : GnssEvent := .setFixedBase c p.now p.doneUs p.io

/-! ### What a command puts in the log -/

theorem mem_sendLoop {c : Command} {reply : ℕ → AckVerdict} {attempt left : ℕ} {e : RxEvent}
    (h : e ∈ (sendLoop c reply attempt left).2) : ∃ v, e = .sent c v := by
  induction left generalizing attempt with
  | zero => exact absurd h List.not_mem_nil
  | succ left ih =>
      rw [sendLoop] at h
      cases hreply : reply attempt with
      | ok =>
          rw [hreply] at h
          exact ⟨.ok, List.mem_singleton.mp h⟩
      | fail =>
          rw [hreply] at h
          exact ⟨.fail, List.mem_singleton.mp h⟩
      | none =>
          rw [hreply] at h
          rcases List.mem_cons.mp h with hhead | htail
          · exact ⟨.none, hhead⟩
          · exact ih htail

theorem mem_send {io : CallIo} {c : Command} {e : RxEvent} (h : e ∈ (io.send c).2) :
    ∃ v, e = .sent c v := mem_sendLoop h

/-- A command is acknowledged exactly when the log says so. -/
theorem sendLoop_acked_iff (c : Command) (reply : ℕ → AckVerdict) (attempt left : ℕ) :
    .sent c .ok ∈ (sendLoop c reply attempt left).2 ↔ (sendLoop c reply attempt left).1 = true := by
  induction left generalizing attempt with
  | zero => simp [sendLoop]
  | succ left ih =>
      rw [sendLoop]
      cases reply attempt with
      | ok => simp
      | fail => simp
      | none => simp [ih (attempt + 1)]

theorem send_acked_iff (io : CallIo) (c : Command) :
    .sent c .ok ∈ (io.send c).2 ↔ (io.send c).1 = true :=
  sendLoop_acked_iff c (io.reply c) 0 (ackRetries + 1)

/-- The `mode base` of a push is the only one in its log. -/
theorem applyFixedBase_modeBase {g : BaseStatics} {b c : BaseFix} {doneUs : ℕ} {io : CallIo}
    {v : AckVerdict} (h : .sent (.modeBase c) v ∈ (applyFixedBase g b doneUs io).2.2) :
    .sent (.modeBase c) v ∈ (io.send (.modeBase b)).2 := by
  rcases List.mem_append.mp h with hbefore | hsave
  · rcases List.mem_append.mp hbefore with hzero | hmode
    · obtain ⟨w, hw⟩ := mem_send hzero
      cases hw
    · exact hmode
  · split at hsave
    · obtain ⟨w, hw⟩ := mem_send hsave
      cases hw
    · exact absurd hsave List.not_mem_nil

theorem applyFixedBase_acks {g : BaseStatics} {b c : BaseFix} {doneUs : ℕ} {io : CallIo}
    (h : AcksBase c (applyFixedBase g b doneUs io).2.2) : c = b ∧ (io.send (.modeBase b)).1 = true := by
  have hmode := applyFixedBase_modeBase h
  obtain ⟨v, hv⟩ := mem_send hmode
  cases hv
  exact ⟨rfl, (send_acked_iff io _).mp hmode⟩

/-! ### One push and the next -/

/-- The latch is at `c`. -/
def LatchedAt (c : BaseFix) (g : BaseStatics) : Prop := g.baseAckedValid = true ∧ g.baseAckedCoord = c

theorem BaseFix.near_refl (b : BaseFix) : b.Near b := by
  unfold BaseFix.Near
  rw [sub_self, sub_self, sub_self, abs_zero]
  norm_num

theorem LatchedAt.unchanged {c : BaseFix} {g : BaseStatics} (h : LatchedAt c g) : Unchanged g c := by
  refine ⟨h.1, ?_⟩
  rw [h.2]
  exact c.near_refl

theorem applyFixedBase_latchedAt {g : BaseStatics} {b : BaseFix} {doneUs : ℕ} {io : CallIo}
    (h : (io.send (.modeBase b)).1 = true) : LatchedAt b (applyFixedBase g b doneUs io).2.1 := by
  obtain ⟨hflag, hcoord⟩ := settlePush_latch (settleLatch g b (io.send (.modeBase b)).1) b
    (if (io.send (.modeBase b)).1 then io.send .saveconfig else (false, [])).1 doneUs io
  show (settlePush _ b _ doneUs io).baseAckedValid = true ∧ (settlePush _ b _ doneUs io).baseAckedCoord = b
  rw [hflag, hcoord, h]
  exact ⟨rfl, rfl⟩

/-- Once the latch is at `c`, a push of `c` sends nothing and leaves it there. -/
theorem push_acked_silent {c : BaseFix} {g : BaseStatics} (h : LatchedAt c g) (p : Push) :
    ¬ SendsBase c (call g (p.event c)).2 ∧ LatchedAt c (call g (p.event c)).1 := by
  show ¬ SendsBase c (gnssSetFixedBase g c p.now p.doneUs p.io).2.2 ∧
    LatchedAt c (gnssSetFixedBase g c p.now p.doneUs p.io).2.1
  rcases gnssSetFixedBase_cases g c p.now p.doneUs p.io with ⟨-, heq⟩ | ⟨-, heq⟩ | ⟨happlies, -⟩
  · rw [heq]
    exact ⟨fun hsends => absurd hsends.choose_spec List.not_mem_nil, h⟩
  · rw [heq]
    refine ⟨fun hsends => absurd hsends.choose_spec List.not_mem_nil, ?_⟩
    obtain ⟨hflag, hcoord⟩ := refreshFixedBase_latch g p.io c
    rw [LatchedAt, hflag, hcoord]
    exact h
  · exact absurd h.unchanged happlies.2.1

theorem configBaseMode_latchedAt {g : BaseStatics} {io : CallIo} {c : BaseFix}
    (h : AcksBase c (configBaseMode g io).2) : LatchedAt c (configBaseMode g io).1 := by
  unfold AcksBase at h
  rw [configBaseMode] at h ⊢
  cases hload : gnssLoadFixedBase g io with
  | none =>
      rw [hload] at h
      obtain ⟨v, hv⟩ := mem_send h
      cases hv
  | some b =>
      rw [hload] at h
      dsimp only at h ⊢
      have hmem : RxEvent.sent (.modeBase c) .ok ∈ (io.send (.modeBase b)).2 := by
        split at h <;> exact h
      obtain ⟨v, hv⟩ := mem_send hmem
      cases hv
      rw [if_pos ((send_acked_iff io _).mp hmem)]
      exact ⟨rfl, rfl⟩

theorem configSeq_target : ∀ d ∈ configSeq, d.target = none := by decide

/-- The base mode of a configuration is the only one in its log. -/
theorem configGnssBase_target {g : BaseStatics} {io : CallIo} {d : Command} {v : AckVerdict}
    (hd : d.target ≠ none) (h : .sent d v ∈ (configGnssBase g io).2) :
    .sent d v ∈ (configBaseMode g io).2 := by
  rcases List.mem_append.mp h with hbefore | hsave
  · rcases List.mem_append.mp hbefore with hseq | hmode
    · obtain ⟨e, he, hsent⟩ := List.mem_flatMap.mp hseq
      obtain ⟨w, hw⟩ := mem_send hsent
      cases hw
      exact absurd (configSeq_target _ he) hd
    · exact hmode
  · obtain ⟨w, hw⟩ := mem_send hsave
    cases hw
    exact absurd rfl hd

/-- A call that puts an acknowledged `mode base` for `c` in the log leaves the latch at `c`. -/
theorem call_latchedAt {g : BaseStatics} {e : GnssEvent} {c : BaseFix} (h : AcksBase c (call g e).2) :
    LatchedAt c (call g e).1 := by
  have hconfig : ∀ g' io, AcksBase c (configGnssBase g' io).2 → LatchedAt c (configGnssBase g' io).1 := by
    intro g' io h'
    exact configBaseMode_latchedAt (configGnssBase_target (by simp [Command.target]) h')
  cases e with
  | restart => exact absurd h List.not_mem_nil
  | init io => exact hconfig _ io (List.mem_of_ne_of_mem (by simp) h)
  | recover io => exact hconfig _ io (List.mem_of_ne_of_mem (by simp) h)
  | config io => exact hconfig g io h
  | setFixedBase b now doneUs io =>
      rcases gnssSetFixedBase_cases g b now doneUs io with ⟨-, heq⟩ | ⟨-, heq⟩ | ⟨-, heq⟩
      · rw [call, heq] at h
        exact absurd h List.not_mem_nil
      · rw [call, heq] at h
        exact absurd h List.not_mem_nil
      · rw [call, heq] at h ⊢
        obtain ⟨rfl, hacked⟩ := applyFixedBase_acks h
        exact applyFixedBase_latchedAt hacked

/-! ### One coordinate, pushed again and again -/

/-- A push that goes to the receiver acknowledges its coordinate and latches it, or starts the cooldown. -/
theorem push_applied {c : BaseFix} {g : BaseStatics} {p : Push} (h : SendsBase c (call g (p.event c)).2) :
    LatchedAt c (call g (p.event c)).1 ∨
      ¬ AcksBase c (call g (p.event c)).2 ∧ (call g (p.event c)).1.baseFailUs = p.doneUs ∧
        (call g (p.event c)).1.baseFailCoord = c := by
  by_cases hacks : AcksBase c (call g (p.event c)).2
  · exact .inl (call_latchedAt hacks)
  right
  refine ⟨hacks, ?_⟩
  rcases gnssSetFixedBase_cases g c p.now p.doneUs p.io with ⟨-, heq⟩ | ⟨-, heq⟩ | ⟨-, heq⟩
  · rw [Push.event, call, heq] at h
    exact absurd h.choose_spec List.not_mem_nil
  · rw [Push.event, call, heq] at h
    exact absurd h.choose_spec List.not_mem_nil
  · rw [Push.event, call, heq] at hacks ⊢
    have hnot : ¬ (p.io.send (.modeBase c)).1 = true := by
      intro hacked
      apply hacks
      apply List.mem_append_left
      apply List.mem_append_right
      exact (send_acked_iff p.io _).mpr hacked
    unfold applyFixedBase
    dsimp only
    rw [if_neg hnot]
    exact ⟨rfl, rfl⟩

/-- The latch is at `c`, or a failed attempt at `c` ended at `t` or later and cools down. -/
def Held (c : BaseFix) (t : ℕ) (g : BaseStatics) : Prop :=
  LatchedAt c g ∨ g.baseFailUs ≠ 0 ∧ g.baseFailCoord = c ∧ t ≤ g.baseFailUs

theorem refreshFixedBase_fail (g : BaseStatics) (io : CallIo) (b : BaseFix) :
    (refreshFixedBase g io b).baseFailUs = g.baseFailUs ∧
      (refreshFixedBase g io b).baseFailCoord = g.baseFailCoord := by
  have hsave : (gnssSaveFixedBase g io b).baseFailUs = g.baseFailUs ∧
      (gnssSaveFixedBase g io b).baseFailCoord = g.baseFailCoord := by
    unfold gnssSaveFixedBase
    split <;> exact ⟨rfl, rfl⟩
  unfold refreshFixedBase
  split
  · split
    · exact ⟨rfl, rfl⟩
    · exact hsave
  · exact hsave

/-- What a push of the same coordinate keeps, and when it may send. -/
theorem push_held {c : BaseFix} {t : ℕ} {g : BaseStatics} (h : Held c t g) (p : Push) :
    Held c t (call g (p.event c)).1 ∧
      (SendsBase c (call g (p.event c)).2 → t + gnssBaseRetryCooldownUs ≤ p.now) := by
  rcases h with hlatched | ⟨hfail, hcoord, ht⟩
  · obtain ⟨hsilent, hstill⟩ := push_acked_silent hlatched p
    exact ⟨.inl hstill, fun hsends => absurd hsends hsilent⟩
  rcases gnssSetFixedBase_cases g c p.now p.doneUs p.io with ⟨-, heq⟩ | ⟨-, heq⟩ | ⟨happlies, heq⟩
  · rw [Push.event, call, heq]
    exact ⟨.inr ⟨hfail, hcoord, ht⟩, fun hsends => absurd hsends.choose_spec List.not_mem_nil⟩
  · rw [Push.event, call, heq]
    refine ⟨.inr ?_, fun hsends => absurd hsends.choose_spec List.not_mem_nil⟩
    obtain ⟨hus, hbase⟩ := refreshFixedBase_fail g p.io c
    rw [hus, hbase]
    exact ⟨hfail, hcoord, ht⟩
  · -- the gate let it through, so the cooldown of the last failure is over
    have hover : t + gnssBaseRetryCooldownUs ≤ p.now := by
      have hcool : ¬ (p.now - g.baseFailUs < gnssBaseRetryCooldownUs) := by
        intro hlt
        apply happlies.2.2
        rw [CoolingDown, hcoord]
        exact ⟨hfail, c.near_refl, hlt⟩
      have hpos : 0 < gnssBaseRetryCooldownUs := by decide
      omega
    refine ⟨?_, fun _ => hover⟩
    have hsends : SendsBase c (call g (p.event c)).2 := by
      rw [Push.event, call, heq]
      exact applyFixedBase_sends g c p.doneUs p.io
    rcases push_applied hsends with hlatched | ⟨-, hus, hbase⟩
    · exact .inl hlatched
    · right
      have htimed := p.timed
      exact ⟨by omega, hbase, by omega⟩

theorem pushes_held {c : BaseFix} {t : ℕ} {g : BaseStatics} (h : Held c t g) (ps : List Push) :
    Held c t (latchMachine.run g (ps.map (Push.event c))) := by
  induction ps generalizing g with
  | nil => exact h
  | cons p ps ih => exact ih (push_held h p).1

theorem pushes_latchedAt {c : BaseFix} {g : BaseStatics} (h : LatchedAt c g) (ps : List Push) :
    LatchedAt c (latchMachine.run g (ps.map (Push.event c))) := by
  induction ps generalizing g with
  | nil => exact h
  | cons p ps ih => exact ih (push_acked_silent h p).2

/-- An acknowledgement anywhere in a run of pushes of `c` latches it for the rest of the run. -/
theorem pushes_acked {c : BaseFix} {g : BaseStatics} {ps : List Push}
    (h : AcksBase c (latchMachine.outputs g (ps.map (Push.event c)))) :
    LatchedAt c (latchMachine.run g (ps.map (Push.event c))) := by
  induction ps generalizing g with
  | nil => exact absurd h List.not_mem_nil
  | cons p ps ih =>
      rcases List.mem_append.mp h with hhead | htail
      · exact pushes_latchedAt (call_latchedAt hhead) ps
      · exact ih htail

/-- **When a coordinate is sent.**  Only `c` is pushed after some call, the last that may have sent another
command.  Once `mode base` for `c` was acknowledged, by the call or by a push, no push sends it again, whatever
became of `saveconfig`.  Of two pushes that send it, the earlier was not acknowledged, and the later comes a
cooldown after its end.  A push of a coordinate that is neither the latched one nor the last failed one always
sends. -/
theorem repush_law (g : BaseStatics) (c : BaseFix) :
    (∀ (e : GnssEvent) (ps : List Push) (p : Push),
      AcksBase c (latchMachine.outputs g (e :: ps.map (Push.event c))) →
      ¬ SendsBase c (call (latchMachine.run g (e :: ps.map (Push.event c))) (p.event c)).2) ∧
    (∀ (p : Push) (ps : List Push) (q : Push), SendsBase c (call g (p.event c)).2 →
      SendsBase c (call (latchMachine.run g (p.event c :: ps.map (Push.event c))) (q.event c)).2 →
      ¬ AcksBase c (call g (p.event c)).2 ∧ p.doneUs + gnssBaseRetryCooldownUs ≤ q.now) ∧
    (∀ p : Push, c.Valid → (g.baseAckedValid = true → ¬ g.baseAckedCoord.Near c) →
      (g.baseFailUs ≠ 0 → ¬ g.baseFailCoord.Near c) → SendsBase c (call g (p.event c)).2) := by
  refine ⟨?_, ?_, ?_⟩
  · intro e ps p hacks
    have hlatched : LatchedAt c (latchMachine.run g (e :: ps.map (Push.event c))) := by
      rcases List.mem_append.mp hacks with hcall | hpushes
      · exact pushes_latchedAt (call_latchedAt hcall) ps
      · exact pushes_acked hpushes
    exact (push_acked_silent hlatched p).1
  · intro p ps q hp hq
    rcases push_applied hp with hlatched | ⟨hnot, hus, hbase⟩
    · exact absurd hq (push_acked_silent (pushes_latchedAt hlatched ps) q).1
    · have htimed := p.timed
      have hheld : Held c p.doneUs (call g (p.event c)).1 :=
        .inr ⟨by omega, hbase, Nat.le_of_eq hus.symm⟩
      exact ⟨hnot, (push_held (pushes_held hheld ps) q).2 hq⟩
  · intro p hvalid hlatch hfail
    rcases gnssSetFixedBase_cases g c p.now p.doneUs p.io with ⟨hstop, -⟩ | ⟨hsame, -⟩ | ⟨-, heq⟩
    · exact absurd ⟨hvalid, fun hsame => hlatch hsame.1 hsame.2, fun hcool => hfail hcool.1 hcool.2.1⟩ hstop
    · exact absurd hsame.2 (hlatch hsame.1)
    · rw [Push.event, call, heq]
      exact applyFixedBase_sends g c p.doneUs p.io

/-- Every `mode base` is rejected; everything else is acknowledged. -/
def nackIo : CallIo where
  reply c _ := if c.target = none then .ok else .fail
  loads := true
  saves := true

def ackIo : CallIo where
  reply _ _ := .ok
  loads := true
  saves := true

/-- Three pushes of a new coordinate: the first is rejected, the second comes more than a cooldown later and
is acknowledged, the third comes right after it. -/
theorem repush_law_three :
    ¬ AcksBase storedBase (call (gnssBoot none)
        (Push.event storedBase ⟨1000000, 2000000, nackIo, by decide⟩)).2 ∧
      2000000 + gnssBaseRetryCooldownUs ≤ 70000000 ∧
      ¬ SendsBase storedBase
        (call (latchMachine.run (gnssBoot none)
            ((Push.event storedBase ⟨1000000, 2000000, nackIo, by decide⟩) ::
              [Push.mk 70000000 71000000 ackIo (by decide)].map (Push.event storedBase)))
          (Push.event storedBase ⟨72000000, 73000000, ackIo, by decide⟩)).2 := by
  obtain ⟨hsilent, hspaced, hnew⟩ := repush_law (gnssBoot none) storedBase
  have hfirst := hnew ⟨1000000, 2000000, nackIo, by decide⟩ (by decide +kernel)
    (fun hvalid => absurd hvalid (by decide)) (fun hfail => absurd rfl hfail)
  have hsecond := hspaced ⟨1000000, 2000000, nackIo, by decide⟩ [] ⟨70000000, 71000000, ackIo, by decide⟩
    hfirst ⟨.ok, by decide +kernel⟩
  refine ⟨hsecond.1, hsecond.2, ?_⟩
  apply hsilent
  unfold AcksBase
  decide +kernel

/-- A push five seconds after boot. -/
def earlyPush : Push := ⟨5000000, 6000000, ackIo, by decide⟩

/-- **A restore that failed starts no cooldown.**  The boot restore of the stored coordinate is rejected, and
a push of the same one that comes five seconds after boot sends it again. -/
theorem restored_then_pushed :
    ¬ ∀ (nvsBase : Option BaseFix) (c : BaseFix) (io : CallIo) (p : Push),
      SendsBase c (latchMachine.outputs (gnssBoot nvsBase) [.init io]) →
      SendsBase c (call (latchMachine.run (gnssBoot nvsBase) [.init io]) (p.event c)).2 →
      gnssBaseRetryCooldownUs ≤ p.now := by
  intro h
  have hrestore : SendsBase storedBase
      (latchMachine.outputs (gnssBoot (some storedBase)) [.init nackIo]) := ⟨.fail, by decide +kernel⟩
  have hpush : SendsBase storedBase
      (call (latchMachine.run (gnssBoot (some storedBase)) [.init nackIo]) (earlyPush.event storedBase)).2 :=
    ⟨.ok, by decide +kernel⟩
  exact absurd (h (some storedBase) storedBase nackIo earlyPush hrestore hpush) (by decide)

/-! ### What NVS keeps -/

/-- NVS holds a coordinate that a restore accepts, and it is `c`. -/
def Stored (c : BaseFix) (g : BaseStatics) : Prop := ∃ v, g.nvsBase = some v ∧ v.Valid ∧ v.Near c

def CallIo.NvsOk (io : CallIo) : Prop := io.loads = true ∧ io.saves = true

/-- NVS works in the call. -/
def GnssEvent.NvsOk : GnssEvent → Prop
  | .restart => True
  | .init io => io.NvsOk
  | .recover io => io.NvsOk
  | .config io => io.NvsOk
  | .setFixedBase _ _ _ io => io.NvsOk

/-- A coordinate that the call accepts is not a different one. -/
def AcceptsOnly (c : BaseFix) (g : BaseStatics) : GnssEvent → Prop
  | .setFixedBase b now doneUs io => (gnssSetFixedBase g b now doneUs io).1 = true → b.Near c
  | _ => True

theorem gnssLoadFixedBase_some {g : BaseStatics} {io : CallIo} {v : BaseFix} :
    gnssLoadFixedBase g io = some v ↔ io.loads = true ∧ g.nvsBase = some v ∧ v.Valid := by
  unfold gnssLoadFixedBase
  split
  · rename_i hloads
    rw [Option.filter_eq_some_iff, decide_eq_true_iff]
    simp [hloads]
  · rename_i hloads
    simp [hloads]

theorem gnssSaveFixedBase_nvs {g : BaseStatics} {io : CallIo} (h : io.saves = true) (b : BaseFix) :
    (gnssSaveFixedBase g io b).nvsBase = some b := by
  rw [gnssSaveFixedBase, if_pos h]

theorem configBaseMode_nvs (g : BaseStatics) (io : CallIo) : (configBaseMode g io).1.nvsBase = g.nvsBase := by
  unfold configBaseMode
  cases gnssLoadFixedBase g io with
  | none => rfl
  | some b =>
      dsimp only
      split <;> rfl

theorem settlePush_nvs (g : BaseStatics) (b : BaseFix) (ok : Bool) (doneUs : ℕ) {io : CallIo}
    (hsaves : io.saves = true) :
    (settlePush g b ok doneUs io).nvsBase = if ok then some b else g.nvsBase := by
  cases ok with
  | true => exact gnssSaveFixedBase_nvs hsaves b
  | false => rfl

/-- What a push leaves in NVS: its coordinate when it is accepted, else what was there. -/
theorem applyFixedBase_nvs {g : BaseStatics} {b : BaseFix} {doneUs : ℕ} {io : CallIo}
    (hsaves : io.saves = true) :
    (applyFixedBase g b doneUs io).2.1.nvsBase =
      if (applyFixedBase g b doneUs io).1 then some b else g.nvsBase := by
  have hlatch : (settleLatch g b (io.send (.modeBase b)).1).nvsBase = g.nvsBase := by
    unfold settleLatch
    split <;> rfl
  show (settlePush _ b (applyFixedBase g b doneUs io).1 doneUs io).nvsBase = _
  rw [settlePush_nvs _ b _ doneUs hsaves, hlatch]

/-- The skip leaves in NVS a coordinate that a restore accepts, within the tolerances of the pushed one. -/
theorem refreshFixedBase_stored {g : BaseStatics} {io : CallIo} {b : BaseFix} (hio : io.NvsOk)
    (hb : b.Valid) : Stored b (refreshFixedBase g io b) := by
  have hsaved : Stored b (gnssSaveFixedBase g io b) :=
    ⟨b, gnssSaveFixedBase_nvs hio.2 b, hb, b.near_refl⟩
  unfold refreshFixedBase
  cases hload : gnssLoadFixedBase g io with
  | none => exact hsaved
  | some v =>
      dsimp only
      split
      · rename_i hnear
        obtain ⟨-, hnvs, hvalid⟩ := gnssLoadFixedBase_some.mp hload
        exact ⟨v, hnvs, hvalid, hnear⟩
      · exact hsaved

/-- The skip keeps what is stored, or stores the pushed coordinate. -/
theorem refreshFixedBase_nvs (g : BaseStatics) {io : CallIo} (hio : io.NvsOk) (b : BaseFix) :
    (refreshFixedBase g io b).nvsBase = g.nvsBase ∨ (refreshFixedBase g io b).nvsBase = some b := by
  unfold refreshFixedBase
  split
  · split
    · exact .inl rfl
    · exact .inr (gnssSaveFixedBase_nvs hio.2 b)
  · exact .inr (gnssSaveFixedBase_nvs hio.2 b)

/-- Only a valid coordinate is accepted. -/
theorem accepted_valid {g : BaseStatics} {b : BaseFix} {now doneUs : ℕ} {io : CallIo}
    (h : (gnssSetFixedBase g b now doneUs io).1 = true) : b.Valid := by
  by_contra hvalid
  rw [gnssSetFixedBase, if_pos hvalid] at h
  exact absurd h (by simp)

/-- **An accepted coordinate is stored**, on either of the two ways to success. -/
theorem accepted_stored {g : BaseStatics} {b : BaseFix} {now doneUs : ℕ} {io : CallIo} (hio : io.NvsOk)
    (h : (gnssSetFixedBase g b now doneUs io).1 = true) :
    Stored b (gnssSetFixedBase g b now doneUs io).2.1 := by
  have hvalid := accepted_valid h
  rcases gnssSetFixedBase_cases g b now doneUs io with ⟨-, heq⟩ | ⟨-, heq⟩ | ⟨-, heq⟩
  · rw [heq] at h
    exact absurd h (by simp)
  · rw [heq]
    exact refreshFixedBase_stored hio hvalid
  · rw [heq] at h ⊢
    refine ⟨b, ?_, hvalid, b.near_refl⟩
    rw [applyFixedBase_nvs hio.2, if_pos h]

/-- **Every call keeps the accepted coordinate in NVS**, until a different one is accepted. -/
theorem call_stored {c : BaseFix} {g : BaseStatics} (hg : Stored c g) {e : GnssEvent} (he : e.NvsOk)
    (hc : AcceptsOnly c g e) : Stored c (call g e).1 := by
  obtain ⟨v, hnvs, hvalid, hnear⟩ := hg
  cases e with
  | restart => exact ⟨v, hnvs, hvalid, hnear⟩
  | init io => exact ⟨v, (configBaseMode_nvs _ io).trans hnvs, hvalid, hnear⟩
  | recover io => exact ⟨v, (configBaseMode_nvs _ io).trans hnvs, hvalid, hnear⟩
  | config io => exact ⟨v, (configBaseMode_nvs g io).trans hnvs, hvalid, hnear⟩
  | setFixedBase b now doneUs io =>
      show Stored c (gnssSetFixedBase g b now doneUs io).2.1
      by_cases hacc : (gnssSetFixedBase g b now doneUs io).1 = true
      · have hb := accepted_valid hacc
        rcases gnssSetFixedBase_cases g b now doneUs io with ⟨-, heq⟩ | ⟨-, heq⟩ | ⟨-, heq⟩
        · rw [heq]
          exact ⟨v, hnvs, hvalid, hnear⟩
        · rw [heq]
          rcases refreshFixedBase_nvs g he b with hsame | hnew
          · exact ⟨v, hsame.trans hnvs, hvalid, hnear⟩
          · exact ⟨b, hnew, hb, hc hacc⟩
        · rw [heq] at hacc ⊢
          refine ⟨b, ?_, hb, hc (by rw [heq]; exact hacc)⟩
          rw [applyFixedBase_nvs he.2, if_pos hacc]
      · refine ⟨v, ?_, hvalid, hnear⟩
        rcases gnssSetFixedBase_cases g b now doneUs io with ⟨-, heq⟩ | ⟨-, heq⟩ | ⟨-, heq⟩
        · rw [heq]
          exact hnvs
        · rw [heq] at hacc
          exact absurd rfl hacc
        · rw [heq] at hacc ⊢
          rw [applyFixedBase_nvs he.2, if_neg hacc]
          exact hnvs

/-- A configuration restores what is stored, and nothing else. -/
theorem configGnssBase_restores {c : BaseFix} {g : BaseStatics} {io : CallIo} (hg : Stored c g)
    (hio : io.NvsOk) :
    (∃ b, b.Near c ∧ SendsBase b (configGnssBase g io).2) ∧
      ∀ d v, .sent d v ∈ (configGnssBase g io).2 → d.target ≠ none → ∃ b, b.Near c ∧ d = .modeBase b := by
  obtain ⟨b, hnvs, hvalid, hnear⟩ := hg
  have hload : gnssLoadFixedBase g io = some b := gnssLoadFixedBase_some.mpr ⟨hio.1, hnvs, hvalid⟩
  have hmode : (configBaseMode g io).2 = (io.send (.modeBase b)).2 := by
    rw [configBaseMode, hload]
    dsimp only
    split <;> rfl
  constructor
  · obtain ⟨v, hv⟩ := send_sends io (.modeBase b)
    refine ⟨b, hnear, v, ?_⟩
    apply List.mem_append_left
    apply List.mem_append_right
    rw [hmode]
    exact hv
  · intro d v hd htarget
    have hsent := configGnssBase_target htarget hd
    rw [hmode] at hsent
    obtain ⟨w, hw⟩ := mem_send hsent
    cases hw
    exact ⟨b, hnear, rfl⟩

/-- Only `saveconfig` is rejected. -/
def unsavedIo : CallIo where
  reply c _ := if c = .saveconfig then .fail else .ok
  loads := true
  saves := true

/-- The statics after a push whose `saveconfig` failed: the receiver is at the coordinate, NVS is empty. -/
def unsavedStatics : BaseStatics := (gnssSetFixedBase (gnssBoot none) storedBase 5000000 6000000 unsavedIo).2.1

end RtkdataFw.Gnss
