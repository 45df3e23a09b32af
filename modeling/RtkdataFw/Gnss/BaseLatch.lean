import Mathlib.Algebra.Order.Ring.Rat
import Mathlib.Data.List.Basic
import RtkdataFw.Gnss.Ack
import RtkdataFw.Lib.Machine
import RtkdataFw.Lib.Since

/-!
# The fixed base of `gnss.c` and the receiver behind it

The calls run one at a time under `s_txn`.  Each sends commands that the receiver acknowledges, rejects or
leaves unanswered, attempt by attempt; what it was sent and answered is the log of the run.  `Receiver` is
what the log makes of the receiver: it takes the height of a `mode base` as ellipsoidal when
`CONFIG UNDULATION 0.0` was acknowledged since the last hardware reset.

* `zeroed_iff`, `base_iff` — the receiver's state read off the log;
* `configGnssBase_latch`, `setFixedBase_latch` — what a call does to the latch and to the receiver;
* `step_latchOk_iff` — a call keeps the latch right exactly when it does not latch a base on a receiver
  without that command;
* `unzeroed_base_latched` — a lost command, a latched base, and a gate that keeps it;
* `latched_iff` — the latch is right throughout a run exactly when no call does so.
-/

namespace RtkdataFw.Gnss

open RtkdataFw.Lib

/-- `gnss_base_fix_t`. -/
structure BaseFix where
  lat : ℚ
  lon : ℚ
  h : ℚ
  deriving DecidableEq, Repr

inductive Command where
  | unlogCom1
  | configSignalGroup2
  /-- `CONFIG UNDULATION 0.0`. -/
  | configUndulationZero
  | mask10
  | rtcm (msg sec : ℕ)
  /-- `mode base <lat> <lon> <h>`. -/
  | modeBase (b : BaseFix)
  /-- `mode base time 300 1.5`. -/
  | modeBaseTime
  | saveconfig
  deriving DecidableEq, Repr

/-- What the receiver meets: a hardware reset, or a command with what came back in the time of one
attempt. -/
inductive RxEvent where
  | reset
  | sent (c : Command) (v : AckVerdict)
  deriving DecidableEq, Repr

/-! ### The receiver -/

structure Receiver where
  /-- `CONFIG UNDULATION 0.0` was acknowledged since the last hardware reset. -/
  zeroed : Bool
  /-- The fixed base last acknowledged, and whether its height was taken as ellipsoidal. -/
  base : Option (BaseFix × Bool)
  deriving DecidableEq, Repr

def receiverInit : Receiver := ⟨false, none⟩

def Receiver.ack (rx : Receiver) : Command → Receiver
  | .configUndulationZero => { rx with zeroed := true }
  | .modeBase b => { rx with base := some (b, rx.zeroed) }
  | .modeBaseTime => { rx with base := none }
  | _ => rx

def Receiver.step (rx : Receiver) : RxEvent → Receiver
  | .reset => receiverInit
  | .sent c .ok => rx.ack c
  | .sent _ _ => rx

/-- The receiver after a log. -/
def receiverAfter (log : List RxEvent) : Receiver := log.foldl Receiver.step receiverInit

/-- An event that settles which base mode the receiver is in. -/
def RxEvent.SetsBase : RxEvent → Prop
  | .reset => True
  | .sent (.modeBase _) .ok => True
  | .sent .modeBaseTime .ok => True
  | _ => False

/-- `CONFIG UNDULATION 0.0` was acknowledged, and no hardware reset came since. -/
def Zeroed (log : List RxEvent) : Prop :=
  Since (.sent .configUndulationZero .ok) (fun _ => True) (fun e => e ≠ .reset) log

/-- The last base mode of the log is a `mode base` at `c`, acknowledged when the undulation was zeroed, and
no hardware reset came since. -/
def CorrectHeight (log : List RxEvent) (c : BaseFix) : Prop :=
  Since (.sent (.modeBase c) .ok) Zeroed (fun e => ¬ e.SetsBase) log

/-! ### The code -/

def ackRetries : ℕ := 3

def gnssBaseRetryCooldownUs : ℕ := 60 * 1000 * 1000

/-- The attempts from `attempt` on, `left` of them: whether one was acknowledged, and what was sent. -/
def sendLoop (c : Command) (reply : ℕ → AckVerdict) (attempt : ℕ) : ℕ → Bool × List RxEvent
  | 0 => (false, [])
  | left + 1 =>
      match reply attempt with
      | .ok => (true, [.sent c .ok])
      | .fail => (false, [.sent c .fail])
      | .none =>
          let r := sendLoop c reply (attempt + 1) left
          (r.1, .sent c .none :: r.2)

def sendCmdAcked (c : Command) (reply : ℕ → AckVerdict) (retries : ℕ) : Bool × List RxEvent :=
  sendLoop c reply 0 (retries + 1)

/-- How everything outside turns out for one call: the verdict on each attempt at each command, and
whether NVS gives and takes the blob. -/
structure CallIo where
  reply : Command → ℕ → AckVerdict
  loads : Bool
  saves : Bool

def CallIo.send (io : CallIo) (c : Command) : Bool × List RxEvent :=
  sendCmdAcked c (io.reply c) ackRetries

/-- The statics of the module, and the blob in NVS. -/
structure BaseStatics where
  baseAckedValid : Bool
  baseAckedCoord : BaseFix
  baseFailUs : ℕ
  baseFailCoord : BaseFix
  nvsBase : Option BaseFix
  deriving DecidableEq, Repr

/-- The statics at boot. -/
def gnssBoot (nvsBase : Option BaseFix) : BaseStatics := ⟨false, ⟨0, 0, 0⟩, 0, ⟨0, 0, 0⟩, nvsBase⟩

def gnssReceiverEpochInvalidate (g : BaseStatics) : BaseStatics :=
  { g with baseAckedValid := false, baseFailUs := 0 }

def gnssCoordValid (lat lon : ℚ) : Prop :=
  ¬ (lat = 0 ∧ lon = 0) ∧ lat ≥ -90 ∧ lat ≤ 90 ∧ lon ≥ -180 ∧ lon ≤ 180

def gnssHeightValid (h : ℚ) : Prop := h ≥ -500 ∧ h ≤ 9000

def BaseFix.Valid (b : BaseFix) : Prop := gnssCoordValid b.lat b.lon ∧ gnssHeightValid b.h

instance (b : BaseFix) : Decidable b.Valid :=
  inferInstanceAs (Decidable ((¬ (_ ∧ _) ∧ _ ∧ _ ∧ _ ∧ _) ∧ _ ∧ _))

def gnssLoadFixedBase (g : BaseStatics) (io : CallIo) : Option BaseFix :=
  if io.loads then g.nvsBase.filter fun b => decide b.Valid else none

def gnssSaveFixedBase (g : BaseStatics) (io : CallIo) (b : BaseFix) : BaseStatics :=
  if io.saves then { g with nvsBase := some b } else g

/-- Equal up to 0.1 mm in position and 0.5 mm in height. -/
def BaseFix.Near (a b : BaseFix) : Prop :=
  |a.lat - b.lat| < 1 / 10 ^ 9 ∧ |a.lon - b.lon| < 1 / 10 ^ 9 ∧ |a.h - b.h| < 5 / 10 ^ 4

instance (a b : BaseFix) : Decidable (a.Near b) := inferInstanceAs (Decidable (_ ∧ _ ∧ _))

/-- The commands before the base mode. -/
def configSeq : List Command :=
  [.unlogCom1, .configSignalGroup2, .configUndulationZero, .mask10, .rtcm 1077 1, .rtcm 1087 1,
   .rtcm 1097 1, .rtcm 1117 1, .rtcm 1127 1, .rtcm 1137 1, .rtcm 1005 10, .rtcm 1033 10, .rtcm 1230 10]

/-- The base mode of a configuration: the stored coordinate, or a survey-in. -/
def configBaseMode (g : BaseStatics) (io : CallIo) : BaseStatics × List RxEvent :=
  match gnssLoadFixedBase g io with
  | some b =>
      let r := io.send (.modeBase b)
      if r.1 then ({ g with baseAckedValid := true, baseAckedCoord := b }, r.2)
      else ({ g with baseAckedValid := false }, r.2)
  | none => ({ g with baseAckedValid := false }, (io.send .modeBaseTime).2)

def configGnssBase (g : BaseStatics) (io : CallIo) : BaseStatics × List RxEvent :=
  let r := configBaseMode g io
  (r.1, configSeq.flatMap (fun c => (io.send c).2) ++ r.2 ++ (io.send .saveconfig).2)

/-- The idempotence gate. -/
def Unchanged (g : BaseStatics) (b : BaseFix) : Prop := g.baseAckedValid = true ∧ g.baseAckedCoord.Near b

/-- The same coordinate has just failed. -/
def CoolingDown (g : BaseStatics) (b : BaseFix) (now : ℕ) : Prop :=
  g.baseFailUs ≠ 0 ∧ g.baseFailCoord.Near b ∧ now - g.baseFailUs < gnssBaseRetryCooldownUs

instance (g : BaseStatics) (b : BaseFix) : Decidable (Unchanged g b) := inferInstanceAs (Decidable (_ ∧ _))

instance (g : BaseStatics) (b : BaseFix) (now : ℕ) : Decidable (CoolingDown g b now) :=
  inferInstanceAs (Decidable (_ ∧ _ ∧ _))

/-- NVS is refreshed when it holds another coordinate. -/
def refreshFixedBase (g : BaseStatics) (io : CallIo) (b : BaseFix) : BaseStatics :=
  match gnssLoadFixedBase g io with
  | some nv => if nv.Near b then g else gnssSaveFixedBase g io b
  | none => gnssSaveFixedBase g io b

/-- The `mode base` acknowledgement alone settles the latch. -/
def settleLatch (g : BaseStatics) (b : BaseFix) (acked : Bool) : BaseStatics :=
  if acked then { g with baseAckedValid := true, baseAckedCoord := b }
  else { g with baseAckedValid := false }

/-- The cooldown, and the blob that a push which went through leaves. -/
def settlePush (g : BaseStatics) (b : BaseFix) (ok : Bool) (doneUs : ℕ) (io : CallIo) : BaseStatics :=
  if ok then gnssSaveFixedBase { g with baseFailUs := 0 } io b
  else { g with baseFailUs := doneUs, baseFailCoord := b }

/-- The commands of a push, and what they leave in the statics.  The result of the first is not used. -/
def applyFixedBase (g : BaseStatics) (b : BaseFix) (doneUs : ℕ) (io : CallIo) :
    Bool × BaseStatics × List RxEvent :=
  let u := io.send .configUndulationZero
  let m := io.send (.modeBase b)
  let s := if m.1 then io.send .saveconfig else (false, [])
  (s.1, settlePush (settleLatch g b m.1) b s.1 doneUs io, u.2 ++ m.2 ++ s.2)

def gnssSetFixedBase (g : BaseStatics) (b : BaseFix) (now doneUs : ℕ) (io : CallIo) :
    Bool × BaseStatics × List RxEvent :=
  if ¬ b.Valid then (false, g, [])
  else if Unchanged g b then (true, refreshFixedBase g io b, [])
  else if CoolingDown g b now then (false, g, [])
  else applyFixedBase g b doneUs io

def gnssRecover (g : BaseStatics) (io : CallIo) : BaseStatics × List RxEvent :=
  let r := configGnssBase (gnssReceiverEpochInvalidate g) io
  (r.1, .reset :: r.2)

def gnssInit (g : BaseStatics) (io : CallIo) : BaseStatics × List RxEvent :=
  let r := configGnssBase (gnssReceiverEpochInvalidate g) io
  (r.1, .reset :: r.2)

/-! ### Runs -/

inductive GnssEvent where
  /-- The station reboots: the statics are lost, the receiver is not reset. -/
  | restart
  | init (io : CallIo)
  | recover (io : CallIo)
  | config (io : CallIo)
  | setFixedBase (b : BaseFix) (now doneUs : ℕ) (io : CallIo)

def call (g : BaseStatics) : GnssEvent → BaseStatics × List RxEvent
  | .restart => (gnssBoot g.nvsBase, [])
  | .init io => gnssInit g io
  | .recover io => gnssRecover g io
  | .config io => configGnssBase g io
  | .setFixedBase b now doneUs io => (gnssSetFixedBase g b now doneUs io).2

/-- The statics with the receiver that they speak of. -/
structure Rig where
  gnss : BaseStatics
  rx : Receiver
  deriving DecidableEq, Repr

def rigInit (nvsBase : Option BaseFix) : Rig := ⟨gnssBoot nvsBase, receiverInit⟩

def rig : Machine Rig GnssEvent RxEvent where
  step s e := ⟨(call s.gnss e).1, (call s.gnss e).2.foldl Receiver.step s.rx⟩
  out s e := (call s.gnss e).2

/-! ### Sending -/

/-- Only the attempt that is acknowledged moves the receiver. -/
theorem sendLoop_rx (c : Command) (reply : ℕ → AckVerdict) (attempt left : ℕ) (rx : Receiver) :
    (sendLoop c reply attempt left).2.foldl Receiver.step rx =
      if (sendLoop c reply attempt left).1 then rx.ack c else rx := by
  induction left generalizing attempt with
  | zero => rfl
  | succ left ih =>
      rw [sendLoop]
      cases reply attempt with
      | ok => rfl
      | fail => rfl
      | none => exact ih (attempt + 1)

theorem send_rx (io : CallIo) (c : Command) (rx : Receiver) :
    (io.send c).2.foldl Receiver.step rx = if (io.send c).1 then rx.ack c else rx :=
  sendLoop_rx c (io.reply c) 0 (ackRetries + 1) rx

/-- The commands before the base mode zero the undulation, when that one is acknowledged. -/
theorem configSeq_rx (io : CallIo) (rx : Receiver) :
    (configSeq.flatMap fun c => (io.send c).2).foldl Receiver.step rx =
      { rx with zeroed := rx.zeroed || (io.send .configUndulationZero).1 } := by
  simp only [configSeq, List.flatMap_cons, List.flatMap_nil, List.foldl_append, List.foldl_nil, send_rx,
    Receiver.ack, ite_self]
  cases (io.send .configUndulationZero).1 <;> simp

/-! ### What a call does to the latch -/

/-- A latched base is the one that the receiver has, at the right height. -/
def LatchOk (s : Rig) : Prop :=
  s.gnss.baseAckedValid = true → s.rx.base = some (s.gnss.baseAckedCoord, true)

/-- A configuration latches the stored base at the height that the receiver took it with. -/
theorem configGnssBase_latch (g : BaseStatics) (io : CallIo) (rx : Receiver) :
    LatchOk ⟨(configGnssBase g io).1, (configGnssBase g io).2.foldl Receiver.step rx⟩ ↔
      ∀ b ∈ gnssLoadFixedBase g io, (io.send (.modeBase b)).1 = true →
        rx.zeroed = true ∨ (io.send .configUndulationZero).1 = true := by
  unfold LatchOk configGnssBase
  simp only [List.foldl_append, configSeq_rx, send_rx, Receiver.ack, ite_self]
  unfold configBaseMode
  cases hload : gnssLoadFixedBase g io with
  | none => simp
  | some b =>
      cases hacked : (io.send (.modeBase b)).1 with
      | false => simp [hacked]
      | true => simp [hacked, send_rx, Receiver.ack]

/-- The push is not stopped by a guard. -/
def Applies (g : BaseStatics) (b : BaseFix) (now : ℕ) : Prop :=
  b.Valid ∧ ¬ Unchanged g b ∧ ¬ CoolingDown g b now

theorem gnssSaveFixedBase_latch (g : BaseStatics) (io : CallIo) (b : BaseFix) :
    (gnssSaveFixedBase g io b).baseAckedValid = g.baseAckedValid ∧
      (gnssSaveFixedBase g io b).baseAckedCoord = g.baseAckedCoord := by
  unfold gnssSaveFixedBase
  split <;> exact ⟨rfl, rfl⟩

theorem refreshFixedBase_latch (g : BaseStatics) (io : CallIo) (b : BaseFix) :
    (refreshFixedBase g io b).baseAckedValid = g.baseAckedValid ∧
      (refreshFixedBase g io b).baseAckedCoord = g.baseAckedCoord := by
  unfold refreshFixedBase
  split
  · split
    · exact ⟨rfl, rfl⟩
    · exact gnssSaveFixedBase_latch g io b
  · exact gnssSaveFixedBase_latch g io b

theorem settlePush_latch (g : BaseStatics) (b : BaseFix) (ok : Bool) (doneUs : ℕ) (io : CallIo) :
    (settlePush g b ok doneUs io).baseAckedValid = g.baseAckedValid ∧
      (settlePush g b ok doneUs io).baseAckedCoord = g.baseAckedCoord := by
  unfold settlePush
  split
  · exact gnssSaveFixedBase_latch _ io b
  · exact ⟨rfl, rfl⟩

/-- A push that goes to the receiver. -/
theorem applyFixedBase_latch (g : BaseStatics) (b : BaseFix) (doneUs : ℕ) (io : CallIo)
    (rx : Receiver) :
    LatchOk ⟨(applyFixedBase g b doneUs io).2.1,
        (applyFixedBase g b doneUs io).2.2.foldl Receiver.step rx⟩ ↔
      ((io.send (.modeBase b)).1 = true →
        rx.zeroed = true ∨ (io.send .configUndulationZero).1 = true) := by
  unfold LatchOk applyFixedBase
  dsimp only
  obtain ⟨hflag, hcoord⟩ := settlePush_latch (settleLatch g b (io.send (.modeBase b)).1) b
    (if (io.send (.modeBase b)).1 then io.send .saveconfig else (false, [])).1 doneUs io
  rw [hflag, hcoord]
  simp only [List.foldl_append, send_rx]
  cases hacked : (io.send (.modeBase b)).1 with
  | false => simp [settleLatch]
  | true =>
      simp only [settleLatch, if_true, send_rx, Receiver.ack, ite_self, forall_const, Option.some.injEq,
        Prod.mk.injEq, true_and]
      cases (io.send .configUndulationZero).1 <;> simp

/-- Which way a push goes: stopped by a guard, already there, or to the receiver. -/
theorem gnssSetFixedBase_cases (g : BaseStatics) (b : BaseFix) (now doneUs : ℕ) (io : CallIo) :
    ¬ Applies g b now ∧ gnssSetFixedBase g b now doneUs io = (false, g, []) ∨
      Unchanged g b ∧ gnssSetFixedBase g b now doneUs io = (true, refreshFixedBase g io b, []) ∨
      Applies g b now ∧ gnssSetFixedBase g b now doneUs io = applyFixedBase g b doneUs io := by
  rw [gnssSetFixedBase]
  by_cases hvalid : b.Valid
  · rw [if_neg (not_not.mpr hvalid)]
    by_cases hsame : Unchanged g b
    · rw [if_pos hsame]
      exact Or.inr (Or.inl ⟨hsame, rfl⟩)
    · rw [if_neg hsame]
      by_cases hcool : CoolingDown g b now
      · rw [if_pos hcool]
        exact Or.inl ⟨fun happlies => happlies.2.2 hcool, rfl⟩
      · rw [if_neg hcool]
        exact Or.inr (Or.inr ⟨⟨hvalid, hsame, hcool⟩, rfl⟩)
  · rw [if_pos hvalid]
    exact Or.inl ⟨fun happlies => hvalid happlies.1, rfl⟩

/-- **A push.**  Stopped by a guard it leaves the latch and the receiver as they were. -/
theorem setFixedBase_latch {g : BaseStatics} {rx : Receiver} (hs : LatchOk ⟨g, rx⟩) (b : BaseFix)
    (now doneUs : ℕ) (io : CallIo) :
    LatchOk ⟨(gnssSetFixedBase g b now doneUs io).2.1,
        (gnssSetFixedBase g b now doneUs io).2.2.foldl Receiver.step rx⟩ ↔
      (Applies g b now → (io.send (.modeBase b)).1 = true →
        rx.zeroed = true ∨ (io.send .configUndulationZero).1 = true) := by
  rcases gnssSetFixedBase_cases g b now doneUs io with ⟨hstop, heq⟩ | ⟨hsame, heq⟩ | ⟨happlies, heq⟩
  · rw [heq]
    exact iff_of_true hs fun happlies => absurd happlies hstop
  · rw [heq]
    refine iff_of_true ?_ fun happlies => absurd hsame happlies.2.1
    obtain ⟨hflag, hcoord⟩ := refreshFixedBase_latch g io b
    unfold LatchOk
    rw [hflag, hcoord]
    exact hs
  · rw [heq, applyFixedBase_latch]
    exact ⟨fun h _ => h, fun h => h happlies⟩

/-- The call latches no base on a receiver that has not acknowledged `CONFIG UNDULATION 0.0` since its last
hardware reset: where a `mode base` is sent and acknowledged, that command was too, in the call or, when
the call does not reset, before. -/
def Zeroes (s : Rig) : GnssEvent → Prop
  | .restart => True
  | .init io =>
      ∀ b ∈ gnssLoadFixedBase s.gnss io, (io.send (.modeBase b)).1 = true →
        (io.send .configUndulationZero).1 = true
  | .recover io =>
      ∀ b ∈ gnssLoadFixedBase s.gnss io, (io.send (.modeBase b)).1 = true →
        (io.send .configUndulationZero).1 = true
  | .config io =>
      ∀ b ∈ gnssLoadFixedBase s.gnss io, (io.send (.modeBase b)).1 = true →
        s.rx.zeroed = true ∨ (io.send .configUndulationZero).1 = true
  | .setFixedBase b now _ io =>
      Applies s.gnss b now → (io.send (.modeBase b)).1 = true →
        s.rx.zeroed = true ∨ (io.send .configUndulationZero).1 = true

/-- After a hardware reset the receiver has nothing but what the configuration gives it. -/
theorem gnssRecover_latch (g : BaseStatics) (io : CallIo) (rx : Receiver) :
    LatchOk ⟨(gnssRecover g io).1, (gnssRecover g io).2.foldl Receiver.step rx⟩ ↔
      ∀ b ∈ gnssLoadFixedBase g io, (io.send (.modeBase b)).1 = true →
        (io.send .configUndulationZero).1 = true := by
  have hconfig := configGnssBase_latch (gnssReceiverEpochInvalidate g) io receiverInit
  have hzero : receiverInit.zeroed = false := rfl
  simp only [hzero, Bool.false_eq_true, false_or] at hconfig
  exact hconfig

/-- **A call keeps the latch right exactly when it zeroes.** -/
theorem step_latchOk_iff {s : Rig} (hs : LatchOk s) (e : GnssEvent) :
    LatchOk (rig.step s e) ↔ Zeroes s e := by
  cases e with
  | restart => exact iff_of_true (fun hvalid => absurd hvalid (by simp [rig, call, gnssBoot])) trivial
  | init io => exact gnssRecover_latch s.gnss io s.rx
  | recover io => exact gnssRecover_latch s.gnss io s.rx
  | config io => exact configGnssBase_latch s.gnss io s.rx
  | setFixedBase b now doneUs io => exact setFixedBase_latch hs b now doneUs io

/-! ### The receiver read off the log -/

theorem receiverAfter_append (log log' : List RxEvent) :
    receiverAfter (log ++ log') = log'.foldl Receiver.step (receiverAfter log) :=
  List.foldl_append

theorem step_zeroed (rx : Receiver) (e : RxEvent) :
    (rx.step e).zeroed = true ↔
      e = .sent .configUndulationZero .ok ∧ True ∨ e ≠ .reset ∧ rx.zeroed = true := by
  cases e with
  | reset => simp [Receiver.step, receiverInit]
  | sent c v => cases v <;> cases c <;> simp [Receiver.step, Receiver.ack]

theorem zeroed_iff (log : List RxEvent) : (receiverAfter log).zeroed = true ↔ Zeroed log :=
  fold_iff_since (P := fun rx : Receiver => rx.zeroed = true) (by simp [receiverInit])
    (fun log e => step_zeroed (log.foldl Receiver.step receiverInit) e) log

theorem step_base (rx : Receiver) (e : RxEvent) (c : BaseFix) :
    (rx.step e).base = some (c, true) ↔
      e = .sent (.modeBase c) .ok ∧ rx.zeroed = true ∨ ¬ e.SetsBase ∧ rx.base = some (c, true) := by
  cases e with
  | reset => simp [Receiver.step, receiverInit, RxEvent.SetsBase]
  | sent d v => cases v <;> cases d <;> simp [Receiver.step, Receiver.ack, RxEvent.SetsBase]

/-- **The receiver has `c` at the right height** exactly when the log says so. -/
theorem base_iff (log : List RxEvent) (c : BaseFix) :
    (receiverAfter log).base = some (c, true) ↔ CorrectHeight log c := by
  refine fold_iff_since (P := fun rx : Receiver => rx.base = some (c, true))
    (by simp [receiverInit]) ?_ log
  intro log e
  rw [step_base, ← zeroed_iff]
  rfl

/-- The receiver beside the statics is what the log makes of it. -/
theorem run_rx (nvsBase : Option BaseFix) (es : List GnssEvent) :
    (rig.run (rigInit nvsBase) es).rx = receiverAfter (rig.outputs (rigInit nvsBase) es) := by
  refine rig.history_nil (P := fun s log => s.rx = receiverAfter log) ?_ rfl
    (rig.admits_true (rigInit nvsBase) es)
  intro s log e hs _
  rw [receiverAfter_append, ← hs]
  rfl

/-! ### The latch over a run -/

/-- A latched base was acknowledged with the undulation zeroed since the last hardware reset, so the
receiver, which the gate keeps from being told again, has it at the right height. -/
def Latched (s : Rig) (log : List RxEvent) : Prop :=
  s.gnss.baseAckedValid = true →
    CorrectHeight log s.gnss.baseAckedCoord ∧ s.rx.base = some (s.gnss.baseAckedCoord, true)

theorem latched_iff_latchOk (nvsBase : Option BaseFix) (es : List GnssEvent) :
    Latched (rig.run (rigInit nvsBase) es) (rig.outputs (rigInit nvsBase) es) ↔
      LatchOk (rig.run (rigInit nvsBase) es) := by
  unfold Latched LatchOk
  rw [← base_iff, ← run_rx, and_self]

def storedBase : BaseFix := ⟨48137 / 1000, 11576 / 1000, 341504 / 10000⟩

/-- Every attempt at `CONFIG UNDULATION 0.0` times out; everything else is acknowledged. -/
def deafIo : CallIo where
  reply c _ := if c = .configUndulationZero then .none else .ok
  loads := true
  saves := true

/-- **A base at the wrong height is latched.**  The boot restore latches the stored coordinate although the
receiver never acknowledged `CONFIG UNDULATION 0.0`; a push of the same coordinate an hour later, when it
would, is answered with success and sends nothing. -/
theorem unzeroed_base_latched :
    (rig.run (rigInit (some storedBase)) [.init deafIo]).gnss.baseAckedValid = true ∧
      (rig.run (rigInit (some storedBase)) [.init deafIo]).rx = ⟨false, some (storedBase, false)⟩ ∧
      (gnssSetFixedBase (rig.run (rigInit (some storedBase)) [.init deafIo]).gnss storedBase 3600000000
        3600000000 ⟨fun _ _ => .ok, true, true⟩).1 = true ∧
      (gnssSetFixedBase (rig.run (rigInit (some storedBase)) [.init deafIo]).gnss storedBase 3600000000
        3600000000 ⟨fun _ _ => .ok, true, true⟩).2.2 = [] ∧
      ¬ Latched (rig.run (rigInit (some storedBase)) [.init deafIo])
        (rig.outputs (rigInit (some storedBase)) [.init deafIo]) := by
  have hvalid : (rig.run (rigInit (some storedBase)) [.init deafIo]).gnss.baseAckedValid = true := by
    decide +kernel
  have hrx : (rig.run (rigInit (some storedBase)) [.init deafIo]).rx =
      ⟨false, some (storedBase, false)⟩ := by decide +kernel
  refine ⟨hvalid, hrx, by decide +kernel, by decide +kernel, ?_⟩
  intro h
  have hbase := (h hvalid).2
  rw [hrx] at hbase
  exact absurd hbase (by simp)

/-- **The latch throughout a run.**  Whatever NVS holds at first, a latched base is a correct-height base in
every state of a run if and only if every call zeroes. -/
theorem latched_iff (nvsBase : Option BaseFix) (es : List GnssEvent) :
    (∀ fs, fs <+: es →
      Latched (rig.run (rigInit nvsBase) fs) (rig.outputs (rigInit nvsBase) fs)) ↔
    rig.Admits Zeroes (rigInit nvsBase) es := by
  simp only [latched_iff_latchOk]
  refine rig.invariant_iff (I := LatchOk) (fun s e hs => step_latchOk_iff hs e) ?_ es
  exact fun hvalid => absurd hvalid (by simp [rigInit, gnssBoot])

end RtkdataFw.Gnss
