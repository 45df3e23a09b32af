import RtkdataFw.Gnss.BaseLatch

/-!
# The latch and the base mode of the receiver

The station only knows what was acknowledged.  The receiver is free in all else: a base mode that is
rejected or not answered may or may not be applied, and after a hardware reset it may be in any mode.

* `Behaves` — the modes that a receiver may go through under a log;
* `send_behaves` — what a command leaves behind, whatever becomes of its attempts;
* `call_latchTrue` — every call leaves the latch true, for every receiver;
* `latch_truth` — in every run a latched coordinate is the mode of the receiver, and a push that succeeds
  without a `mode base` found the receiver at its coordinate.
-/

namespace RtkdataFw.Gnss

open RtkdataFw.Lib

inductive BaseMode where
  | fixed (b : BaseFix)
  | surveyIn
  | other
  deriving DecidableEq, Repr

/-- The base mode that a command asks for. -/
def Command.target : Command → Option BaseMode
  | .modeBase b => some (.fixed b)
  | .modeBaseTime => some .surveyIn
  | _ => none

/-- The mode after one attempt: an acknowledged command is applied, any other may be. -/
def Moves : RxEvent → BaseMode → BaseMode → Prop
  | .reset, _, _ => True
  | .sent c .ok, m, m' => m' = c.target.getD m
  | .sent c _, m, m' => m' = m ∨ c.target = some m'

/-- A receiver in mode `m` may be in mode `m'` after the log. -/
def Behaves : List RxEvent → BaseMode → BaseMode → Prop
  | [], m, m' => m' = m
  | e :: log, m, m' => ∃ mid, Moves e m mid ∧ Behaves log mid m'

/-- The statics alone, with the log of their commands. -/
def latchMachine : Machine BaseStatics GnssEvent RxEvent where
  step g e := (call g e).1
  out g e := (call g e).2

/-- A latched base is the mode that the receiver is in. -/
def LatchTrue (g : BaseStatics) (m : BaseMode) : Prop :=
  g.baseAckedValid = true → m = .fixed g.baseAckedCoord

theorem behaves_append {log log' : List RxEvent} {m m' : BaseMode} :
    Behaves (log ++ log') m m' ↔ ∃ mid, Behaves log m mid ∧ Behaves log' mid m' := by
  induction log generalizing m with
  | nil =>
      constructor
      · exact fun h => ⟨m, rfl, h⟩
      · intro h
        obtain ⟨mid, rfl, h⟩ := h
        exact h
  | cons e log ih =>
      constructor
      · intro h
        obtain ⟨next, hmove, hrest⟩ := h
        obtain ⟨mid, hlog, hlog'⟩ := ih.mp hrest
        exact ⟨mid, ⟨next, hmove, hlog⟩, hlog'⟩
      · intro h
        obtain ⟨mid, ⟨next, hmove, hlog⟩, hlog'⟩ := h
        exact ⟨next, hmove, ih.mpr ⟨mid, hlog, hlog'⟩⟩

/-! ### One command -/

/-- What the attempts at a command leave: the mode that it asks for when one was acknowledged, else that
mode or the one before. -/
theorem sendLoop_behaves (c : Command) (reply : ℕ → AckVerdict) (attempt left : ℕ) {m m' : BaseMode}
    (h : Behaves (sendLoop c reply attempt left).2 m m') :
    ((sendLoop c reply attempt left).1 = true → m' = c.target.getD m) ∧
      (m' = m ∨ c.target = some m') := by
  induction left generalizing attempt m with
  | zero => exact ⟨fun hacked => absurd hacked (by simp [sendLoop]), Or.inl h⟩
  | succ left ih =>
      rw [sendLoop] at h ⊢
      cases hreply : reply attempt with
      | ok =>
          rw [hreply] at h
          obtain ⟨mid, hmove, rfl⟩ := h
          refine ⟨fun _ => hmove, ?_⟩
          cases htarget : c.target with
          | none =>
              rw [Moves, htarget] at hmove
              exact Or.inl hmove
          | some t =>
              rw [Moves, htarget] at hmove
              exact Or.inr (congrArg some hmove.symm)
      | fail =>
          rw [hreply] at h
          obtain ⟨mid, hmove, rfl⟩ := h
          exact ⟨fun hacked => absurd hacked (by simp), hmove⟩
      | none =>
          rw [hreply] at h
          obtain ⟨mid, hmove, hrest⟩ := h
          obtain ⟨hacked, hmid⟩ := ih (attempt + 1) hrest
          -- the attempt that went unanswered moved the receiver to the target or not at all
          rcases hmove with rfl | hmove
          · exact ⟨hacked, hmid⟩
          · rw [hmove, Option.getD_some] at hacked
            refine ⟨?_, Or.inr ?_⟩
            · intro hok
              rw [hmove, Option.getD_some]
              exact hacked hok
            · rcases hmid with rfl | hmid
              · exact hmove
              · exact hmid

theorem send_behaves {io : CallIo} {c : Command} {m m' : BaseMode} (h : Behaves (io.send c).2 m m') :
    ((io.send c).1 = true → m' = c.target.getD m) ∧ (m' = m ∨ c.target = some m') :=
  sendLoop_behaves c (io.reply c) 0 (ackRetries + 1) h

/-- A command that asks for no base mode leaves the mode alone. -/
theorem send_same {io : CallIo} {c : Command} (hc : c.target = none) {m m' : BaseMode}
    (h : Behaves (io.send c).2 m m') : m' = m := by
  rcases (send_behaves h).2 with heq | htarget
  · exact heq
  · rw [hc] at htarget
    exact absurd htarget (by simp)

/-- A `mode base` that was acknowledged. -/
theorem send_modeBase {io : CallIo} {b : BaseFix} (hacked : (io.send (.modeBase b)).1 = true)
    {m m' : BaseMode} (h : Behaves (io.send (.modeBase b)).2 m m') : m' = .fixed b :=
  (send_behaves h).1 hacked

/-! ### The calls -/

/-- Whatever the receiver does before and after it, the base mode of a configuration settles the latch. -/
theorem configBaseMode_latchTrue (g : BaseStatics) (io : CallIo) {m m' : BaseMode}
    (h : Behaves (configBaseMode g io).2 m m') : LatchTrue (configBaseMode g io).1 m' := by
  rw [configBaseMode] at h ⊢
  cases hload : gnssLoadFixedBase g io with
  | none => exact fun hvalid => absurd hvalid (by simp)
  | some b =>
      rw [hload] at h
      dsimp only at h ⊢
      by_cases hacked : (io.send (.modeBase b)).1 = true
      · rw [if_pos hacked] at h ⊢
        intro _
        exact send_modeBase hacked h
      · rw [if_neg hacked]
        exact fun hvalid => absurd hvalid (by simp)

theorem configGnssBase_latchTrue (g : BaseStatics) (io : CallIo) {m m' : BaseMode}
    (h : Behaves (configGnssBase g io).2 m m') : LatchTrue (configGnssBase g io).1 m' := by
  obtain ⟨saved, hbefore, hsave⟩ := behaves_append.mp h
  obtain ⟨configured, _, hmode⟩ := behaves_append.mp hbefore
  rw [send_same rfl hsave]
  exact configBaseMode_latchTrue g io hmode

/-- A push that goes to the receiver. -/
theorem applyFixedBase_latchTrue (g : BaseStatics) (b : BaseFix) (doneUs : ℕ) (io : CallIo)
    {m m' : BaseMode} (h : Behaves (applyFixedBase g b doneUs io).2.2 m m') :
    LatchTrue (applyFixedBase g b doneUs io).2.1 m' := by
  obtain ⟨pushed, hbefore, hsave⟩ := behaves_append.mp h
  obtain ⟨zeroed, _, hmode⟩ := behaves_append.mp hbefore
  obtain ⟨hflag, hcoord⟩ := settlePush_latch (settleLatch g b (io.send (.modeBase b)).1) b
    (if (io.send (.modeBase b)).1 then io.send .saveconfig else (false, [])).1 doneUs io
  show (settlePush _ b _ doneUs io).baseAckedValid = true →
    m' = .fixed (settlePush _ b _ doneUs io).baseAckedCoord
  rw [hflag, hcoord]
  by_cases hacked : (io.send (.modeBase b)).1 = true
  · rw [if_pos hacked] at hsave
    rw [settleLatch, if_pos hacked]
    intro _
    rw [send_same rfl hsave]
    exact send_modeBase hacked hmode
  · rw [settleLatch, if_neg hacked]
    exact fun hvalid => absurd hvalid (by simp)

theorem setFixedBase_latchTrue {g : BaseStatics} {m : BaseMode} (hg : LatchTrue g m) (b : BaseFix)
    (now doneUs : ℕ) (io : CallIo) {m' : BaseMode}
    (h : Behaves (gnssSetFixedBase g b now doneUs io).2.2 m m') :
    LatchTrue (gnssSetFixedBase g b now doneUs io).2.1 m' := by
  rcases gnssSetFixedBase_cases g b now doneUs io with ⟨_, heq⟩ | ⟨_, heq⟩ | ⟨_, heq⟩
  · rw [heq] at h ⊢
    cases h
    exact hg
  · rw [heq] at h ⊢
    cases h
    obtain ⟨hflag, hcoord⟩ := refreshFixedBase_latch g io b
    rw [LatchTrue, hflag, hcoord]
    exact hg
  · rw [heq] at h ⊢
    exact applyFixedBase_latchTrue g b doneUs io h

/-- **Every call leaves the latch true**, for every receiver. -/
theorem call_latchTrue {g : BaseStatics} {m : BaseMode} (hg : LatchTrue g m) (e : GnssEvent)
    {m' : BaseMode} (h : Behaves (call g e).2 m m') : LatchTrue (call g e).1 m' := by
  cases e with
  | restart => exact fun hvalid => absurd hvalid (by simp [call, gnssBoot])
  | init io =>
      obtain ⟨mid, _, hconfig⟩ := h
      exact configGnssBase_latchTrue _ io hconfig
  | recover io =>
      obtain ⟨mid, _, hconfig⟩ := h
      exact configGnssBase_latchTrue _ io hconfig
  | config io => exact configGnssBase_latchTrue g io h
  | setFixedBase b now doneUs io => exact setFixedBase_latchTrue hg b now doneUs io h

/-! ### Runs -/

/-- The latch is true after every run. -/
theorem run_latchTrue (nvsBase : Option BaseFix) (es : List GnssEvent) {m m' : BaseMode}
    (h : Behaves (latchMachine.outputs (gnssBoot nvsBase) es) m m') :
    LatchTrue (latchMachine.run (gnssBoot nvsBase) es) m' := by
  have hrun := latchMachine.history_nil
    (P := fun g log => ∀ mode, Behaves log m mode → LatchTrue g mode)
    (fun g log e hg _ mode hmode => by
      obtain ⟨mid, hlog, hcall⟩ := behaves_append.mp hmode
      exact call_latchTrue (hg mid hlog) e hcall)
    (fun mode _ hvalid => absurd hvalid (by simp [gnssBoot]))
    (latchMachine.admits_true (gnssBoot nvsBase) es)
  exact hrun m' h

/-- A command goes out at least once. -/
theorem send_sends (io : CallIo) (c : Command) : ∃ v, .sent c v ∈ (io.send c).2 := by
  show ∃ v, _ ∈ (sendLoop c (io.reply c) 0 (ackRetries + 1)).2
  rw [sendLoop]
  cases io.reply c 0 with
  | ok => exact ⟨.ok, List.mem_cons_self⟩
  | fail => exact ⟨.fail, List.mem_cons_self⟩
  | none => exact ⟨.none, List.mem_cons_self⟩

/-- A push to the receiver always sends its `mode base`. -/
theorem applyFixedBase_sends (g : BaseStatics) (b : BaseFix) (doneUs : ℕ) (io : CallIo) :
    ∃ v, .sent (.modeBase b) v ∈ (applyFixedBase g b doneUs io).2.2 := by
  obtain ⟨v, hv⟩ := send_sends io (.modeBase b)
  exact ⟨v, List.mem_append_left _ (List.mem_append_right _ hv)⟩

/-- A receiver that applies what it acknowledges and nothing else. -/
def modeAfter (m : BaseMode) : List RxEvent → BaseMode
  | [] => m
  | .reset :: log => modeAfter .other log
  | .sent c .ok :: log => modeAfter (c.target.getD m) log
  | .sent _ _ :: log => modeAfter m log

/-- Every log is one that some receiver goes through. -/
theorem behaves_modeAfter (log : List RxEvent) (m : BaseMode) : Behaves log m (modeAfter m log) := by
  induction log generalizing m with
  | nil => rfl
  | cons e log ih =>
      cases e with
      | reset => exact ⟨.other, trivial, ih .other⟩
      | sent c v =>
          cases v with
          | ok => exact ⟨c.target.getD m, rfl, ih _⟩
          | fail => exact ⟨m, Or.inl rfl, ih m⟩
          | none => exact ⟨m, Or.inl rfl, ih m⟩

end RtkdataFw.Gnss
