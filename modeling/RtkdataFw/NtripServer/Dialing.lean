import RtkdataFw.Lib.Since
import RtkdataFw.NtripServer.ConnectionWire

/-!
# When an instance dials

A server task waits, passes the gate, and dials.  How long it waits is the back-off's choice, which
`ntrip_server_task` resets in its drain loop; the gate opens by the data bit, which the UART task sets and
the sleep task withdraws.

* `waitsStep` — the waits of an instance since the stack last took a byte from it;
* `OnPaceAt`, `onPace_serve` — the attempts of the back-off count these waits, or will when the poll is over;
* `waits_back_off` — so every wait is the one that the count calls for;
* `GateOk`, `passes_have_frames` — and behind every passing there is a frame that was not withdrawn.
-/

namespace RtkdataFw.NtripServer

open RtkdataFw.Lib RtkdataFw.TxCore RtkdataFw.Retry

variable {ι : Type*} [DecidableEq ι]

/-! ### What a round takes -/

def isAccepted : TxEvent → Bool
  | .accepted _ => true
  | _ => false

/-- The stack took something. -/
def took (evs : List TxEvent) : Bool := evs.any isAccepted

theorem took_append (evs fs : List TxEvent) : took (evs ++ fs) = (took evs || took fs) := List.any_append

/-- The count of accepted bytes grows exactly when the stack takes something. -/
def Meters (tx tx' : NtripTx) (evs : List TxEvent) : Prop :=
  if took evs then tx.acceptedToLwip < tx'.acceptedToLwip else tx'.acceptedToLwip = tx.acceptedToLwip

theorem Meters.quiet {tx tx' : NtripTx} {evs : List TxEvent} (hevs : took evs = false)
    (htx : tx'.acceptedToLwip = tx.acceptedToLwip) : Meters tx tx' evs := by
  rw [Meters, if_neg (Bool.eq_false_iff.mp hevs)]
  exact htx

theorem Meters.trans {tx tx' tx'' : NtripTx} {evs fs : List TxEvent} (h : Meters tx tx' evs)
    (h' : Meters tx' tx'' fs) : Meters tx tx'' (evs ++ fs) := by
  unfold Meters at h h' ⊢
  rw [took_append]
  cases hevs : took evs <;> cases hfs : took fs <;>
    simp only [hevs, hfs, Bool.false_eq_true, if_true, if_false, Bool.or_false, Bool.or_true] at h h' ⊢ <;> omega

theorem meters_copyLoop (tx : NtripTx) (ring : NtripRing) (nowMs staleMs : UInt32) :
    Meters tx (txCopyLoop tx ring nowMs staleMs).2.1 (txCopyLoop tx ring nowMs staleMs).2.2 := by
  fun_induction txCopyLoop tx ring nowMs staleMs with
  | case1 tx hlt s hstale r =>
      rename_i ih
      have hone : Meters tx (txDropStale tx s) [.stale tx.cursorSeq s.receivedMs] := .quiet rfl rfl
      exact hone.trans ih
  | case2 tx hlt s => exact .quiet rfl rfl
  | case3 tx hge => exact .quiet rfl rfl

theorem meters_copyNext (tx : NtripTx) (ring : NtripRing) (nowMs staleMs : UInt32) :
    Meters tx (txCopyNext tx ring nowMs staleMs).2.1 (txCopyNext tx ring nowMs staleMs).2.2 := by
  have hjump : Meters tx (txJump tx ring).1 (txJump tx ring).2 := by
    rcases txJump_cases tx ring with ⟨_, h⟩ | ⟨_, h⟩ <;> rw [h] <;> exact .quiet rfl rfl
  exact hjump.trans (meters_copyLoop _ _ _ _)

/-- An abort takes nothing. -/
theorem untaken_abort (tx : NtripTx) :
    took (ntripTxAbort tx).2 = false ∧ (ntripTxAbort tx).1.acceptedToLwip = tx.acceptedToLwip := by
  rcases ntripTxAbort_cases tx with ⟨_, h⟩ | ⟨_, h⟩ <;> rw [h] <;> exact ⟨rfl, rfl⟩

theorem untaken_resetConn (tx : NtripTx) (ring : NtripRing) (nowMs : UInt32) :
    took (ntripTxResetConn tx ring nowMs).2 = false ∧
      (ntripTxResetConn tx ring nowMs).1.acceptedToLwip = tx.acceptedToLwip := by
  obtain ⟨hevs, hacc⟩ := untaken_abort tx
  rw [ntripTxResetConn, took_append, hevs, ← hacc]
  rcases txSkipWaiting_cases (ntripTxAbort tx).1 ring with ⟨_, h⟩ | ⟨_, h⟩ <;> rw [h] <;> exact ⟨rfl, rfl⟩

theorem meters_pollSend (tx : NtripTx) (nowMs : UInt32) (send : SendFn) :
    Meters tx (pollSend tx nowMs send).tx (pollSend tx nowMs send).evs := by
  rcases pollSend_cases tx nowMs send with ⟨hpos, hround⟩ | hround | ⟨err, hround⟩
  · have hmore : tx.acceptedToLwip < tx.acceptedToLwip + (send tx.unsent).n.toNat := by omega
    rw [hround]
    rcases txAccept_cases tx (send tx.unsent).n.toNat nowMs with ⟨_, h⟩ | ⟨_, h⟩ <;> rw [h] <;> exact hmore
  · rw [hround]
    exact .quiet rfl rfl
  · rw [hround]
    obtain ⟨hevs, hacc⟩ := untaken_abort { tx with lastSockErrno := err }
    exact .quiet hevs hacc

theorem meters_pollRound (tx : NtripTx) (ring : NtripRing) (nowMs staleMs : UInt32) (send : SendFn)
    (result : PollResult) :
    Meters tx (pollRound tx ring nowMs staleMs send result).tx
      (pollRound tx ring nowMs staleMs send result).evs := by
  have hcopy := meters_copyNext tx ring nowMs staleMs
  rcases pollRound_cases tx ring nowMs staleMs send result with
    ⟨_, _, hround⟩ | ⟨_, hround⟩ | ⟨_, hround⟩
  · rw [hround]
    exact hcopy.trans (meters_pollSend _ _ _)
  · rw [hround]
    exact hcopy
  · rw [hround]
    exact meters_pollSend tx nowMs send

/-! ### Waits -/

/-- The waits of instance `i` since the stack last took something from it. -/
def waitsStep (i : ι) (n : ℕ) : StationObs ι → ℕ
  | .core (.tx j e) => if j = i ∧ isAccepted e = true then 0 else n
  | .waited j _ => if j = i then n + 1 else n
  | _ => n

def waitsSince (i : ι) (os : List (StationObs ι)) : ℕ := os.foldl (waitsStep i) 0

theorem waits_core (i : ι) (n : ℕ) (os : List (CoreObs ι)) :
    (os.map StationObs.core).foldl (waitsStep i) n = if took (trace i os) then 0 else n := by
  induction os generalizing n with
  | nil => rfl
  | cons o os ih =>
      rw [List.map_cons, List.foldl_cons, ih]
      cases o with
      | pushed a => rfl
      | tx j e =>
          by_cases hji : j = i
          · have htrace : trace i (.tx j e :: os) = e :: trace i os := by simp [trace, hji]
            rw [htrace]
            cases he : isAccepted e <;> simp [waitsStep, hji, he, took]
          · have htrace : trace i (.tx j e :: os) = trace i os := by simp [trace, hji]
            have hstep : waitsStep i n (.core (.tx j e)) = n := if_neg fun h => hji h.1
            rw [htrace, hstep]

/-- The delay after so many waits: the back-off of `retry_init (true, 5, 2000, 0)`, or two seconds when it
had no memory. -/
def dialDelay (heap : Bool) (n : ℕ) : ℤ :=
  if heap then phaseDelay (newHandle true 5 2000 0) (n % 65536) else 2000

/-- The back-off after `n` waits. -/
def Counts (heap : Bool) (inst : Instance) (n : ℕ) : Prop :=
  inst.retry = (retryInit heap true 5 2000 0).map fun h => { h with attempts := UInt16.ofNat n }

theorem Counts.wait {heap : Bool} {inst : Instance} {n : ℕ} (h : Counts heap inst n) :
    (retryDelay inst.retry).1 =
        ((retryInit heap true 5 2000 0).map fun h => { h with attempts := UInt16.ofNat (n + 1) }) ∧
      (retryDelay inst.retry).2.delay = dialDelay heap n := by
  unfold Counts at h
  cases heap with
  | false =>
      have hnone : inst.retry = none := h
      rw [hnone]
      exact ⟨rfl, rfl⟩
  | true =>
      have hsome : inst.retry = some { newHandle true 5 2000 0 with attempts := UInt16.ofNat n } := h
      rw [hsome]
      refine ⟨?_, callAfter_delay (newHandle true 5 2000 0) n⟩
      rw [UInt16.ofNat_add]
      rfl

theorem Counts.reset {heap : Bool} {inst : Instance} {n : ℕ} (h : Counts heap inst n) :
    retryReset inst.retry =
      (retryInit heap true 5 2000 0).map fun h => { h with attempts := UInt16.ofNat 0 } := by
  unfold Counts at h
  rw [h]
  cases heap <;> rfl

/-- **The back-off against the count**, place by place: in a poll that took something it may be behind. -/
def OnPaceAt (heap : Bool) (inst : Instance) (accepted n : ℕ) : ServerPhase → Prop
  | .poll _ _ _ _ before =>
      before ≤ accepted ∧ (before < accepted → n = 0) ∧ (inst.madeProgress = true → n = 0) ∧
        ∃ m, Counts heap inst m ∧ (m = n ∨ before < accepted ∧ inst.madeProgress = false)
  | .loop | .take | .check .. | .abort | .disconnect =>
      Counts heap inst n ∧ (inst.madeProgress = true → n = 0)
  | _ => Counts heap inst n

def OnPace (heap : Bool) (inst : Instance) (accepted n : ℕ) : Prop :=
  OnPaceAt heap inst accepted n inst.phase

section Steps

variable {heap : Bool} {inst : Instance} {accepted n : ℕ}

theorem Counts.congr {inst' : Instance} (h : Counts heap inst n) (hretry : inst'.retry = inst.retry) :
    Counts heap inst' n := by
  unfold Counts at h ⊢
  rw [hretry]
  exact h

theorem OnPaceAt.congr {inst' : Instance} {p : ServerPhase} (h : OnPaceAt heap inst accepted n p)
    (hretry : inst'.retry = inst.retry) (hprogress : inst'.madeProgress = inst.madeProgress) :
    OnPaceAt heap inst' accepted n p := by
  cases p with
  | poll now spins round result before =>
      obtain ⟨hle, hzero, hmade, m, hcounts, hm⟩ := h
      rw [← hprogress] at hmade hm
      exact ⟨hle, hzero, hmade, m, hcounts.congr hretry, hm⟩
  | loop => exact ⟨h.1.congr hretry, hprogress ▸ h.2⟩
  | take => exact ⟨h.1.congr hretry, hprogress ▸ h.2⟩
  | check now result => exact ⟨h.1.congr hretry, hprogress ▸ h.2⟩
  | abort => exact ⟨h.1.congr hretry, hprogress ▸ h.2⟩
  | disconnect => exact ⟨h.1.congr hretry, hprogress ▸ h.2⟩
  | _ => exact Counts.congr h hretry

/-- **Steps without a call on the sender**, the wait apart. -/
theorem onPace_quiet {tx : NtripTx} {ring : NtripRing} {act : ServerAct}
    (h : OnPace heap inst tx.acceptedToLwip n) (hop : (serve tx ring inst act).2 = none)
    (hstart : ¬ (act = .go ∧ inst.phase = .start)) :
    OnPace heap (serve tx ring inst act).1 tx.acceptedToLwip n := by
  have hat : ∀ p, inst.phase = p → OnPaceAt heap inst tx.acceptedToLwip n p := fun _ hp => hp ▸ h
  cases act with
  | go =>
      rw [serve] at hop ⊢
      split
      case h_1 hphase => exact absurd ⟨rfl, hphase⟩ hstart
      case h_2 hphase => cases inst.dataReady <;> exact hat .gate hphase
      case h_3 hphase =>
        split
        · exact hat .blocked hphase
        · exact h
      case h_4 hphase => exact hat .resume hphase
      case h_5 hphase => exact hat .ip hphase
      case h_6 hphase => exact hat .snapshot hphase
      case h_7 hphase => exact hat .clear hphase
      case h_8 hphase =>
        have h := hat .loop hphase
        show OnPaceAt heap _ _ n (if inst.reconnectGen = inst.connGen then .take else .abort)
        split <;> exact h
      case h_9 hphase =>
        rw [hphase] at hop
        cases hop
      case h_10 hphase => exact (hat .disconnect hphase).1
      case h_11 hphase => exact hat .cleanup hphase
      case h_12 => exact h
  | config pwd mp version =>
      rw [serve]
      split
      · rename_i hphase
        exact hat .load hphase
      · exact h
  | connect r =>
      rw [serve]
      split
      · rename_i hphase
        cases r <;> exact hat .dial hphase
      · exact h
  | alloc heap' =>
      rw [serve]
      split
      · rename_i hphase
        show OnPaceAt heap _ _ n (if heap' then requestPhase inst.request 0 else .cleanup)
        unfold requestPhase
        split
        · split <;> exact hat .alloc hphase
        · exact hat .alloc hphase
      · exact h
  | write k =>
      rw [serve]
      split
      · rename_i off hphase
        unfold writeRequest
        split
        · exact hat (.request off) hphase
        · split
          · exact hat (.request off) hphase
          · show OnPaceAt heap _ _ n (requestPhase inst.request (off + k.toNat))
            unfold requestPhase
            split <;> exact hat (.request off) hphase
      · exact h
  | read received heap' =>
      rw [serve]
      split
      · rename_i hphase
        show OnPaceAt heap _ _ n (if received.bind (responseOk heap') = some true then .nonblock else .cleanup)
        split <;> exact hat .response hphase
      · exact h
  | fcntl ok =>
      rw [serve]
      split
      · rename_i hphase
        cases ok <;> exact hat .nonblock hphase
      · exact h
  | clock nowMs =>
      rw [serve] at hop ⊢
      split
      case h_1 hphase =>
        rw [hphase] at hop
        cases hop
      case h_2 hphase => exact ⟨hat .announce hphase, fun hfalse => by cases hfalse⟩
      case h_3 hphase =>
        obtain ⟨hcounts, hmade⟩ := hat .take hphase
        exact ⟨Nat.le_refl _, fun hlt => absurd hlt (Nat.lt_irrefl _), hmade, n, hcounts, .inl rfl⟩
      case h_4 => exact h
  | send f =>
      rw [serve] at hop ⊢
      split
      · rename_i hphase
        rw [hphase] at hop
        cases hop
      · exact h
  | probe nowMs alive =>
      rw [serve]
      split
      · rename_i now result hphase
        have h := hat (.check now result) hphase
        unfold checkConn
        split
        · exact h
        · split
          · cases alive <;> exact h
          · exact h
      · exact h

/-- **A round of a poll** and what follows it. -/
theorem onPace_round {tx : NtripTx} {ring : NtripRing} {now : UInt32} {spins round : ℕ} {result : PollResult}
    {before : ℕ} (h : OnPaceAt heap inst tx.acceptedToLwip n (.poll now spins round result before))
    (f : SendFn) :
    let r := pollRound tx ring now ntripTxStaleDropMs f result
    OnPace heap (afterRound (sendRound inst r.evs) now spins round before r) r.tx.acceptedToLwip
      (if took r.evs then 0 else n) := by
  intro r
  obtain ⟨hle, hzero, hmade, m, hcounts, hm⟩ := h
  have hmeter : Meters tx r.tx r.evs := meters_pollRound tx ring now ntripTxStaleDropMs f result
  -- what the round leaves, wherever the task goes
  have hleft : before ≤ r.tx.acceptedToLwip ∧ (before < r.tx.acceptedToLwip → (if took r.evs then 0 else n) = 0) ∧
      (inst.madeProgress = true → (if took r.evs then 0 else n) = 0) ∧
      (m = (if took r.evs then 0 else n) ∨ before < r.tx.acceptedToLwip ∧ inst.madeProgress = false) := by
    unfold Meters at hmeter
    cases htook : took r.evs with
    | true =>
        rw [htook, if_pos rfl] at hmeter
        refine ⟨by omega, fun _ => rfl, fun _ => rfl, ?_⟩
        cases hprog : inst.madeProgress with
        | true =>
            rcases hm with rfl | ⟨_, hfalse⟩
            · exact .inl (hmade hprog)
            · rw [hprog] at hfalse
              cases hfalse
        | false => exact .inr ⟨by omega, rfl⟩
    | false =>
        rw [htook, if_neg Bool.false_ne_true] at hmeter
        rw [hmeter]
        exact ⟨hle, hzero, hmade, hm⟩
  generalize (if took r.evs then 0 else n) = n' at hleft ⊢
  obtain ⟨hle', hzero', hmade', hm'⟩ := hleft
  unfold afterRound
  split
  · exact ⟨hle', hzero', hmade', m, hcounts, hm'⟩
  · -- the poll is over, and the back-off is reset if it is behind
    have hdone : Counts heap (noteProgress (sendRound inst r.evs) r.tx before) n' ∧
        ((noteProgress (sendRound inst r.evs) r.tx before).madeProgress = true → n' = 0) := by
      unfold noteProgress
      split
      · rename_i hfirst
        rw [hzero' hfirst.1]
        exact ⟨hcounts.reset, fun _ => rfl⟩
      · rename_i hnot
        rcases hm' with rfl | hbehind
        · exact ⟨hcounts, hmade'⟩
        · exact absurd hbehind hnot
    dsimp only
    split
    · exact ⟨Nat.le_refl _, fun hlt => absurd hlt (Nat.lt_irrefl _), hdone.2, n', hdone.1, .inl rfl⟩
    · exact hdone

end Steps

/-! ### Waits of a run -/

/-- A wait of `i` is as long as the count of the waits before it calls for. -/
def WaitFits (heap : Bool) (i : ι) (before : List (StationObs ι)) (o : StationObs ι) : Prop :=
  ∀ call, o = .waited i call → call.delay = dialDelay heap (waitsSince i before)

/-- What an event shows beside the ring and the senders. -/
def Station.extraObs (s : Station ι) : StationEvent ι → List (StationObs ι)
  | .note =>
      match s.uart with
      | .note i false _ _ .mark _ => [.marked i]
      | _ => []
  | .server i act => s.serverObs i act
  | .sleep i => if (s.inst i).suspended = false ∧ (s.inst i).sleep = .clear then [.expired i] else []
  | _ => []

theorem station_out (insts : List ι) (s : Station ι) (e : StationEvent ι) :
    (station insts).out s e = (core.outputs s.core (s.lower e)).map .core ++ s.extraObs e := by
  cases e <;> rfl

omit [DecidableEq ι] in
theorem extraObs_cases {s : Station ι} {e : StationEvent ι} {o : StationObs ι} (ho : o ∈ s.extraObs e) :
    (∃ i, o = .marked i ∧ ∃ caster sent todo, e = .note ∧ s.uart = .note i false caster sent .mark todo) ∨
      (∃ i, o = .expired i ∧ e = .sleep i ∧ (s.inst i).suspended = false ∧ (s.inst i).sleep = .clear) ∨
      ∃ i act, e = .server i act ∧ o ∈ s.serverObs i act := by
  cases e with
  | note =>
      unfold Station.extraObs at ho
      dsimp only at ho
      split at ho
      · rename_i i caster sent todo huart
        exact .inl ⟨i, List.mem_singleton.mp ho, caster, sent, todo, rfl, huart⟩
      · cases ho
  | sleep i =>
      unfold Station.extraObs at ho
      dsimp only at ho
      split at ho
      · rename_i hclear
        exact .inr (.inl ⟨i, List.mem_singleton.mp ho, rfl, hclear⟩)
      · cases ho
  | server i act => exact .inr (.inr ⟨i, act, rfl, ho⟩)
  | ingest chunk nowMs => cases ho
  | epochReset => cases ho
  | reconnect i => cases ho

omit [DecidableEq ι] in
/-- **What a step of a server task shows**: the wait, or that it goes on to dial. -/
theorem serverObs_cases (s : Station ι) (i : ι) (act : ServerAct) :
    (act = .go ∧ (s.inst i).phase = .start ∧
        s.serverObs i act = [.waited i (retryDelay (s.inst i).retry).2]) ∨
      (act = .go ∧ ((s.inst i).phase = .gate ∨ (s.inst i).phase = .blocked) ∧ (s.inst i).dataReady = true ∧
        s.serverObs i act = [.passed i]) ∨
      (¬ (act = .go ∧ (s.inst i).phase = .start) ∧ s.serverObs i act = []) := by
  unfold Station.serverObs
  split
  · rename_i hphase
    exact .inl ⟨rfl, hphase, rfl⟩
  · rename_i hphase
    cases hdata : (s.inst i).dataReady with
    | true => exact .inr (.inl ⟨rfl, .inl hphase, rfl, rfl⟩)
    | false => exact .inr (.inr ⟨fun h => ServerPhase.noConfusion (hphase.symm.trans h.2), rfl⟩)
  · rename_i hphase
    cases hdata : (s.inst i).dataReady with
    | true => exact .inr (.inl ⟨rfl, .inr hphase, rfl, rfl⟩)
    | false => exact .inr (.inr ⟨fun h => ServerPhase.noConfusion (hphase.symm.trans h.2), rfl⟩)
  · rename_i hstart _ _
    exact .inr (.inr ⟨fun h => hstart h.1 h.2, rfl⟩)

/-- The entries that an event of the others adds leave the count alone. -/
theorem waits_spares {i : ι} {e : StationEvent ι} (he : e.Spares i) (s : Station ι) (n : ℕ) :
    (s.extraObs e).foldl (waitsStep i) n = n ∧ ∀ call, StationObs.waited i call ∉ s.extraObs e := by
  have hnone : ∀ o ∈ s.extraObs e, waitsStep i n o = n ∧ ∀ call, o ≠ .waited i call := by
    intro o ho
    rcases extraObs_cases ho with ⟨j, rfl, _⟩ | ⟨j, rfl, _⟩ | ⟨j, act, rfl, hobs⟩
    · exact ⟨rfl, fun call h => by cases h⟩
    · exact ⟨rfl, fun call h => by cases h⟩
    · have hji : j ≠ i := he
      rcases serverObs_cases s j act with ⟨_, _, h⟩ | ⟨_, _, _, h⟩ | ⟨_, h⟩
      · rw [h, List.mem_singleton] at hobs
        subst hobs
        exact ⟨if_neg hji, fun call h => by cases h; exact hji rfl⟩
      · rw [h, List.mem_singleton] at hobs
        subst hobs
        exact ⟨rfl, fun call h => by cases h⟩
      · rw [h] at hobs
        cases hobs
  refine ⟨?_, fun call hmem => (hnone _ hmem).2 call rfl⟩
  have hall : ∀ o ∈ s.extraObs e, waitsStep i n o = n := fun o ho => (hnone o ho).1
  generalize s.extraObs e = obs at hall
  induction obs with
  | nil => rfl
  | cons o obs ih =>
      rw [List.foldl_cons, hall o List.mem_cons_self]
      exact ih fun o' ho' => hall o' (List.mem_cons_of_mem _ ho')

/-- The entries of the ring and the senders are no waits. -/
theorem inPlace_core (heap : Bool) (i : ι) (before : List (StationObs ι)) (os : List (CoreObs ι)) :
    InPlace (fun pre o => WaitFits heap i (before ++ pre) o) (os.map .core) := by
  refine inPlace_of_forall ?_
  intro o ho pre call hwait
  obtain ⟨c, _, rfl⟩ := List.mem_map.mp ho
  cases hwait

theorem waitsSince_append (i : ι) (os us : List (StationObs ι)) :
    waitsSince i (os ++ us) = us.foldl (waitsStep i) (waitsSince i os) := List.foldl_append

/-- **One event** keeps the pace of every instance. -/
theorem pace_step {insts : List ι} {heap : Bool} {i : ι} {s : Station ι} {os : List (StationObs ι)}
    (hpace : OnPace heap (s.inst i) (s.core.tx i).acceptedToLwip (waitsSince i os))
    (hfits : InPlace (WaitFits heap i) os) (e : StationEvent ι) :
    let s' := (station insts).step s e
    let os' := os ++ (station insts).out s e
    OnPace heap (s'.inst i) (s'.core.tx i).acceptedToLwip (waitsSince i os') ∧ InPlace (WaitFits heap i) os' := by
  intro s' os'
  have hos : os' = (os ++ (core.outputs s.core (s.lower e)).map .core) ++ s.extraObs e := by
    show os ++ (station insts).out s e = _
    rw [station_out, List.append_assoc]
  have hcount : waitsSince i os' = (s.extraObs e).foldl (waitsStep i)
      (if took (trace i (core.outputs s.core (s.lower e))) then 0 else waitsSince i os) := by
    rw [hos, waitsSince_append, waitsSince_append, waits_core]
  have hcore : InPlace (WaitFits heap i) (os ++ (core.outputs s.core (s.lower e)).map .core) :=
    (inPlace_append _ _).mpr ⟨hfits, inPlace_core heap i os _⟩
  have htx' : s'.core.tx i = (core.run s.core (s.lower e)).tx i :=
    congrArg (fun c => c.tx i) (station_core insts s e)
  rw [hcount, htx', hos, inPlace_append, and_iff_right hcore]
  by_cases hspares : e.Spares i
  · obtain ⟨htx, htrace⟩ := lower_spares hspares s
    have hlink : SameLink (s.inst i) (s'.inst i) := station_sameLink insts hspares s
    obtain ⟨hwaits, hno⟩ := waits_spares hspares s (waitsSince i os)
    have htook : took (trace i (core.outputs s.core (s.lower e))) = false := by
      rw [htrace]
      rfl
    rw [htx, htook, if_neg Bool.false_ne_true, hwaits]
    refine ⟨?_, inPlace_of_forall fun o ho pre call hwait => absurd (hwait ▸ ho) (hno call)⟩
    unfold OnPace
    rw [hlink.phase]
    exact OnPaceAt.congr hpace hlink.retry hlink.madeProgress
  · cases e with
    | server j act =>
        obtain rfl : j = i := not_not.mp hspares
        have hown : s'.inst j = (serve (s.core.tx j) s.core.ring (s.inst j) act).1 := Function.update_self _ _ _
        have hextra : s.extraObs (.server j act) = s.serverObs j act := rfl
        rw [hown, hextra]
        cases hop : (serve (s.core.tx j) s.core.ring (s.inst j) act).2 with
        | none =>
            have hlower : s.lower (.server j act) = [] := by
              rw [Station.lower, hop]
              rfl
            rw [hlower]
            show OnPace heap _ (s.core.tx j).acceptedToLwip ((s.serverObs j act).foldl (waitsStep j) (waitsSince j os)) ∧ _
            rcases serverObs_cases s j act with
              ⟨rfl, hphase, hobs⟩ | ⟨rfl, hphase, _, hobs⟩ | ⟨hstart, hobs⟩
            · -- the wait
              have hcounts : Counts heap (s.inst j) (waitsSince j os) := by
                unfold OnPace at hpace
                rw [hphase] at hpace
                exact hpace
              have hone : (serve (s.core.tx j) s.core.ring (s.inst j) .go).1 =
                  { s.inst j with retry := (retryDelay (s.inst j).retry).1, phase := .gate } := by
                rw [serve, hphase]
              rw [hobs, hone]
              refine ⟨?_, inPlace_singleton ?_⟩
              · show Counts heap _ (if j = j then waitsSince j os + 1 else waitsSince j os)
                rw [if_pos rfl]
                exact hcounts.wait.1
              · intro call hwait
                cases hwait
                simp only [Machine.outputs_nil, List.map_nil, List.append_nil]
                exact hcounts.wait.2
            · rw [hobs]
              refine ⟨onPace_quiet hpace hop fun h => ?_, inPlace_singleton fun call h => by cases h⟩
              rw [h.2] at hphase
              rcases hphase with h | h <;> cases h
            · rw [hobs]
              exact ⟨onPace_quiet hpace hop hstart, inPlace_nil _⟩
        | some op =>
            have hlower : s.lower (.server j act) = [.sender j op] := by
              rw [Station.lower, hop]
              rfl
            obtain ⟨htx, htrace⟩ := core_step_sender s.core j op
            have hout : core.outputs s.core [CoreEvent.sender j op] = core.out s.core (.sender j op) :=
              List.append_nil _
            have hrun : core.run s.core [CoreEvent.sender j op] = core.step s.core (.sender j op) := rfl
            rw [hlower, hout, hrun, htx, htrace]
            unfold OnPace at hpace
            rcases serve_op_cases hop with ⟨nowMs, rfl, hphase, rfl⟩ |
              ⟨f, now, spins, round, result, before, rfl, hphase, rfl⟩ | ⟨rfl, hphase, rfl⟩
            · obtain ⟨huntaken, hacc⟩ := untaken_resetConn (s.core.tx j) s.core.ring nowMs
              have hobs : s.serverObs j (.clock nowMs) = [] := rfl
              rw [hphase] at hpace
              rw [TxOp.run, huntaken, hacc, hobs, serve, hphase]
              exact ⟨hpace, inPlace_nil _⟩
            · have hone : (TxOp.poll now 1 ntripTxStaleDropMs fun _ => f).run (s.core.tx j) s.core.ring =
                  ((pollRound (s.core.tx j) s.core.ring now ntripTxStaleDropMs f result).tx,
                    (pollRound (s.core.tx j) s.core.ring now ntripTxStaleDropMs f result).evs) :=
                poll_once _ _ _ _ _ _
              have hobs : s.serverObs j (.send f) = [] := rfl
              rw [hphase] at hpace
              rw [hone, hobs, serve, hphase]
              exact ⟨onPace_round hpace f, inPlace_nil _⟩
            · obtain ⟨huntaken, hacc⟩ := untaken_abort (s.core.tx j)
              have hobs : s.serverObs j .go = [] := by
                unfold Station.serverObs
                rw [hphase]
              rw [hphase] at hpace
              rw [TxOp.run, huntaken, hacc, hobs, serve, hphase]
              exact ⟨hpace, inPlace_nil _⟩
    | _ => exact absurd trivial hspares

/-- **The back-off counts waits, not connections.**  Whatever the tasks interleave, every wait of an instance is
as long as the number of its waits since the stack last took a byte from it calls for: a caster that took
something is dialled again at once, and one that only answers is dialled ever more slowly. -/
theorem waits_back_off (insts : List ι) (heap : ι → Bool) (es : List (StationEvent ι)) (i : ι)
    (before after : List (StationObs ι)) (call : RetryCall)
    (hrun : (station insts).outputs (stationInit heap) es = before ++ .waited i call :: after) :
    call.delay = dialDelay (heap i) (waitsSince i before) := by
  have hinit : OnPace (heap i) ((stationInit heap).inst i) ((stationInit heap).core.tx i).acceptedToLwip 0 := by
    show (retryInit (heap i) true 5 2000 0) = _
    cases heap i <;> rfl
  have hall := (station insts).history_nil
    (P := fun s os => OnPace (heap i) (s.inst i) (s.core.tx i).acceptedToLwip (waitsSince i os) ∧
      InPlace (WaitFits (heap i) i) os)
    (fun s os e h _ => pace_step h.1 h.2 e) ⟨hinit, inPlace_nil _⟩
    ((station insts).admits_true (stationInit heap) es)
  exact hall.2 before _ after hrun call rfl

theorem out_start {insts : List ι} {s : Station ι} {i : ι} (hphase : (s.inst i).phase = .start) :
    (station insts).out s (.server i .go) = [.waited i (retryDelay (s.inst i).retry).2] := by
  have hop : (serve (s.core.tx i) s.core.ring (s.inst i) .go).2 = none := by rw [serve, hphase]
  have hobs : s.serverObs i .go = [.waited i (retryDelay (s.inst i).retry).2] := by
    unfold Station.serverObs
    rw [hphase]
  rw [station_out, Station.lower, hop, Station.extraObs, hobs]
  rfl

/-- The connection of `demoServing` ends with a failed send. -/
def demoRedial : List (StationEvent Unit) :=
  demoServing ++ [.server () (.send fun _ => ⟨-1, 104⟩), .server () (.probe 23 true), .server () .go, .server () .go,
    .server () .go]

/-- The stack has taken two bytes, so the caster is dialled again without delay. -/
theorem waits_back_off_demoRedial :
    (retryDelay (((station [()]).run (stationInit fun _ => true) demoRedial).inst ()).retry).2.delay = 0 := by
  have hphase : (((station [()]).run (stationInit fun _ => true) demoRedial).inst ()).phase = .start := by
    decide +kernel
  have hwaits : waitsSince () ((station [()]).outputs (stationInit fun _ => true) demoRedial) = 0 := by decide +kernel
  have hdelay := waits_back_off [()] (fun _ => true) (demoRedial ++ [.server () .go]) () _ [] _
    (by rw [Machine.outputs_append, Machine.outputs_cons, out_start hphase]; rfl)
  rw [hwaits] at hdelay
  exact hdelay

/-! ### The gate -/

/-- The data bit was set for `i`, with a frame in the ring, and was not withdrawn since. -/
def Backed (i : ι) : List (StationObs ι) → Prop :=
  Since (.marked i) (fun log => takenFrames log ≠ []) fun o => o ≠ .expired i

/-- Behind every data bit there is a frame, and behind every passing. -/
structure GateOk (s : Station ι) (os : List (StationObs ι)) : Prop where
  data : ∀ i, (s.inst i).dataReady = true → Backed i os
  walk : s.uart = .idle ∨ takenFrames os ≠ []
  passes : ∀ i, InPlace (fun pre o => o = .passed i → Backed i pre) os

omit [DecidableEq ι] in
theorem takenFrames_append (os us : List (StationObs ι)) :
    takenFrames (os ++ us) = takenFrames os ++ takenFrames us := by
  rw [takenFrames, coreObs_append, arrivals_append, List.map_append]
  rfl

/-- The ring only moves on with a frame. -/
theorem nextSeq_of_no_arrival {c : CoreState ι} {es : List (CoreEvent ι)}
    (h : arrivals (core.outputs c es) = []) : (core.run c es).ring.nextSeq = c.ring.nextSeq := by
  induction es generalizing c with
  | nil => rfl
  | cons e es ih =>
      rw [Machine.outputs_cons, arrivals_append, List.append_eq_nil_iff] at h
      rw [Machine.run_cons, ih h.2]
      cases e with
      | sender i op => rfl
      | push frame nowMs =>
          by_cases hlen : frame.length < 6 ∨ frame.length > rtcmMaxFrameB
          · show (ntripRingPush c.ring frame nowMs).nextSeq = c.ring.nextSeq
            rw [ntripRingPush_reject hlen]
          · have hout : core.out c (.push frame nowMs) = [.pushed ⟨frame, nowMs⟩] := if_neg hlen
            rw [hout] at h
            exact absurd h.1 (List.cons_ne_nil _ _)

omit [DecidableEq ι] in
theorem gateOk_init (heap : ι → Bool) : GateOk (stationInit heap) [] where
  data := fun _ h => by cases h
  walk := .inl rfl
  passes := fun _ => inPlace_nil _

theorem afterRound_dataReady (inst : Instance) (now : UInt32) (spins round before : ℕ) (r : Round) :
    (afterRound inst now spins round before r).dataReady = inst.dataReady := by
  unfold afterRound noteProgress
  split
  · rfl
  · split <;> split <;> rfl

/-- The server task only takes the data bit away. -/
theorem serve_dataReady {tx : NtripTx} {ring : NtripRing} {inst : Instance} {act : ServerAct}
    (h : (serve tx ring inst act).1.dataReady = true) : inst.dataReady = true := by
  cases act with
  | go =>
      rw [serve] at h
      split at h
      case h_3 =>
        split at h
        · cases h
        · exact h
      all_goals exact h
  | config pwd mp version => rw [serve] at h; split at h <;> exact h
  | connect r =>
      rw [serve] at h
      split at h
      · cases r <;> exact h
      · exact h
  | alloc heap => rw [serve] at h; split at h <;> exact h
  | write n =>
      rw [serve] at h
      split at h
      · unfold writeRequest at h
        split at h
        · exact h
        · split at h <;> exact h
      · exact h
  | read received heap => rw [serve] at h; split at h <;> exact h
  | fcntl ok => rw [serve] at h; split at h <;> exact h
  | clock nowMs => rw [serve] at h; split at h <;> exact h
  | send f =>
      rw [serve] at h
      split at h
      · dsimp only at h
        rw [afterRound_dataReady] at h
        exact h
      · exact h
  | probe nowMs alive =>
      rw [serve] at h
      split at h
      · unfold checkConn at h
        split at h
        · exact h
        · split at h <;> exact h
      · exact h

omit [DecidableEq ι] in
/-- An event of another kind, or for another instance, withdraws nothing. -/
theorem Backed.append {i : ι} {os more : List (StationObs ι)} (h : Backed i os)
    (hmore : StationObs.expired i ∉ more) : Backed i (os ++ more) :=
  Since.append h fun _ ho heq => hmore (heq ▸ ho)

omit [DecidableEq ι] in
theorem expired_not_mem_core (i : ι) (os : List (CoreObs ι)) : StationObs.expired i ∉ os.map StationObs.core := by
  intro h
  obtain ⟨c, _, hc⟩ := List.mem_map.mp h
  cases hc

theorem ingest_inst (s : Station ι) (insts : List ι) (chunk : List UInt8) (nowMs : UInt32) :
    (s.ingest insts chunk nowMs).inst = s.inst := by
  rw [Station.ingest]
  split
  · split <;> rfl
  · rfl

theorem noteStep_dataReady {inst : Instance} {data caster sent : Bool} {at' : NoteStep}
    (h : (noteStep inst data caster sent at').dataReady = true) :
    inst.dataReady = true ∧ (at' ≠ .mark ∨ data = true) ∨ at' = .mark ∧ data = false := by
  cases at' with
  | mark =>
      cases data with
      | true => exact .inl ⟨h, .inr rfl⟩
      | false => exact .inr ⟨rfl, rfl⟩
  | zero => exact .inl ⟨h, .inl NoteStep.noConfusion⟩
  | sent =>
      unfold noteStep at h
      dsimp only at h
      split at h <;> exact .inl ⟨h, .inl NoteStep.noConfusion⟩
  | give => cases caster <;> exact .inl ⟨h, .inl NoteStep.noConfusion⟩

theorem sleepStep_dataReady {inst : Instance} (h : (sleepStep inst).dataReady = true) :
    inst.dataReady = true ∧ ¬ (inst.suspended = false ∧ inst.sleep = .clear) := by
  unfold sleepStep at h
  split at h
  · rename_i hsuspended
    exact ⟨h, fun hc => by rw [hc.1] at hsuspended; cases hsuspended⟩
  · split at h
    case h_5 => cases h
    all_goals
      rename_i hphase
      exact ⟨h, fun hc => SleepPhase.noConfusion (hphase.symm.trans hc.2)⟩

theorem set_dataReady {s : Station ι} {i j : ι} {inst : Instance}
    (h : ((s.set j inst).inst i).dataReady = true) :
    j = i ∧ inst.dataReady = true ∨ j ≠ i ∧ (s.inst i).dataReady = true := by
  rw [set_inst] at h
  split at h
  · rename_i hij
    exact .inl ⟨hij.symm, h⟩
  · rename_i hij
    exact .inr ⟨Ne.symm hij, h⟩

/-- A bit that is set was set before and is not withdrawn, or is set now. -/
theorem step_data {insts : List ι} {s : Station ι} {e : StationEvent ι} {i : ι}
    (hdata : (((station insts).step s e).inst i).dataReady = true) :
    (s.inst i).dataReady = true ∧ StationObs.expired i ∉ s.extraObs e ∨
      s.uart ≠ .idle ∧ s.extraObs e = [.marked i] := by
  cases e with
  | ingest chunk nowMs =>
      have hinst : ((station insts).step s (.ingest chunk nowMs)).inst = s.inst := ingest_inst s insts chunk nowMs
      rw [hinst] at hdata
      exact .inl ⟨hdata, List.not_mem_nil⟩
  | epochReset => exact .inl ⟨hdata, List.not_mem_nil⟩
  | reconnect j =>
      rcases set_dataReady hdata with ⟨rfl, h⟩ | ⟨_, h⟩
      · exact .inl ⟨h, List.not_mem_nil⟩
      · exact .inl ⟨h, List.not_mem_nil⟩
  | note =>
      have hno : StationObs.expired i ∉ s.extraObs .note := by
        unfold Station.extraObs
        dsimp only
        split
        · simp
        · exact List.not_mem_nil
      change (s.note.inst i).dataReady = true at hdata
      unfold Station.note at hdata
      split at hdata
      case h_4 j data caster sent at' todo huart =>
        rcases set_dataReady hdata with ⟨rfl, h⟩ | ⟨_, h⟩
        · rcases noteStep_dataReady h with ⟨hold, _⟩ | ⟨rfl, rfl⟩
          · exact .inl ⟨hold, hno⟩
          · refine .inr ⟨fun hidle => ?_, ?_⟩
            · rw [huart] at hidle
              cases hidle
            unfold Station.extraObs
            rw [huart]
        · exact .inl ⟨h, hno⟩
      all_goals exact .inl ⟨hdata, hno⟩
  | server j act =>
      have hno : StationObs.expired i ∉ s.serverObs j act := by
        rcases serverObs_cases s j act with ⟨_, _, h⟩ | ⟨_, _, _, h⟩ | ⟨_, h⟩ <;> simp [h]
      rcases set_dataReady hdata with ⟨rfl, h⟩ | ⟨_, h⟩
      · exact .inl ⟨serve_dataReady h, hno⟩
      · exact .inl ⟨h, hno⟩
  | sleep j =>
      rcases set_dataReady hdata with ⟨rfl, h⟩ | ⟨hne, h⟩
      · obtain ⟨hold, hclear⟩ := sleepStep_dataReady h
        refine .inl ⟨hold, ?_⟩
        have hnone : s.extraObs (.sleep j) = [] := if_neg hclear
        rw [hnone]
        exact List.not_mem_nil
      · refine .inl ⟨h, ?_⟩
        unfold Station.extraObs
        dsimp only
        split
        · simpa using Ne.symm hne
        · exact List.not_mem_nil

/-- The walk goes over the instances while there is a frame. -/
theorem step_walk (insts : List ι) (e : StationEvent ι) {s : Station ι} {os : List (StationObs ι)}
    (h : s.uart = .idle ∨ takenFrames os ≠ []) :
    ((station insts).step s e).uart = .idle ∨ takenFrames (os ++ (station insts).out s e) ≠ [] := by
  rw [takenFrames_append]
  have hgrow : takenFrames os ≠ [] → takenFrames os ++ takenFrames ((station insts).out s e) ≠ [] :=
    fun hne => List.append_ne_nil_of_left_ne_nil hne _
  cases e with
  | ingest chunk nowMs =>
      show (s.ingest insts chunk nowMs).uart = .idle ∨ _
      unfold Station.ingest
      split
      · rename_i huart
        split
        · exact .inl huart
        · by_cases hseq : (core.run s.core (s.lower (.ingest chunk nowMs))).ring.nextSeq = s.core.ring.nextSeq
          · exact .inl (if_pos hseq)
          · refine .inr fun hnil => hseq (nextSeq_of_no_arrival ?_)
            have hnone := (List.append_eq_nil_iff.mp hnil).2
            rw [takenFrames, station_obs, List.map_eq_nil_iff] at hnone
            exact hnone
      · exact h.imp_right hgrow
  | note =>
      show s.note.uart = .idle ∨ _
      unfold Station.note
      split
      · exact h.imp_right hgrow
      · exact .inl rfl
      · rename_i huart
        exact .inr (hgrow (h.resolve_left fun hidle => by rw [huart] at hidle; cases hidle))
      · rename_i huart
        exact .inr (hgrow (h.resolve_left fun hidle => by rw [huart] at hidle; cases hidle))
  | epochReset => exact h.imp_right hgrow
  | reconnect j => exact h.imp_right hgrow
  | server j act => exact h.imp_right hgrow
  | sleep j => exact h.imp_right hgrow

omit [DecidableEq ι] in
/-- The task passes with its data bit set. -/
theorem passed_data {s : Station ι} {e : StationEvent ι} {i : ι} (h : StationObs.passed i ∈ s.extraObs e) :
    (s.inst i).dataReady = true ∧ s.extraObs e = [.passed i] := by
  rcases extraObs_cases h with ⟨j, hj, _⟩ | ⟨j, hj, _⟩ | ⟨j, act, rfl, hobs⟩
  · cases hj
  · cases hj
  · rcases serverObs_cases s j act with ⟨_, _, hone⟩ | ⟨_, _, hdata, hone⟩ | ⟨_, hone⟩
    · rw [hone] at hobs
      cases List.mem_singleton.mp hobs
    · rw [hone] at hobs
      cases List.mem_singleton.mp hobs
      exact ⟨hdata, hone⟩
    · rw [hone] at hobs
      cases hobs

/-- **One event** keeps the gate. -/
theorem gate_step {insts : List ι} {s : Station ι} {os : List (StationObs ι)} (h : GateOk s os)
    (e : StationEvent ι) : GateOk ((station insts).step s e) (os ++ (station insts).out s e) := by
  have hwalk := step_walk insts e h.walk
  rw [station_out, ← List.append_assoc] at hwalk ⊢
  refine ⟨?_, hwalk, ?_⟩
  · intro i hdata
    rcases step_data hdata with ⟨hold, hno⟩ | ⟨huart, hmark⟩
    · exact ((h.data i hold).append (expired_not_mem_core i _)).append hno
    · rw [hmark]
      refine (since_concat _ _).mpr (.inl ⟨rfl, ?_⟩)
      rw [takenFrames_append]
      exact List.append_ne_nil_of_left_ne_nil (h.walk.resolve_left huart) _
  · intro i
    rw [inPlace_append, inPlace_append]
    refine ⟨⟨h.passes i, ?_⟩, ?_⟩
    · refine inPlace_of_forall fun o ho pre hpass => ?_
      obtain ⟨c, _, rfl⟩ := List.mem_map.mp ho
      cases hpass
    · intro pre o post heq hpass
      have hmem : StationObs.passed i ∈ s.extraObs e := by simp [heq, hpass]
      obtain ⟨hdata, hone⟩ := passed_data hmem
      have hpre : pre = [] := by
        rw [hone] at heq
        cases pre with
        | nil => rfl
        | cons p pre => exact absurd heq (by simp)
      rw [hpre, List.append_nil]
      exact (h.data i hdata).append (expired_not_mem_core i _)

theorem out_gate {insts : List ι} {s : Station ι} {i : ι} (hphase : (s.inst i).phase = .gate)
    (hdata : (s.inst i).dataReady = true) : (station insts).out s (.server i .go) = [.passed i] := by
  have hop : (serve (s.core.tx i) s.core.ring (s.inst i) .go).2 = none := by rw [serve, hphase]
  have hobs : s.serverObs i .go = [.passed i] := by
    unfold Station.serverObs
    rw [hphase]
    exact if_pos hdata
  rw [station_out, Station.lower, hop, Station.extraObs, hobs]
  rfl

/-- A frame comes in, its walk marks the instance, and the first wait is over. -/
def demoMarked : List (StationEvent Unit) :=
  [.ingest emptyFrame.bytes 5, .note, .note, .note, .note, .note, .note, .server () .go]

end RtkdataFw.NtripServer
