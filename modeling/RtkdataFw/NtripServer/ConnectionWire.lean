import RtkdataFw.NtripServer.ServerTask

/-!
# What the caster receives

The steps of `ntrip_server_task` keep the discipline that the senders rely on: a sender is reset between its
socket and its first poll, and is not polled any more once a poll failed.  So the bytes on every socket are
a request and then frames.

* `SockOk` — what is on the socket, place by place;
* `sockOk_other`, `sockOk_serve` — a step of another task, and a step of the task itself, keep it;
* `wire_ok` — on every socket that is ever open, under any interleaving.
-/

namespace RtkdataFw.NtripServer

open RtkdataFw.Lib RtkdataFw.TxCore RtkdataFw.Retry

variable {ι : Type*} [DecidableEq ι]

/-! ### The core of a station -/

/-- What the ring and the senders did. -/
def coreObs (os : List (StationObs ι)) : List (CoreObs ι) :=
  os.filterMap fun
    | .core o => some o
    | _ => none

omit [DecidableEq ι] in
@[simp] theorem coreObs_append (os us : List (StationObs ι)) :
    coreObs (os ++ us) = coreObs os ++ coreObs us := List.filterMap_append

omit [DecidableEq ι] in
theorem coreObs_core (os : List (CoreObs ι)) : coreObs (os.map .core) = os := by
  simp [coreObs]

variable (insts : List ι)

theorem station_core (s : Station ι) (e : StationEvent ι) :
    ((station insts).step s e).core = core.run s.core (s.lower e) := by
  cases e with
  | ingest chunk nowMs =>
      show (s.ingest insts chunk nowMs).core = _
      rw [Station.ingest, Station.lower]
      split
      · split <;> rfl
      · rfl
  | note =>
      show s.note.core = s.core
      rw [Station.note]
      split <;> rfl
  | epochReset => rfl
  | reconnect i => rfl
  | server i act => rfl
  | sleep i => rfl

theorem station_obs (s : Station ι) (e : StationEvent ι) :
    coreObs ((station insts).out s e) = core.outputs s.core (s.lower e) := by
  have hextra : ∀ extra : List (StationObs ι), coreObs extra = [] →
      coreObs ((core.outputs s.core (s.lower e)).map .core ++ extra) = core.outputs s.core (s.lower e) := by
    intro extra hextra
    rw [coreObs_append, coreObs_core, hextra, List.append_nil]
  apply hextra
  cases e with
  | note =>
      dsimp only
      split <;> rfl
  | server i act =>
      show coreObs (s.serverObs i act) = []
      unfold Station.serverObs
      split
      case h_2 => split <;> rfl
      case h_3 => split <;> rfl
      all_goals rfl
  | sleep i =>
      dsimp only
      split <;> rfl
  | ingest chunk nowMs => rfl
  | epochReset => rfl
  | reconnect i => rfl

theorem admits_pushes (c : CoreState ι) (nowMs : UInt32) (es : List Emission) :
    core.Admits (fun _ e => e.Ok) c (es.map fun e => CoreEvent.push e.2 nowMs) := by
  induction es generalizing c with
  | nil => trivial
  | cons e es ih => exact ⟨trivial, ih _⟩

/-- **The calls on the sender**: the reset at the end of the handshake, a round of a poll, and the abort. -/
theorem serve_op_cases {tx : NtripTx} {ring : NtripRing} {inst : Instance} {act : ServerAct} {op : TxOp}
    (hop : (serve tx ring inst act).2 = some op) :
    (∃ nowMs, act = .clock nowMs ∧ inst.phase = .reset ∧ op = .resetConn nowMs) ∨
      (∃ f now spins round result before, act = .send f ∧ inst.phase = .poll now spins round result before ∧
        op = .poll now 1 ntripTxStaleDropMs fun _ => f) ∨
      (act = .go ∧ inst.phase = .abort ∧ op = .abort) := by
  cases act with
  | send f =>
      rw [serve] at hop
      split at hop
      · rename_i now spins round result before hphase
        exact .inr (.inl ⟨f, now, spins, round, result, before, rfl, hphase, (Option.some.inj hop).symm⟩)
      · cases hop
  | clock nowMs =>
      rw [serve] at hop
      split at hop
      case h_1 hphase => exact .inl ⟨nowMs, rfl, hphase, (Option.some.inj hop).symm⟩
      all_goals cases hop
  | go =>
      rw [serve] at hop
      split at hop
      case h_9 hphase => exact .inr (.inr ⟨rfl, hphase, (Option.some.inj hop).symm⟩)
      case h_3 => split at hop <;> cases hop
      all_goals cases hop
  | config pwd mp version => rw [serve] at hop; split at hop <;> cases hop
  | connect r => rw [serve] at hop; split at hop <;> cases hop
  | alloc heap => rw [serve] at hop; split at hop <;> cases hop
  | write n => rw [serve] at hop; split at hop <;> cases hop
  | read received heap => rw [serve] at hop; split at hop <;> cases hop
  | fcntl ok => rw [serve] at hop; split at hop <;> cases hop
  | probe nowMs alive => rw [serve] at hop; split at hop <;> cases hop

theorem serve_op_ok {tx : NtripTx} {ring : NtripRing} {inst : Instance} {act : ServerAct} {op : TxOp}
    (hok : act.Ok) (hop : (serve tx ring inst act).2 = some op) : op.Ok := by
  rcases serve_op_cases hop with ⟨nowMs, _, _, rfl⟩ | ⟨f, _, _, _, _, _, rfl, _, rfl⟩ | ⟨_, _, rfl⟩
  · trivial
  · exact fun _ => hok
  · trivial

theorem lower_admits {s : Station ι} {e : StationEvent ι} (he : e.Ok) :
    core.Admits (fun _ e => e.Ok) s.core (s.lower e) := by
  cases e with
  | ingest chunk nowMs =>
      rw [Station.lower]
      split
      · split
        · trivial
        · exact admits_pushes s.core nowMs _
      · trivial
  | server i act =>
      rw [Station.lower]
      cases hop : (serve (s.core.tx i) s.core.ring (s.inst i) act).2 with
      | none => trivial
      | some op => exact ⟨serve_op_ok he hop, trivial⟩
  | note => trivial
  | epochReset => trivial
  | reconnect i => trivial
  | sleep i => trivial

/-- An event that is not a step of the server task of `i`. -/
def StationEvent.Spares (i : ι) : StationEvent ι → Prop
  | .server j _ => j ≠ i
  | _ => True

/-- The others leave the sender alone. -/
theorem lower_spares {i : ι} {e : StationEvent ι} (he : e.Spares i) (s : Station ι) :
    (core.run s.core (s.lower e)).tx i = s.core.tx i ∧ trace i (core.outputs s.core (s.lower e)) = [] := by
  cases e with
  | ingest chunk nowMs =>
      rw [Station.lower]
      split
      · split
        · exact ⟨rfl, rfl⟩
        · exact core_run_pushes_tx s.core nowMs _ i
      · exact ⟨rfl, rfl⟩
  | server j act =>
      rw [Station.lower]
      cases (serve (s.core.tx j) s.core.ring (s.inst j) act).2 with
      | none => exact ⟨rfl, rfl⟩
      | some op =>
          refine ⟨Function.update_of_ne (Ne.symm he) _ _, ?_⟩
          show trace i (core.out s.core (.sender j op) ++ []) = []
          rw [List.append_nil]
          exact trace_tx_of_ne he _
  | note => exact ⟨rfl, rfl⟩
  | epochReset => exact ⟨rfl, rfl⟩
  | reconnect j => exact ⟨rfl, rfl⟩
  | sleep j => exact ⟨rfl, rfl⟩

/-! ### The socket -/

/-- The caster granted the request. -/
def Granted (inst : Instance) : Prop :=
  ∃ line, FirstLine (CStr.ofBytes inst.answer).bytes line ∧ Grants line

/-- The socket carries a granted request and what the sender had accepted since its reset; `failed` says
whether a poll failed since. -/
def Conveys (i : ι) (inst : Instance) (c : CoreState ι) (os : List (CoreObs ι)) (failed : Prop) : Prop :=
  Granted inst ∧ ∃ past conn, os = past ++ conn ∧ Watch i past inst.openedAt c conn ∧
    EndsCut failed (c.tx i) (trace i conn) ∧ inst.sock = some (inst.request ++ acceptedBytes (trace i conn))

/-- **What is on the socket**, place by place. -/
def SockAt (i : ι) (inst : Instance) (c : CoreState ι) (os : List (CoreObs ι)) : ServerPhase → Prop
  | .start | .gate | .blocked | .resume | .ip | .load => inst.sock = none
  | .snapshot | .dial => inst.sock = none ∧ inst.request ≠ []
  | .alloc => (inst.sock = none ∨ inst.sock = some []) ∧ inst.request ≠ []
  | .request off => inst.sock = none ∨ inst.sock = some (inst.request.take off)
  | .response => inst.sock = some inst.request
  | .nonblock | .reset => Granted inst ∧ inst.sock = some inst.request
  | .clear | .announce | .loop | .take => Conveys i inst c os False
  | .poll _ _ _ result _ => result ≠ .error ∧ Conveys i inst c os False
  | .check _ result => Conveys i inst c os (result = .error)
  | .abort | .disconnect => ∃ failed, Conveys i inst c os failed
  | .cleanup =>
      inst.sock = none ∨ (∃ wire, inst.sock = some wire ∧ wire <+: inst.request) ∨
        ∃ failed, Conveys i inst c os failed

def SockOk (i : ι) (inst : Instance) (c : CoreState ι) (os : List (CoreObs ι)) : Prop :=
  SockAt i inst c os inst.phase

/-- `CASTER_READY_BIT` stands from the announcement to the disconnect. -/
def ServerPhase.ready : ServerPhase → Bool
  | .loop | .take | .poll .. | .check .. | .abort | .disconnect => true
  | _ => false

section Steps

variable {i : ι} {inst : Instance} {c c' : CoreState ι} {os us : List (CoreObs ι)} {failed : Prop}

/-- Calls that leave the sender alone. -/
theorem Conveys.frame (h : Conveys i inst c os failed) {es : List (CoreEvent ι)}
    (hes : core.Admits (fun _ e => e.Ok) c es)
    (hbound : (arrivals (os ++ core.outputs c es)).length < 2 ^ 32)
    (htx : (core.run c es).tx i = c.tx i) (htrace : trace i (core.outputs c es) = []) :
    Conveys i inst (core.run c es) (os ++ core.outputs c es) failed := by
  obtain ⟨hgranted, past, conn, rfl, hwatch, hcut, hsock⟩ := h
  rw [List.append_assoc] at hbound
  have hconn : trace i (conn ++ core.outputs c es) = trace i conn := by
    rw [trace_append, htrace, List.append_nil]
  refine ⟨hgranted, past, conn ++ core.outputs c es, List.append_assoc _ _ _,
    watch_run hwatch hes hbound, ?_, ?_⟩
  · rw [htx, hconn]
    exact hcut
  · rw [hconn]
    exact hsock

/-- **Steps of the others** keep what is on the socket. -/
theorem SockAt.frame {p : ServerPhase} (h : SockAt i inst c os p) {es : List (CoreEvent ι)}
    (hes : core.Admits (fun _ e => e.Ok) c es)
    (hbound : (arrivals (os ++ core.outputs c es)).length < 2 ^ 32)
    (htx : (core.run c es).tx i = c.tx i) (htrace : trace i (core.outputs c es) = []) :
    SockAt i inst (core.run c es) (os ++ core.outputs c es) p := by
  have hconveys : ∀ failed, Conveys i inst c os failed →
      Conveys i inst (core.run c es) (os ++ core.outputs c es) failed :=
    fun failed hc => hc.frame hes hbound htx htrace
  cases p with
  | clear => exact hconveys _ h
  | announce => exact hconveys _ h
  | loop => exact hconveys _ h
  | take => exact hconveys _ h
  | poll now spins round result before => exact ⟨h.1, hconveys _ h.2⟩
  | check now result => exact hconveys _ h
  | abort => exact h.imp hconveys
  | disconnect => exact h.imp hconveys
  | cleanup =>
      rcases h with hnone | hwire | hfailed
      · exact .inl hnone
      · exact .inr (.inl hwire)
      · exact .inr (.inr (hfailed.imp hconveys))
  | _ => exact h

theorem sourceRequest_ne_nil (pwd mp version : CStr) : sourceRequest pwd mp version ≠ [] := by
  have hfirst : (sourceRequest pwd mp version).head? = some 83 := rfl
  intro hnil
  rw [hnil] at hfirst
  cases hfirst

/-- The write loop is entered or over, with so much of the request on the socket. -/
theorem sockOk_request (off : ℕ) (hsock : inst.sock = some (inst.request.take off)) :
    SockOk i { inst with phase := requestPhase inst.request off } c os := by
  unfold requestPhase
  split
  · exact .inr hsock
  · rename_i hend
    rw [List.take_of_length_le (Nat.not_lt.mp hend)] at hsock
    exact hsock

/-- One `write` of the request. -/
theorem sockOk_write {off : ℕ} (h : inst.sock = none ∨ inst.sock = some (inst.request.take off)) (n : ℤ) :
    SockOk i (writeRequest inst off n) c os := by
  unfold writeRequest
  rcases h with hnone | hwire
  · rw [hnone]
    exact .inl rfl
  · rw [hwire]
    dsimp only
    split
    · exact .inr (.inl ⟨_, rfl, List.take_prefix _ _⟩)
    · have hmore : inst.request.take off ++ (inst.request.drop off).take n.toNat =
          inst.request.take (off + n.toNat) := List.take_add.symm
      rw [hmore]
      let sent : Instance := { inst with sock := some (inst.request.take (off + n.toNat)) }
      have hsent : SockOk i { sent with phase := requestPhase sent.request (off + n.toNat) } c os :=
        sockOk_request _ rfl
      exact hsent

theorem sockOk_dialed (h : inst.sock = none ∧ inst.request ≠ []) (r : ConnectResult) :
    SockOk i (dialed inst r) c os := by
  cases r with
  | connected => exact ⟨.inr rfl, h.2⟩
  | opts => exact ⟨.inl h.1, h.2⟩
  | resolve => exact .inl h.1
  | connect => exact .inl h.1

/-- After the checks the connection goes on, which it does not after a failed poll, or ends. -/
theorem sockOk_check {result : PollResult} (h : Conveys i inst c os (result = .error)) (tx : NtripTx)
    (now now' : UInt32) (alive : Bool) : SockOk i (checkConn inst tx now result now' alive) c os := by
  unfold checkConn
  split
  · exact ⟨_, h⟩
  · rename_i hgood
    have hfalse : (result = .error) = False := eq_false fun herr => hgood (.inl herr)
    rw [hfalse] at h
    split
    · cases alive with
      | true => exact h
      | false => exact ⟨_, h⟩
    · exact h

/-- **Steps without a call on the sender.** -/
theorem sockOk_quiet (h : SockOk i inst c os) {tx : NtripTx} {ring : NtripRing} {act : ServerAct}
    (hop : (serve tx ring inst act).2 = none) : SockOk i (serve tx ring inst act).1 c os := by
  unfold SockOk at h
  cases act with
  | go =>
      rw [serve] at hop ⊢
      split
      case h_1 hphase => exact (hphase ▸ h : SockAt i inst c os .start)
      case h_2 hphase =>
        have h : inst.sock = none := (hphase ▸ h : SockAt i inst c os .gate)
        cases inst.dataReady <;> exact h
      case h_3 hphase =>
        have h : inst.sock = none := (hphase ▸ h : SockAt i inst c os .blocked)
        split
        · exact h
        · unfold SockOk
          rw [hphase]
          exact h
      case h_4 hphase => exact (hphase ▸ h : SockAt i inst c os .resume)
      case h_5 hphase => exact (hphase ▸ h : SockAt i inst c os .ip)
      case h_6 hphase => exact (hphase ▸ h : SockAt i inst c os .snapshot)
      case h_7 hphase => exact (hphase ▸ h : SockAt i inst c os .clear)
      case h_8 hphase =>
        have h : Conveys i inst c os False := (hphase ▸ h : SockAt i inst c os .loop)
        show SockOk i { inst with phase := if inst.reconnectGen = inst.connGen then .take else .abort } c os
        split
        · exact h
        · exact ⟨_, h⟩
      case h_9 hphase =>
        rw [hphase] at hop
        cases hop
      case h_10 hphase => exact .inr (.inr (hphase ▸ h : SockAt i inst c os .disconnect))
      case h_11 => exact rfl
      case h_12 => exact h
  | config pwd mp version =>
      rw [serve]
      split
      · rename_i hphase
        exact ⟨(hphase ▸ h : SockAt i inst c os .load), sourceRequest_ne_nil _ _ _⟩
      · exact h
  | connect r =>
      rw [serve]
      split
      · rename_i hphase
        exact sockOk_dialed (hphase ▸ h : SockAt i inst c os .dial) r
      · exact h
  | alloc heap =>
      rw [serve]
      split
      · rename_i hphase
        obtain ⟨hsock, hne⟩ := (hphase ▸ h : SockAt i inst c os .alloc)
        have hfirst : requestPhase inst.request 0 = .request 0 := if_pos (List.length_pos_of_ne_nil hne)
        cases heap with
        | true =>
            show SockOk i { inst with phase := requestPhase inst.request 0 } c os
            rw [hfirst]
            exact hsock
        | false =>
            rcases hsock with hnone | hwire
            · exact .inl hnone
            · exact .inr (.inl ⟨[], hwire, List.nil_prefix⟩)
      · exact h
  | write n =>
      rw [serve]
      split
      · rename_i off hphase
        exact sockOk_write (hphase ▸ h : SockAt i inst c os (.request off)) n
      · exact h
  | read received heap =>
      rw [serve]
      split
      · rename_i hphase
        have h : inst.sock = some inst.request := (hphase ▸ h : SockAt i inst c os .response)
        show SockOk i { inst with
          answer := received.getD []
          phase := if received.bind (responseOk heap) = some true then .nonblock else .cleanup } c os
        split
        · rename_i hok
          obtain ⟨bytes, rfl, hok⟩ := Option.bind_eq_some_iff.mp hok
          exact ⟨((responseOk_eq_true_iff heap bytes).mp hok).2, h⟩
        · exact .inr (.inl ⟨_, h, List.prefix_refl _⟩)
      · exact h
  | fcntl ok =>
      rw [serve]
      split
      · rename_i hphase
        have h : Granted inst ∧ inst.sock = some inst.request := (hphase ▸ h : SockAt i inst c os .nonblock)
        cases ok with
        | true => exact h
        | false => exact .inr (.inl ⟨_, h.2, List.prefix_refl _⟩)
      · exact h
  | clock nowMs =>
      rw [serve] at hop ⊢
      split
      case h_1 hphase =>
        rw [hphase] at hop
        cases hop
      case h_2 hphase => exact (hphase ▸ h : SockAt i inst c os .announce)
      case h_3 hphase => exact ⟨PollResult.noConfusion, (hphase ▸ h : SockAt i inst c os .take)⟩
      case h_4 => exact h
  | send f =>
      rw [serve] at hop ⊢
      split
      · rename_i hphase
        rw [hphase] at hop
        cases hop
      · exact h
  | probe nowMs alive =>
      rw [serve]
      split
      · rename_i now result hphase
        exact sockOk_check (hphase ▸ h : SockAt i inst c os (.check now result)) tx now nowMs alive
      · exact h

/-! ### The steps with a call on the sender -/

/-- The result so far only matters when there is nothing to copy. -/
theorem pollRound_idle (tx : NtripTx) (ring : NtripRing) (nowMs staleMs : UInt32) (f : SendFn)
    (result : PollResult) :
    (pollRound tx ring nowMs staleMs f .idle).tx = (pollRound tx ring nowMs staleMs f result).tx ∧
      (pollRound tx ring nowMs staleMs f .idle).evs = (pollRound tx ring nowMs staleMs f result).evs := by
  rw [pollRound, pollRound]
  dsimp only
  split
  · split <;> exact ⟨rfl, rfl⟩
  · exact ⟨rfl, rfl⟩

/-- A round is a call of `ntrip_tx_poll` that may send once. -/
theorem poll_once (tx : NtripTx) (ring : NtripRing) (nowMs staleMs : UInt32) (f : SendFn)
    (result : PollResult) :
    (TxOp.poll nowMs 1 staleMs fun _ => f).run tx ring =
      ((pollRound tx ring nowMs staleMs f result).tx, (pollRound tx ring nowMs staleMs f result).evs) := by
  obtain ⟨htx, hevs⟩ := pollRound_idle tx ring nowMs staleMs f result
  have hone : ((1 : ℤ)).toNat = 1 := rfl
  rw [TxOp.run, ntripTxPoll, hone, pollLoop]
  dsimp only
  rw [← htx, ← hevs]
  split
  · simp only [pollLoop, List.append_nil]
  · rfl

theorem core_step_sender (c : CoreState ι) (i : ι) (op : TxOp) :
    (core.step c (.sender i op)).tx i = (op.run (c.tx i) c.ring).1 ∧
      trace i (core.out c (.sender i op)) = (op.run (c.tx i) c.ring).2 :=
  ⟨Function.update_self i _ _, trace_tx_self i _⟩

/-- **The reset** at the end of the handshake. -/
theorem conveys_reset (hw : Watch i [] 0 c os) (h : Granted inst ∧ inst.sock = some inst.request)
    (nowMs : UInt32) :
    Conveys i { inst with openedAt := c.ring.pushedFrames, phase := .clear }
      (core.step c (.sender i (.resetConn nowMs))) (os ++ core.out c (.sender i (.resetConn nowMs))) False := by
  have hat : c.ring.pushedFrames = (arrivals os).length := hw.ring.pushed_eq
  refine ⟨h.1, _, [], (List.append_nil _).symm, ?_, .inl ⟨id, List.not_mem_nil⟩, ?_⟩
  · show Watch i _ c.ring.pushedFrames _ []
    rw [hat]
    exact hw.reset nowMs
  · rw [h.2]
    exact congrArg some (List.append_nil _).symm

/-- **A round of a poll.** -/
theorem conveys_round (h : Conveys i inst c os False) {f : SendFn} (hf : f.Ok) (now : UInt32)
    {result : PollResult} (hres : result ≠ .error)
    (hbound : (arrivals (os ++ core.out c (.sender i (.poll now 1 ntripTxStaleDropMs fun _ => f)))).length <
      2 ^ 32) :
    let op : TxOp := .poll now 1 ntripTxStaleDropMs fun _ => f
    let r := pollRound (c.tx i) c.ring now ntripTxStaleDropMs f result
    Conveys i (sendRound inst r.evs) (core.step c (.sender i op)) (os ++ core.out c (.sender i op))
      (r.result = .error) := by
  intro op r
  obtain ⟨hgranted, past, conn, rfl, hwatch, hcut, hsock⟩ := h
  obtain ⟨htx, htrace⟩ := core_step_sender c i op
  have hone : op.run (c.tx i) c.ring = (r.tx, r.evs) := poll_once _ _ _ _ _ _
  rw [hone] at htx htrace
  obtain ⟨hround, _⟩ := pollRound_endsCut (c.tx i) c.ring now ntripTxStaleDropMs f hres
  rw [List.append_assoc] at hbound
  refine ⟨hgranted, past, conn ++ core.out c (.sender i op), List.append_assoc _ _ _,
    watch_step hwatch (fun _ => hf) hbound, ?_, ?_⟩
  · rw [htx, trace_append, htrace]
    rcases hcut with ⟨_, hnone⟩ | ⟨hfalse, _⟩
    · exact hround.prepend hnone
    · exact hfalse.elim
  · rw [trace_append, htrace, acceptedBytes_append, ← List.append_assoc, sendRound, hsock]
    rfl

theorem afterRound_sock (inst : Instance) (now : UInt32) (spins round before : ℕ) (r : Round) :
    (afterRound inst now spins round before r).sock = inst.sock ∧
      (afterRound inst now spins round before r).request = inst.request ∧
      (afterRound inst now spins round before r).openedAt = inst.openedAt ∧
      (afterRound inst now spins round before r).answer = inst.answer := by
  unfold afterRound noteProgress
  split
  · exact ⟨rfl, rfl, rfl, rfl⟩
  · split <;> split <;> exact ⟨rfl, rfl, rfl, rfl⟩

theorem Conveys.congr {inst' : Instance} (h : Conveys i inst c os failed) (hsock : inst'.sock = inst.sock)
    (hreq : inst'.request = inst.request) (hat : inst'.openedAt = inst.openedAt)
    (hanswer : inst'.answer = inst.answer) : Conveys i inst' c os failed := by
  unfold Conveys Granted at h ⊢
  rw [hsock, hreq, hat, hanswer]
  exact h

/-- Where the task goes after a round fits what it has on the socket. -/
theorem sockOk_afterRound {r : Round} (h : Conveys i inst c os (r.result = .error))
    (hagain : r.again = true → r.result ≠ .error) (now : UInt32) (spins round before : ℕ) :
    SockOk i (afterRound inst now spins round before r) c os := by
  have hok : r.result ≠ .error → Conveys i inst c os False := fun hne => eq_false hne ▸ h
  obtain ⟨hsock, hreq, hat, hanswer⟩ := afterRound_sock inst now spins round before r
  have hconveys : ∀ failed, Conveys i inst c os failed →
      Conveys i (afterRound inst now spins round before r) c os failed :=
    fun failed hc => hc.congr hsock hreq hat hanswer
  have hphase : (afterRound inst now spins round before r).phase =
      if r.again ∧ round + 1 < ntripTxMaxSendsPerPoll then .poll now spins (round + 1) r.result before
      else if r.result = .progress ∧ spins + 1 < ntripDrainMaxSpins then
        .poll now (spins + 1) 0 .idle r.tx.acceptedToLwip
      else .check now r.result := by
    unfold afterRound
    dsimp only
    split
    · rfl
    · split <;> rfl
  unfold SockOk
  rw [hphase]
  split
  · rename_i hmore
    exact ⟨hagain hmore.1, hconveys _ (hok (hagain hmore.1))⟩
  · split
    · rename_i hspin
      have hne : r.result ≠ .error := by
        rw [hspin.1]
        exact PollResult.noConfusion
      exact ⟨PollResult.noConfusion, hconveys _ (hok hne)⟩
    · exact hconveys _ h

/-- **The abort** after the drain loop. -/
theorem conveys_abort (h : Conveys i inst c os failed)
    (hbound : (arrivals (os ++ core.out c (.sender i .abort))).length < 2 ^ 32) :
    Conveys i inst (core.step c (.sender i .abort)) (os ++ core.out c (.sender i .abort)) True := by
  obtain ⟨hgranted, past, conn, rfl, hwatch, hcut, hsock⟩ := h
  obtain ⟨htx, htrace⟩ := core_step_sender c i .abort
  have htx' : (core.step c (.sender i .abort)).tx i = (ntripTxAbort (c.tx i)).1 := htx
  have htrace' : trace i (core.out c (.sender i .abort)) = (ntripTxAbort (c.tx i)).2 := htrace
  rw [List.append_assoc] at hbound
  refine ⟨hgranted, past, conn ++ core.out c (.sender i .abort), List.append_assoc _ _ _,
    watch_step hwatch trivial hbound, ?_, ?_⟩
  · rw [htx', trace_append, htrace']
    rcases hcut with ⟨_, hnone⟩ | ⟨_, hidle, pre, hpre, hevs⟩
    · exact (ntripTxAbort_endsCut (c.tx i)).prepend hnone
    · rw [ntripTxAbort_evs_of_idle hidle, List.append_nil]
      exact .inr ⟨trivial, ntripTxAbort_idle _, pre, hpre, hevs⟩
  · have hquiet : acceptedBytes (ntripTxAbort (c.tx i)).2 = [] := by
      rcases ntripTxAbort_cases (c.tx i) with ⟨_, h⟩ | ⟨_, h⟩
      · rw [h]
        rfl
      · rw [h]
        rfl
    rw [trace_append, htrace', acceptedBytes_append, hquiet, List.append_nil]
    exact hsock

/-- **A step of the server task** keeps what is on its socket. -/
theorem sockOk_serve (hw : Watch i [] 0 c os) (h : SockOk i inst c os) {act : ServerAct} (hok : act.Ok)
    (hbound : (arrivals (os ++ core.outputs c
      ((serve (c.tx i) c.ring inst act).2.map (.sender i)).toList)).length < 2 ^ 32) :
    SockOk i (serve (c.tx i) c.ring inst act).1
      (core.run c ((serve (c.tx i) c.ring inst act).2.map (.sender i)).toList)
      (os ++ core.outputs c ((serve (c.tx i) c.ring inst act).2.map (.sender i)).toList) := by
  cases hop : (serve (c.tx i) c.ring inst act).2 with
  | none =>
      show SockOk i (serve (c.tx i) c.ring inst act).1 c (os ++ [])
      rw [List.append_nil]
      exact sockOk_quiet h hop
  | some op =>
      rw [hop] at hbound
      have hout : core.outputs c [CoreEvent.sender i op] = core.out c (.sender i op) := List.append_nil _
      show SockOk i (serve (c.tx i) c.ring inst act).1 (core.step c (.sender i op))
        (os ++ core.outputs c [.sender i op])
      change (arrivals (os ++ core.outputs c [.sender i op])).length < 2 ^ 32 at hbound
      rw [hout] at hbound ⊢
      unfold SockOk at h
      rcases serve_op_cases hop with ⟨nowMs, rfl, hphase, rfl⟩ |
        ⟨f, now, spins, round, result, before, rfl, hphase, rfl⟩ | ⟨rfl, hphase, rfl⟩
      · rw [serve, hphase]
        exact conveys_reset hw (hphase ▸ h : SockAt i inst c os .reset) nowMs
      · rw [hphase] at h
        obtain ⟨hres, hconveys⟩ := h
        obtain ⟨_, hagain⟩ := pollRound_endsCut (c.tx i) c.ring now ntripTxStaleDropMs f hres
        rw [serve, hphase]
        exact sockOk_afterRound (conveys_round hconveys hok now hres hbound) hagain now spins round before
      · rw [hphase] at h
        obtain ⟨_, hconveys⟩ := h
        rw [serve, hphase]
        exact ⟨True, conveys_abort hconveys hbound⟩

/-! ### The caster bit -/

theorem afterRound_ready (inst : Instance) (now : UInt32) (spins round before : ℕ) (r : Round) :
    (afterRound inst now spins round before r).casterReady = inst.casterReady ∧
      (afterRound inst now spins round before r).phase.ready = true := by
  unfold afterRound noteProgress
  split
  · exact ⟨rfl, rfl⟩
  · split <;> split <;> exact ⟨rfl, rfl⟩

theorem checkConn_ready (inst : Instance) (tx : NtripTx) (now : UInt32) (result : PollResult)
    (now' : UInt32) (alive : Bool) :
    (checkConn inst tx now result now' alive).casterReady = inst.casterReady ∧
      (checkConn inst tx now result now' alive).phase.ready = true := by
  unfold checkConn
  split
  · exact ⟨rfl, rfl⟩
  · split
    · cases alive <;> exact ⟨rfl, rfl⟩
    · exact ⟨rfl, rfl⟩

theorem requestPhase_ready (request : List UInt8) (off : ℕ) : (requestPhase request off).ready = false := by
  unfold requestPhase
  split <;> rfl

theorem writeRequest_ready (inst : Instance) (off : ℕ) (n : ℤ) :
    (writeRequest inst off n).casterReady = inst.casterReady ∧ (writeRequest inst off n).phase.ready = false := by
  unfold writeRequest
  split
  · exact ⟨rfl, rfl⟩
  · split
    · exact ⟨rfl, rfl⟩
    · exact ⟨rfl, requestPhase_ready _ _⟩

/-- **The caster bit** follows the places of the task. -/
theorem serve_ready (h : inst.casterReady = inst.phase.ready) (tx : NtripTx) (ring : NtripRing)
    (act : ServerAct) :
    (serve tx ring inst act).1.casterReady = (serve tx ring inst act).1.phase.ready := by
  have hat : ∀ p, inst.phase = p → inst.casterReady = p.ready := fun _ hp => hp ▸ h
  cases act with
  | go =>
      rw [serve]
      split
      case h_1 hphase => exact hat .start hphase
      case h_2 hphase => cases inst.dataReady <;> exact hat .gate hphase
      case h_3 hphase =>
        split
        · exact hat .blocked hphase
        · exact h
      case h_4 hphase => exact hat .resume hphase
      case h_5 hphase => exact hat .ip hphase
      case h_6 hphase => exact hat .snapshot hphase
      case h_7 hphase => exact hat .clear hphase
      case h_8 hphase =>
        show inst.casterReady = (if inst.reconnectGen = inst.connGen then ServerPhase.take else .abort).ready
        split <;> exact hat .loop hphase
      case h_9 hphase => exact hat .abort hphase
      case h_10 => rfl
      case h_11 hphase => exact hat .cleanup hphase
      case h_12 => exact h
  | config pwd mp version =>
      rw [serve]
      split
      · rename_i hphase
        exact hat .load hphase
      · exact h
  | connect r =>
      rw [serve]
      split
      · rename_i hphase
        cases r <;> exact hat .dial hphase
      · exact h
  | alloc heap =>
      rw [serve]
      split
      · rename_i hphase
        show inst.casterReady = (if heap then requestPhase inst.request 0 else .cleanup).ready
        cases heap with
        | true => exact (hat .alloc hphase).trans (requestPhase_ready _ _).symm
        | false => exact hat .alloc hphase
      · exact h
  | write n =>
      rw [serve]
      split
      · rename_i off hphase
        obtain ⟨hready, hnext⟩ := writeRequest_ready inst off n
        exact (hready.trans (hat (.request off) hphase)).trans hnext.symm
      · exact h
  | read received heap =>
      rw [serve]
      split
      · rename_i hphase
        show inst.casterReady =
          (if received.bind (responseOk heap) = some true then ServerPhase.nonblock else .cleanup).ready
        split <;> exact hat .response hphase
      · exact h
  | fcntl ok =>
      rw [serve]
      split
      · rename_i hphase
        cases ok <;> exact hat .nonblock hphase
      · exact h
  | clock nowMs =>
      rw [serve]
      split
      case h_1 hphase => exact hat .reset hphase
      case h_2 => rfl
      case h_3 hphase => exact hat .take hphase
      case h_4 => exact h
  | send f =>
      rw [serve]
      split
      · rename_i now spins round result before hphase
        obtain ⟨hready, hnext⟩ := afterRound_ready
          (sendRound inst (pollRound tx ring now ntripTxStaleDropMs f result).evs) now spins round before
          (pollRound tx ring now ntripTxStaleDropMs f result)
        exact (hready.trans (hat (.poll now spins round result before) hphase)).trans hnext.symm
      · exact h
  | probe nowMs alive =>
      rw [serve]
      split
      · rename_i now result hphase
        obtain ⟨hready, hnext⟩ := checkConn_ready inst tx now result nowMs alive
        exact (hready.trans (hat (.check now result) hphase)).trans hnext.symm
      · exact h

end Steps

/-! ### Runs of the station -/

/-- The fields that only the server task writes. -/
structure SameLink (a b : Instance) : Prop where
  phase : b.phase = a.phase
  sock : b.sock = a.sock
  request : b.request = a.request
  openedAt : b.openedAt = a.openedAt
  answer : b.answer = a.answer
  casterReady : b.casterReady = a.casterReady
  retry : b.retry = a.retry
  madeProgress : b.madeProgress = a.madeProgress

theorem SameLink.refl (a : Instance) : SameLink a a := ⟨rfl, rfl, rfl, rfl, rfl, rfl, rfl, rfl⟩

theorem noteStep_sameLink (inst : Instance) (data caster sent : Bool) (at' : NoteStep) :
    SameLink inst (noteStep inst data caster sent at') := by
  cases at' with
  | mark => cases data <;> exact ⟨rfl, rfl, rfl, rfl, rfl, rfl, rfl, rfl⟩
  | zero => exact ⟨rfl, rfl, rfl, rfl, rfl, rfl, rfl, rfl⟩
  | sent => unfold noteStep; dsimp only; split <;> exact ⟨rfl, rfl, rfl, rfl, rfl, rfl, rfl, rfl⟩
  | give => cases caster <;> exact ⟨rfl, rfl, rfl, rfl, rfl, rfl, rfl, rfl⟩

theorem sleepStep_sameLink (inst : Instance) : SameLink inst (sleepStep inst) := by
  unfold sleepStep
  split
  · exact .refl _
  · split <;> exact ⟨rfl, rfl, rfl, rfl, rfl, rfl, rfl, rfl⟩

section Run

variable {insts} {s : Station ι} {os : List (CoreObs ι)}

theorem set_inst (s : Station ι) (i j : ι) (inst : Instance) :
    (s.set i inst).inst j = if j = i then inst else s.inst j := Function.update_apply _ _ _ _

theorem set_sameLink (s : Station ι) {i : ι} {inst : Instance} (h : SameLink (s.inst i) inst) (j : ι) :
    SameLink (s.inst j) ((s.set i inst).inst j) := by
  rw [set_inst]
  split
  · rename_i hji
    rw [hji]
    exact h
  · exact .refl _

/-- **Steps of the others** leave these fields alone. -/
theorem station_sameLink (insts : List ι) {i : ι} {e : StationEvent ι} (he : e.Spares i) (s : Station ι) :
    SameLink (s.inst i) (((station insts).step s e).inst i) := by
  cases e with
  | ingest chunk nowMs =>
      show SameLink _ ((s.ingest insts chunk nowMs).inst i)
      rw [Station.ingest]
      split
      · split <;> exact .refl _
      · exact .refl _
  | note =>
      show SameLink _ (s.note.inst i)
      rw [Station.note]
      split
      case h_4 => exact set_sameLink s (noteStep_sameLink _ _ _ _ _) i
      all_goals exact .refl _
  | epochReset => exact .refl _
  | reconnect j =>
      have hbump : SameLink (s.inst j) { s.inst j with reconnectGen := (s.inst j).reconnectGen + 1 } :=
        ⟨rfl, rfl, rfl, rfl, rfl, rfl, rfl, rfl⟩
      exact set_sameLink s hbump i
  | server j act =>
      have hother : (((station insts).step s (.server j act)).inst i) = s.inst i :=
        (set_inst s j i _).trans (if_neg (Ne.symm he))
      rw [hother]
      exact .refl _
  | sleep j => exact set_sameLink s (sleepStep_sameLink _) i

theorem SockAt.congr {i : ι} {a b : Instance} {c : CoreState ι} {p : ServerPhase} (h : SockAt i a c os p)
    (hlink : SameLink a b) : SockAt i b c os p := by
  have hconveys : ∀ failed, Conveys i a c os failed → Conveys i b c os failed :=
    fun failed hc => hc.congr hlink.sock hlink.request hlink.openedAt hlink.answer
  have hgranted : Granted a → Granted b := fun hg => by
    unfold Granted at hg ⊢
    rw [hlink.answer]
    exact hg
  cases p with
  | clear => exact hconveys _ h
  | announce => exact hconveys _ h
  | loop => exact hconveys _ h
  | take => exact hconveys _ h
  | poll now spins round result before => exact ⟨h.1, hconveys _ h.2⟩
  | check now result => exact hconveys _ h
  | abort => exact h.imp hconveys
  | disconnect => exact h.imp hconveys
  | cleanup =>
      rcases h with hnone | ⟨wire, hsock, hpre⟩ | hfailed
      · exact .inl (hlink.sock.trans hnone)
      · exact .inr (.inl ⟨wire, hlink.sock.trans hsock, hlink.request.symm ▸ hpre⟩)
      · exact .inr (.inr (hfailed.imp hconveys))
  | nonblock => exact ⟨hgranted h.1, by rw [hlink.sock, hlink.request]; exact h.2⟩
  | reset => exact ⟨hgranted h.1, by rw [hlink.sock, hlink.request]; exact h.2⟩
  | snapshot => exact ⟨hlink.sock.trans h.1, hlink.request ▸ h.2⟩
  | dial => exact ⟨hlink.sock.trans h.1, hlink.request ▸ h.2⟩
  | alloc => exact ⟨h.1.imp hlink.sock.trans hlink.sock.trans, hlink.request ▸ h.2⟩
  | request off =>
      refine h.imp hlink.sock.trans fun hsock => ?_
      rw [hlink.sock, hlink.request]
      exact hsock
  | response =>
      show b.sock = some b.request
      rw [hlink.sock, hlink.request]
      exact h
  | _ => exact hlink.sock.trans h

/-- The ring, the senders and the sockets are in order. -/
structure StationOk (s : Station ι) (os : List (CoreObs ι)) : Prop where
  watch : ∀ i, Watch i [] 0 s.core os
  sock : ∀ i, SockOk i (s.inst i) s.core os
  ready : ∀ i, (s.inst i).casterReady = (s.inst i).phase.ready
  frames : ∀ a ∈ arrivals os, IsRtcmFrame a.frame

theorem stationOk_init (heap : ι → Bool) : StationOk (stationInit heap) [] where
  watch := watch_init
  sock := fun _ => rfl
  ready := fun _ => rfl
  frames := fun _ ha => nomatch ha

/-- What the parser emits are frames, and nothing else is pushed. -/
theorem lower_frames (s : Station ι) (e : StationEvent ι) :
    ∀ a ∈ arrivals (core.outputs s.core (s.lower e)), IsRtcmFrame a.frame := by
  cases e with
  | ingest chunk nowMs =>
      rw [Station.lower]
      split
      · split
        · exact fun _ ha => nomatch ha
        · have hnew : ∀ e ∈ (s.fedParser.feed chunk).2, IsRtcmFrame e.2 := by
            rw [Parser.feed_emissions]
            exact fun e he => isRtcmFrame_of_mem_emissions he
          intro a ha
          have hmem := List.mem_map_of_mem (f := Arrival.frame) ha
          rw [arrivals_pushes nowMs s.core _ hnew] at hmem
          obtain ⟨e, he, hframe⟩ := List.mem_map.mp hmem
          exact hframe ▸ hnew e he
      · exact fun _ ha => nomatch ha
  | server j act =>
      rw [Station.lower]
      cases (serve (s.core.tx j) s.core.ring (s.inst j) act).2 with
      | none => exact fun _ ha => nomatch ha
      | some op =>
          have hnone : arrivals (core.outputs s.core [CoreEvent.sender j op]) = [] := arrivals_sender _ _ _
          intro a ha
          change a ∈ arrivals (core.outputs s.core [CoreEvent.sender j op]) at ha
          rw [hnone] at ha
          cases ha
  | note => exact fun _ ha => nomatch ha
  | epochReset => exact fun _ ha => nomatch ha
  | reconnect j => exact fun _ ha => nomatch ha
  | sleep j => exact fun _ ha => nomatch ha

/-- **Every event of a station** keeps its order. -/
theorem station_step_ok (hs : StationOk s os) {e : StationEvent ι} (he : e.Ok)
    (hbound : (arrivals (os ++ core.outputs s.core (s.lower e))).length < 2 ^ 32) :
    StationOk ((station insts).step s e) (os ++ core.outputs s.core (s.lower e)) where
  watch i := by
    rw [station_core]
    exact watch_run (hs.watch i) (lower_admits he) hbound
  sock i := by
    by_cases hspares : e.Spares i
    · obtain ⟨htx, htrace⟩ := lower_spares hspares s
      have hlink := station_sameLink insts hspares s
      unfold SockOk
      rw [hlink.phase, station_core]
      exact ((hs.sock i).frame (lower_admits he) hbound htx htrace).congr hlink
    · cases e with
      | server j act =>
          obtain rfl : j = i := not_not.mp hspares
          have hown : ((station insts).step s (.server j act)).inst j =
              (serve (s.core.tx j) s.core.ring (s.inst j) act).1 := Function.update_self _ _ _
          rw [hown, station_core]
          exact sockOk_serve (hs.watch j) (hs.sock j) he hbound
      | _ => exact absurd trivial hspares
  ready i := by
    by_cases hspares : e.Spares i
    · have hlink := station_sameLink insts hspares s
      rw [hlink.casterReady, hlink.phase]
      exact hs.ready i
    · cases e with
      | server j act =>
          obtain rfl : j = i := not_not.mp hspares
          have hown : ((station insts).step s (.server j act)).inst j =
              (serve (s.core.tx j) s.core.ring (s.inst j) act).1 := Function.update_self _ _ _
          rw [hown]
          exact serve_ready (hs.ready j) _ _ act
      | _ => exact absurd trivial hspares
  frames := by
    intro a ha
    rw [arrivals_append] at ha
    exact (List.mem_append.mp ha).elim (hs.frames a) (lower_frames s e a)

theorem station_run_ok {heap : ι → Bool} {es : List (StationEvent ι)}
    (hes : ∀ e ∈ es, e.Ok)
    (hbound : (arrivals (coreObs ((station insts).outputs (stationInit heap) es))).length < 2 ^ 32) :
    StationOk ((station insts).run (stationInit heap) es)
      (coreObs ((station insts).outputs (stationInit heap) es)) := by
  refine (station insts).history_nil
    (P := fun s os => (arrivals (coreObs os)).length < 2 ^ 32 → StationOk s (coreObs os)) ?_
    (fun _ => stationOk_init heap) ((station insts).admits_of_forall hes) hbound
  intro s os e hs he hlt
  rw [coreObs_append, station_obs] at hlt ⊢
  refine station_step_ok (hs ?_) he hlt
  rw [arrivals_append, List.length_append] at hlt
  omega

end Run

/-- The frames that went into the ring along a run. -/
def takenFrames (os : List (StationObs ι)) : List (List UInt8) := (arrivals (coreObs os)).map Arrival.frame

theorem Conveys.delivered {i : ι} {inst : Instance} {c : CoreState ι} {os : List (CoreObs ι)} {failed : Prop}
    (h : Conveys i inst c os failed) :
    ∃ bytes, inst.sock = some (inst.request ++ bytes) ∧ Granted inst ∧
      Delivered ((arrivals os).map Arrival.frame) inst.openedAt bytes := by
  obtain ⟨hgranted, past, conn, rfl, hwatch, hcut, hsock⟩ := h
  exact ⟨_, hsock, hgranted, hwatch.tx.tracks.delivered hwatch.tx.books.len_eq hcut⟩

/-- A place behind the announcement has a socket that conveys. -/
theorem SockAt.conveys {i : ι} {inst : Instance} {c : CoreState ι} {os : List (CoreObs ι)} {p : ServerPhase}
    (h : SockAt i inst c os p) (hp : p.ready = true) : ∃ failed, Conveys i inst c os failed := by
  cases p with
  | loop => exact ⟨_, h⟩
  | take => exact ⟨_, h⟩
  | poll now spins round result before => exact ⟨_, h.2⟩
  | check now result => exact ⟨_, h⟩
  | abort => exact h
  | disconnect => exact h
  | _ => cases hp

/-- What there is of an open socket. -/
theorem SockAt.open {i : ι} {inst : Instance} {c : CoreState ι} {os : List (CoreObs ι)} {p : ServerPhase}
    (h : SockAt i inst c os p) {wire : List UInt8} (hwire : inst.sock = some wire) :
    wire <+: inst.request ∨ ∃ failed, Conveys i inst c os failed := by
  have hnone : inst.sock = none → wire <+: inst.request := fun hnone => by
    rw [hnone] at hwire
    cases hwire
  have hsome : ∀ w, inst.sock = some w → w <+: inst.request → wire <+: inst.request := fun w hw hpre => by
    rw [hw] at hwire
    cases hwire
    exact hpre
  by_cases hp : p.ready = true
  · exact .inr (h.conveys hp)
  · cases p with
    | clear => exact .inr ⟨_, h⟩
    | announce => exact .inr ⟨_, h⟩
    | loop => exact absurd rfl hp
    | take => exact absurd rfl hp
    | poll now spins round result before => exact absurd rfl hp
    | check now result => exact absurd rfl hp
    | abort => exact absurd rfl hp
    | disconnect => exact absurd rfl hp
    | snapshot => exact .inl (hnone h.1)
    | dial => exact .inl (hnone h.1)
    | alloc => exact .inl (h.1.elim hnone fun hw => hsome [] hw List.nil_prefix)
    | request off => exact .inl (h.elim hnone fun hw => hsome _ hw (List.take_prefix _ _))
    | response => exact .inl (hsome _ h (List.prefix_refl _))
    | nonblock => exact .inl (hsome _ h.2 (List.prefix_refl _))
    | reset => exact .inl (hsome _ h.2 (List.prefix_refl _))
    | cleanup =>
        rcases h with hw | ⟨w, hw, hpre⟩ | hfailed
        · exact .inl (hnone hw)
        · exact .inl (hsome w hw hpre)
        · exact .inr hfailed
    | _ => exact .inl (hnone h)

/-- A frame opens the gate, the caster grants the request with `ICY 200 OK`, and the next frame goes out in
part. -/
def demoServing : List (StationEvent Unit) :=
  [.ingest emptyFrame.bytes 5, .note, .note, .note, .note, .note, .note,
   .server () .go, .server () .go, .server () .go, .server () .go,
   .server () (.config (some (CStr.ofBytes [112, 119])) (some (CStr.ofBytes [109])) (CStr.ofBytes [49])),
   .server () .go, .server () (.connect .connected), .server () (.alloc true),
   .server () (.write 16), .server () (.write 39),
   .server () (.read (some [73, 67, 89, 32, 50, 48, 48, 32, 79, 75, 13, 10]) true),
   .server () (.fcntl true), .server () (.clock 10), .server () .go, .server () (.clock 11),
   .ingest emptyFrame.bytes 20, .server () .go, .server () (.clock 22), .server () (.send (sendTwo 0))]

end RtkdataFw.NtripServer
