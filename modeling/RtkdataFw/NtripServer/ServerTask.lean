import RtkdataFw.NtripServer.DrainLoop
import RtkdataFw.NtripServer.Handshake
import RtkdataFw.Retry
import RtkdataFw.TxCore.FrameIntegrity

/-!
# The NTRIP instances of a station

The UART task parses into the shared ring and notes every batch of frames to the instances; each instance
has a server task, which waits for data, dials, shakes hands and drains, and a sleep task, which withdraws
the data bit when no frame comes.  An event is one step of one of these tasks: one call of the operating
system, one access to a shared field, one round of `ntrip_tx_poll`.  The steps interleave freely.

* `serve` — the loop of `ntrip_server_task`, place by place;
* `sleepStep` — the loop of `ntrip_server_sleep_task`;
* `noteStep` — `ntrip_server_update_data_state` and the wake-up, access by access;
* `station` — all of them over one parser, one ring and the senders.

The bytes that the stack took on the open socket are remembered with it.
-/

namespace RtkdataFw.NtripServer

open RtkdataFw.Lib RtkdataFw.TxCore RtkdataFw.Retry

def ntripKeepAliveThreshold : ℕ := 10000

/-- The places of `ntrip_server_task`. -/
inductive ServerPhase where
  | start
  /-- `retry_delay` is over, the data bit is looked at next. -/
  | gate
  /-- In `xEventGroupWaitBits`. -/
  | blocked
  | resume
  /-- In `wait_for_ip`. -/
  | ip
  | load
  | snapshot
  | dial
  | alloc
  /-- In the loop that writes the request, with `req_off`. -/
  | request (off : ℕ)
  | response
  | nonblock
  | reset
  /-- `ulTaskNotifyTake (pdTRUE, 0)`. -/
  | clear
  /-- `CASTER_READY_BIT` is set next. -/
  | announce
  /-- At the condition of the drain loop. -/
  | loop
  | take
  /-- In `ntrip_tx_poll`, with `now`, the polls and rounds before, and `before`. -/
  | poll (now : UInt32) (spins round : ℕ) (result : PollResult) (before : ℕ)
  | check (now : UInt32) (result : PollResult)
  | abort
  | disconnect
  | cleanup
  deriving DecidableEq, Repr

/-- The places of `ntrip_server_sleep_task`. -/
inductive SleepPhase where
  /-- Before its first `vTaskSuspend`. -/
  | boot
  | read
  | write (keepAlive : ℕ)
  | check
  | clear
  deriving DecidableEq, Repr

/-- `ntrip_instance_t` without its sender, and the locals of its two tasks. -/
structure Instance where
  casterReady : Bool
  dataReady : Bool
  dataSent : Bool
  /-- The notification value of the server task. -/
  notified : ℕ
  dataKeepAlive : ℕ
  reconnectGen : UInt32
  reconnects : UInt32
  retry : Option RetryHandle
  /-- The open socket: what the stack took since it was opened. -/
  sock : Option (List UInt8)
  /-- The frames in the ring's history when the connection was reset. -/
  openedAt : ℕ
  request : List UInt8
  /-- What the last read of a response gave. -/
  answer : List UInt8
  connGen : UInt32
  madeProgress : Bool
  lastProbeMs : UInt32
  phase : ServerPhase
  sleep : SleepPhase
  suspended : Bool

/-- After `ntrip_server_init_task_context`, with whether `retry_init` had memory. -/
def instanceInit (heap : Bool) : Instance where
  casterReady := false
  dataReady := false
  dataSent := false
  notified := 0
  dataKeepAlive := 0
  reconnectGen := 0
  reconnects := 0
  retry := retryInit heap true 5 2000 0
  sock := none
  openedAt := 0
  request := []
  answer := []
  connGen := 0
  madeProgress := false
  lastProbeMs := 0
  phase := .start
  sleep := .boot
  suspended := false

/-- How `connect_socket` returns.  Without the options the socket is closed again, but the task goes on. -/
inductive ConnectResult where
  | connected
  | resolve
  | connect
  | opts
  deriving DecidableEq, Repr

/-- What a step of the server task finds outside. -/
inductive ServerAct where
  | go
  /-- The strings that the configuration gives, `NULL` when it gives none. -/
  | config (pwd mp : Option CStr) (version : CStr)
  | connect (r : ConnectResult)
  | alloc (heap : Bool)
  | write (n : ℤ)
  | read (received : Option (List UInt8)) (heap : Bool)
  | fcntl (ok : Bool)
  | clock (nowMs : UInt32)
  | send (f : SendFn)
  /-- The second reading of the clock, and what the probe finds if there is one. -/
  | probe (nowMs : UInt32) (alive : Bool)

/-! ### The server task -/

/-- After `connect_socket`. -/
def dialed (inst : Instance) : ConnectResult → Instance
  | .connected => { inst with sock := some [], phase := .alloc }
  | .opts => { inst with phase := .alloc }
  | .resolve => { inst with phase := .cleanup }
  | .connect => { inst with phase := .cleanup }

/-- `while (req_off < req_len)`. -/
def requestPhase (request : List UInt8) (off : ℕ) : ServerPhase :=
  if off < request.length then .request off else .response

/-- One `write`, which fails on a socket that is not open. -/
def writeRequest (inst : Instance) (off : ℕ) (n : ℤ) : Instance :=
  match inst.sock with
  | none => { inst with phase := .cleanup }
  | some wire =>
      if n ≤ 0 then { inst with phase := .cleanup }
      else
        { inst with
          sock := some (wire ++ (inst.request.drop off).take n.toNat)
          phase := requestPhase inst.request (off + n.toNat) }

/-- After `ntrip_tx_poll`: the first accepted bytes of a connection reset the back-off. -/
def noteProgress (inst : Instance) (tx : NtripTx) (before : ℕ) : Instance :=
  if tx.acceptedToLwip > before ∧ inst.madeProgress = false then
    { inst with madeProgress := true, retry := retryReset inst.retry }
  else inst

/-- Where the task goes after a round: the next round, the next poll, or the checks. -/
def afterRound (inst : Instance) (now : UInt32) (spins round before : ℕ) (r : Round) : Instance :=
  if r.again ∧ round + 1 < ntripTxMaxSendsPerPoll then
    { inst with phase := .poll now spins (round + 1) r.result before }
  else
    let inst := noteProgress inst r.tx before
    if r.result = .progress ∧ spins + 1 < ntripDrainMaxSpins then
      { inst with phase := .poll now (spins + 1) 0 .idle r.tx.acceptedToLwip }
    else { inst with phase := .check now r.result }

/-- What the stack takes in a round goes out on the socket. -/
def sendRound (inst : Instance) (evs : List TxEvent) : Instance :=
  { inst with sock := inst.sock.map (· ++ acceptedBytes evs) }

/-- The checks that end a connection, and the half-open probe. -/
def checkConn (inst : Instance) (tx : NtripTx) (now : UInt32) (result : PollResult) (now' : UInt32)
    (alive : Bool) : Instance :=
  if result = .error ∨ ntripTxStalled tx now ntripTxProgressTimeoutMs = true ∨
      ntripTxFrameOverdue tx now ntripTxFrameDeadlineMs = true then { inst with phase := .abort }
  else if now' - inst.lastProbeMs ≥ ntripProbeIntervalMs then
    { inst with lastProbeMs := now', phase := if alive then .loop else .abort }
  else { inst with phase := .loop }

/-- One step of `ntrip_server_task`, and the call on its sender that it makes. -/
def serve (tx : NtripTx) (ring : NtripRing) (inst : Instance) : ServerAct → Instance × Option TxOp
  | .go =>
      match inst.phase with
      | .start => ({ inst with retry := (retryDelay inst.retry).1, phase := .gate }, none)
      | .gate => ({ inst with phase := if inst.dataReady then .resume else .blocked }, none)
      | .blocked =>
          if inst.dataReady then ({ inst with dataReady := false, phase := .resume }, none)
          else (inst, none)
      | .resume => ({ inst with suspended := false, phase := .ip }, none)
      | .ip => ({ inst with phase := .load }, none)
      | .snapshot => ({ inst with connGen := inst.reconnectGen, phase := .dial }, none)
      | .clear => ({ inst with notified := 0, phase := .announce }, none)
      | .loop =>
          ({ inst with phase := if inst.reconnectGen = inst.connGen then .take else .abort }, none)
      | .abort =>
          ({ inst with reconnects := inst.reconnects + 1, phase := .disconnect }, some .abort)
      | .disconnect => ({ inst with casterReady := false, dataSent := false, phase := .cleanup }, none)
      | .cleanup => ({ inst with suspended := true, sock := none, phase := .start }, none)
      | _ => (inst, none)
  | .config pwd mp version =>
      match inst.phase with
      | .load =>
          ({ inst with
              request := sourceRequest (pwd.getD CStr.empty) (mp.getD CStr.empty) version
              phase := .snapshot }, none)
      | _ => (inst, none)
  | .connect r =>
      match inst.phase with
      | .dial => (dialed inst r, none)
      | _ => (inst, none)
  | .alloc heap =>
      match inst.phase with
      | .alloc => ({ inst with phase := if heap then requestPhase inst.request 0 else .cleanup }, none)
      | _ => (inst, none)
  | .write n =>
      match inst.phase with
      | .request off => (writeRequest inst off n, none)
      | _ => (inst, none)
  | .read received heap =>
      match inst.phase with
      | .response =>
          ({ inst with
              answer := received.getD []
              phase := if received.bind (responseOk heap) = some true then .nonblock else .cleanup }, none)
      | _ => (inst, none)
  | .fcntl ok =>
      match inst.phase with
      | .nonblock => ({ inst with phase := if ok then .reset else .cleanup }, none)
      | _ => (inst, none)
  | .clock nowMs =>
      match inst.phase with
      | .reset =>
          ({ inst with openedAt := ring.pushedFrames, phase := .clear }, some (.resetConn nowMs))
      | .announce =>
          ({ inst with casterReady := true, madeProgress := false, lastProbeMs := nowMs, phase := .loop }, none)
      | .take => ({ inst with notified := 0, phase := .poll nowMs 0 0 .idle tx.acceptedToLwip }, none)
      | _ => (inst, none)
  | .send f =>
      match inst.phase with
      | .poll now spins round result before =>
          let r := pollRound tx ring now ntripTxStaleDropMs f result
          (afterRound (sendRound inst r.evs) now spins round before r,
            some (.poll now 1 ntripTxStaleDropMs fun _ => f))
      | _ => (inst, none)
  | .probe nowMs alive =>
      match inst.phase with
      | .check now result => (checkConn inst tx now result nowMs alive, none)
      | _ => (inst, none)

/-- What `lwip` promises: a send takes at most what it is offered. -/
def ServerAct.Ok : ServerAct → Prop
  | .send f => f.Ok
  | _ => True

/-! ### The sleep task -/

/-- One step of `ntrip_server_sleep_task`. -/
def sleepStep (inst : Instance) : Instance :=
  if inst.suspended then inst
  else
    match inst.sleep with
    | .boot => { inst with suspended := true, sleep := .read }
    | .read =>
        { inst with
          sleep := if inst.dataKeepAlive < ntripKeepAliveThreshold then
              .write (min (inst.dataKeepAlive + ntripKeepAliveThreshold / 10) ntripKeepAliveThreshold)
            else .check }
    | .write keepAlive => { inst with dataKeepAlive := keepAlive, sleep := .check }
    | .check =>
        { inst with
          sleep := if ntripKeepAliveThreshold ≤ inst.dataKeepAlive ∧ inst.dataReady = true then .clear
            else .read }
    | .clear => { inst with dataReady := false, sleep := .read }

/-! ### The UART task -/

/-- The accesses of `ntrip_server_update_data_state`, and the wake-up. -/
inductive NoteStep where
  | mark
  | zero
  | sent
  | give
  deriving DecidableEq, Repr

/-- One access, with the bits as they were read: whether the data, the caster and the sent bit was set. -/
def noteStep (inst : Instance) (data caster sent : Bool) : NoteStep → Instance
  | .mark => if data then inst else { inst with dataReady := true }
  | .zero => { inst with dataKeepAlive := 0 }
  | .sent => if caster && !sent then { inst with dataSent := true } else inst
  | .give => if caster then { inst with notified := inst.notified + 1 } else inst

def NoteStep.next : NoteStep → Option NoteStep
  | .mark => some .zero
  | .zero => some .sent
  | .sent => some .give
  | .give => none

/-- Where the UART task stands: between chunks, or going over the instances after one with frames in it. -/
inductive UartPhase (ι : Type*) where
  | idle
  | look (todo : List ι)
  | note (i : ι) (data caster sent : Bool) (at' : NoteStep) (todo : List ι)

/-! ### The station -/

structure Station (ι : Type*) where
  /-- `s_ingest_reset_req`. -/
  ingestResetReq : Bool
  parser : Parser
  core : CoreState ι
  uart : UartPhase ι
  inst : ι → Instance

inductive StationEvent (ι : Type*) where
  /-- `ntrip_server_ingest_uart` up to its look at the ring. -/
  | ingest (chunk : List UInt8) (nowMs : UInt32)
  /-- The next access of the walk over the instances. -/
  | note
  /-- `ntrip_server_msg_epoch_reset` asks for a new parser. -/
  | epochReset
  /-- `reconnect_gen++` for one instance. -/
  | reconnect (i : ι)
  | server (i : ι) (act : ServerAct)
  | sleep (i : ι)

/-- What can be seen of a run. -/
inductive StationObs (ι : Type*) where
  | core (o : CoreObs ι)
  /-- `retry_delay` waited. -/
  | waited (i : ι) (call : RetryCall)
  /-- The data bit was set for new frames. -/
  | marked (i : ι)
  /-- The sleep task withdrew the data bit. -/
  | expired (i : ι)
  /-- The task goes on to resume the sleep task and to dial. -/
  | passed (i : ι)

variable {ι : Type*} [DecidableEq ι]

/-- After `ntrip_server_init`, with whether each instance has a handle for its back-off. -/
def stationInit (heap : ι → Bool) : Station ι where
  ingestResetReq := false
  parser := Parser.init
  core := coreInit
  uart := .idle
  inst i := instanceInit (heap i)

/-- The parser that a chunk is fed to. -/
def Station.fedParser (s : Station ι) : Parser := if s.ingestResetReq then Parser.init else s.parser

def Station.set (s : Station ι) (i : ι) (inst : Instance) : Station ι :=
  { s with inst := Function.update s.inst i inst }

/-- The pushes and the calls on senders that an event makes. -/
def Station.lower (s : Station ι) : StationEvent ι → List (CoreEvent ι)
  | .ingest chunk nowMs =>
      match s.uart with
      | .idle => if chunk = [] then [] else (s.fedParser.feed chunk).2.map fun e => .push e.2 nowMs
      | _ => []
  | .server i act => ((serve (s.core.tx i) s.core.ring (s.inst i) act).2.map (.sender i)).toList
  | _ => []

/-- The walk over the instances begins when the ring has taken a frame. -/
def Station.ingest (s : Station ι) (insts : List ι) (chunk : List UInt8) (nowMs : UInt32) : Station ι :=
  match s.uart with
  | .idle =>
      if chunk = [] then s
      else
        let core := TxCore.core.run s.core (s.lower (.ingest chunk nowMs))
        { s with
          ingestResetReq := false
          parser := (s.fedParser.feed chunk).1
          core := core
          uart := if core.ring.nextSeq = s.core.ring.nextSeq then .idle else .look insts }
  | _ => s

def Station.note (s : Station ι) : Station ι :=
  match s.uart with
  | .idle => s
  | .look [] => { s with uart := .idle }
  | .look (i :: todo) =>
      { s with uart := .note i (s.inst i).dataReady (s.inst i).casterReady (s.inst i).dataSent .mark todo }
  | .note i data caster sent at' todo =>
      { s.set i (noteStep (s.inst i) data caster sent at') with
        uart := match at'.next with
          | some next => .note i data caster sent next todo
          | none => .look todo }

/-- What a step of the server task shows besides its call on the sender. -/
def Station.serverObs (s : Station ι) (i : ι) (act : ServerAct) : List (StationObs ι) :=
  match act, (s.inst i).phase with
  | .go, .start => [.waited i (retryDelay (s.inst i).retry).2]
  | .go, .gate => if (s.inst i).dataReady then [.passed i] else []
  | .go, .blocked => if (s.inst i).dataReady then [.passed i] else []
  | _, _ => []

def station (insts : List ι) : Machine (Station ι) (StationEvent ι) (StationObs ι) where
  step s
    | .ingest chunk nowMs => s.ingest insts chunk nowMs
    | .note => s.note
    | .epochReset => { s with ingestResetReq := true }
    | .reconnect i => s.set i { s.inst i with reconnectGen := (s.inst i).reconnectGen + 1 }
    | .server i act =>
        { s.set i (serve (s.core.tx i) s.core.ring (s.inst i) act).1 with
          core := core.run s.core (s.lower (.server i act)) }
    | .sleep i => s.set i (sleepStep (s.inst i))
  out s e :=
    (core.outputs s.core (s.lower e)).map .core ++
      match e with
      | .note =>
          match s.uart with
          | .note i false _ _ .mark _ => [.marked i]
          | _ => []
      | .server i act => s.serverObs i act
      | .sleep i => if (s.inst i).suspended = false ∧ (s.inst i).sleep = .clear then [.expired i] else []
      | _ => []

def StationEvent.Ok : StationEvent ι → Prop
  | .server _ act => act.Ok
  | _ => True

end RtkdataFw.NtripServer
