import Mathlib.Algebra.Ring.Nat
import Mathlib.Data.Int.Basic
import RtkdataFw.Lib.CStr
import RtkdataFw.Lib.Machine

/-!
# Re-pointing the station while a server task connects

Provisioning writes the caster's fields one NVS key at a time and then bumps `reconnect_gen`; the server
task reads the fields one NVS call at a time, snapshots the generation, dials and drains while the
generation stands.  A step is one NVS call, one access to the generation, or one pass of the loop, and the
steps interleave freely.  `since` counts the bumps since the last snapshot.

* `loadStep` — the reads of `ntrip_server_load_config_from_storage`, torn reads of one string included;
* `load_current` — a load that nothing interleaves with reads what is stored;
* `repoint_step_ok` — what a snapshot that was fair keeps, whatever comes after it;
* `request_lost`, `unfair_snapshot_loses` — a request that falls between the reads and the snapshot;
* `repointing_kept` — with fair snapshots no request is lost.
-/

namespace RtkdataFw.NtripServer

open RtkdataFw.Lib

/-- The NVS keys that `write_caster_creds` writes. -/
structure CasterKeys where
  host : Option CStr
  port : Option UInt16
  mountpoint : Option CStr
  username : Option CStr
  password : Option CStr
  active : Option Bool
  deriving DecidableEq, Repr

/-- The value of a string key: what is stored, or its default. -/
def configStr (value : Option CStr) : CStr := value.getD CStr.empty

def configPort (value : Option UInt16) : UInt16 := value.getD 2101

/-- `config_get_str_blob` into a buffer of `cap` bytes. -/
def configGetStr (value : Option CStr) (cap : ℕ) : StrRead :=
  match readStr value cap with
  | .notFound => .ok CStr.empty
  | r => r

/-! ### The writer -/

/-- The `caster` object of a reply; a field that is missing or has another type is `none`. -/
structure Caster where
  host : Option CStr
  port : Option ℤ
  mountpoint : Option CStr
  username : Option CStr
  password : Option CStr
  deriving DecidableEq, Repr

inductive CasterWrite where
  | host (s : CStr)
  | port (p : UInt16)
  | mountpoint (s : CStr)
  | username (s : CStr)
  | password (s : CStr)
  | active (b : Bool)
  deriving DecidableEq, Repr

def CasterKeys.set (k : CasterKeys) : CasterWrite → CasterKeys
  | .host s => { k with host := some s }
  | .port p => { k with port := some p }
  | .mountpoint s => { k with mountpoint := some s }
  | .username s => { k with username := some s }
  | .password s => { k with password := some s }
  | .active b => { k with active := some b }

def writeCasterCreds (c : Caster) : List CasterWrite :=
  (c.host.map .host).toList ++ (c.port.map fun p => .port (UInt16.ofInt p)).toList ++
    (c.mountpoint.map .mountpoint).toList ++ (c.username.map .username).toList ++
    (c.password.map .password).toList ++ [.active true]

/-! ### The reader -/

/-- The fields that a connection is dialed with; a pointer that stays `NULL` is `none`. -/
structure Dialed where
  host : Option CStr
  port : UInt16
  password : Option CStr
  mountpoint : Option CStr
  deriving DecidableEq, Repr

def dialedInit : Dialed := ⟨none, 2101, none, none⟩

/-- The NVS calls of a load, in order.  A string takes two: its length, and with a buffer of `cap` bytes
its contents. -/
inductive LoadStep where
  | hostLen
  | host (cap : ℕ)
  | port
  | passLen
  | pass (cap : ℕ)
  | mpLen
  | mp (cap : ℕ)
  | snapshot
  deriving DecidableEq, Repr

/-- How one call turns out: whether NVS answers, whether `malloc` succeeds, and what a buffer reads as
when nothing is copied into it. -/
structure ReadIo where
  nvs : Bool
  heap : Bool
  garbage : CStr
  deriving DecidableEq, Repr

def readBuffer (value : Option CStr) (cap : ℕ) (io : ReadIo) : CStr :=
  if io.nvs then
    match configGetStr value cap with
    | .ok s => s
    | _ => io.garbage
  else io.garbage

/-- One call of `ntrip_server_load_config_from_storage`. -/
def loadStep (keys : CasterKeys) (io : ReadIo) : LoadStep → Dialed → LoadStep × Dialed
  | .hostLen, got =>
      (if io.nvs ∧ io.heap then .host (configStr keys.host).size else .port, got)
  | .host cap, got => (.port, { got with host := some (readBuffer keys.host cap io) })
  | .port, got => (.passLen, { got with port := if io.nvs then configPort keys.port else 2101 })
  | .passLen, got =>
      (if io.nvs ∧ io.heap then .pass (configStr keys.password).size else .mpLen, got)
  | .pass cap, got => (.mpLen, { got with password := some (readBuffer keys.password cap io) })
  | .mpLen, got =>
      (if io.nvs ∧ io.heap then .mp (configStr keys.mountpoint).size else .snapshot, got)
  | .mp cap, got =>
      (.snapshot, { got with mountpoint := some (readBuffer keys.mountpoint cap io) })
  | .snapshot, got => (.snapshot, got)

inductive TaskPhase where
  | waiting
  | loading (step : LoadStep) (got : Dialed)
  | dialing (got : Dialed) (connGen : UInt32)
  | draining (got : Dialed) (connGen : UInt32)
  deriving DecidableEq, Repr

/-- The connection that a task has taken its snapshot for. -/
def TaskPhase.dialed : TaskPhase → Option (Dialed × UInt32)
  | .dialing got connGen => some (got, connGen)
  | .draining got connGen => some (got, connGen)
  | _ => none

/-- What a load has read, when the snapshot is next. -/
def TaskPhase.loaded : TaskPhase → Option Dialed
  | .loading .snapshot got => some got
  | _ => none

/-! ### The two together -/

structure Repoint where
  keys : CasterKeys
  /-- The fields that a provisioning in progress has yet to write. -/
  writer : Option (List CasterWrite)
  reconnectGen : UInt32
  task : TaskPhase
  since : ℕ
  deriving DecidableEq, Repr

inductive RepointEvent where
  /-- `write_caster_creds` begins. -/
  | provision (c : Caster)
  | write (ok : Bool)
  /-- `ntrip_server_reconnect_all` at the end of a provisioning. -/
  | reconnectAll
  /-- `ntrip_server_reconnect_all` as the supervisor's recovery. -/
  | recover
  /-- `ntrip_server_wait_for_start` returns. -/
  | start
  | read (io : ReadIo)
  | snapshot
  /-- The dialing and the handshake are over. -/
  | dial (ok : Bool)
  /-- The loop condition, and a pass of the loop that may break off. -/
  | turn (ok : Bool)

def repointInit (keys : CasterKeys) : Repoint := ⟨keys, none, 0, .waiting, 0⟩

def Repoint.bump (s : Repoint) : Repoint :=
  { s with reconnectGen := s.reconnectGen + 1, since := s.since + 1 }

def Repoint.writeField (s : Repoint) (w : CasterWrite) (rest : List CasterWrite) (ok : Bool) :
    Repoint :=
  { s with keys := if ok then s.keys.set w else s.keys, writer := some rest }

def repoint : Machine Repoint RepointEvent Empty where
  step s
    | .provision c =>
        match s.writer with
        | none => { s with writer := some (writeCasterCreds c) }
        | some _ => s
    | .write ok =>
        match s.writer with
        | some (w :: rest) => s.writeField w rest ok
        | _ => s
    | .reconnectAll =>
        match s.writer with
        | some [] => { s.bump with writer := none }
        | _ => s
    | .recover => s.bump
    | .start =>
        match s.task with
        | .waiting => { s with task := .loading .hostLen dialedInit }
        | _ => s
    | .read io =>
        match s.task with
        | .loading step got =>
            let r := loadStep s.keys io step got
            { s with task := .loading r.1 r.2 }
        | _ => s
    | .snapshot =>
        match s.task with
        | .loading .snapshot got => { s with task := .dialing got s.reconnectGen, since := 0 }
        | _ => s
    | .dial ok =>
        match s.task with
        | .dialing got connGen => { s with task := if ok then .draining got connGen else .waiting }
        | _ => s
    | .turn ok =>
        match s.task with
        | .draining _ connGen =>
            if s.reconnectGen = connGen ∧ ok then s else { s with task := .waiting }
        | _ => s
  out _ _ := []

/-- The four fields are what a read of the keys gives. -/
def Dialed.Current (d : Dialed) (k : CasterKeys) : Prop :=
  d.host = some (configStr k.host) ∧ d.port = configPort k.port ∧
    d.password = some (configStr k.password) ∧ d.mountpoint = some (configStr k.mountpoint)

/-- In the drain loop with the generation of the snapshot and no write in progress, the connection is
to what is stored. -/
def Repoint.Pointed (s : Repoint) : Prop :=
  ∀ got connGen, s.task = .draining got connGen → s.reconnectGen = connGen → s.writer = none →
    got.Current s.keys

/-! ### What a snapshot keeps -/

/-- The values read are the stored ones when the snapshot is taken, unless a provisioning is in progress,
and no bump makes the generation come round again to where it was. -/
def Fair (s : Repoint) : RepointEvent → Prop
  | .snapshot => ∀ got ∈ s.task.loaded, s.writer = none → got.Current s.keys
  | .reconnectAll => s.task.dialed ≠ none → s.since + 1 < 2 ^ 32
  | .recover => s.task.dialed ≠ none → s.since + 1 < 2 ^ 32
  | _ => True

instance (d : Dialed) (k : CasterKeys) : Decidable (d.Current k) :=
  inferInstanceAs (Decidable (_ ∧ _ ∧ _ ∧ _))

instance (s : Repoint) (e : RepointEvent) : Decidable (Fair s e) :=
  match e with
  | .snapshot =>
      inferInstanceAs (Decidable (∀ got ∈ s.task.loaded, s.writer = none → got.Current s.keys))
  | .reconnectAll => inferInstanceAs (Decidable (s.task.dialed ≠ none → s.since + 1 < 2 ^ 32))
  | .recover => inferInstanceAs (Decidable (s.task.dialed ≠ none → s.since + 1 < 2 ^ 32))
  | .provision _ | .write _ | .start | .read _ | .dial _ | .turn _ => isTrue trivial

/-- Of a connection dialed or about to be: `since` counts the bumps after its snapshot, and before the
first one, with no write in progress, it has what is stored. -/
structure RepointOk (s : Repoint) : Prop where
  gen : ∀ got connGen, s.task.dialed = some (got, connGen) →
    s.reconnectGen = connGen + UInt32.ofNat s.since ∧ s.since < 2 ^ 32
  kept : ∀ got connGen, s.task.dialed = some (got, connGen) → s.since = 0 → s.writer = none →
    got.Current s.keys

theorem RepointOk.of_undialed {s : Repoint} (h : s.task.dialed = none) : RepointOk s where
  gen got connGen hd := by
    rw [h] at hd
    cases hd
  kept got connGen hd := by
    rw [h] at hd
    cases hd

/-- A writer that is busy may have changed anything. -/
theorem RepointOk.of_writing {s s' : Repoint} (hs : RepointOk s) (htask : s'.task = s.task)
    (hgen : s'.reconnectGen = s.reconnectGen) (hsince : s'.since = s.since)
    (hwriter : s'.writer ≠ none) : RepointOk s' where
  gen got connGen hd := by
    rw [htask] at hd
    rw [hgen, hsince]
    exact hs.gen got connGen hd
  kept _ _ _ _ hidle := absurd hidle hwriter

/-- The task goes on with the same connection or leaves it. -/
theorem RepointOk.of_task {s : Repoint} (hs : RepointOk s) {task' : TaskPhase}
    (h : task'.dialed = s.task.dialed ∨ task'.dialed = none) :
    RepointOk { s with task := task' } := by
  rcases h with h | h
  · refine ⟨fun got connGen hd => hs.gen got connGen (h ▸ hd), ?_⟩
    intro got connGen hd
    exact hs.kept got connGen (h ▸ hd)
  · exact .of_undialed h

theorem RepointOk.of_bump {s : Repoint} (hs : RepointOk s) (w : Option (List CasterWrite))
    (h : s.task.dialed ≠ none → s.since + 1 < 2 ^ 32) :
    RepointOk { s.bump with writer := w } where
  gen got connGen hd := by
    have hold := hs.gen got connGen hd
    refine ⟨?_, h ?_⟩
    · show s.reconnectGen + 1 = connGen + UInt32.ofNat (s.since + 1)
      rw [hold.1, UInt32.ofNat_add, UInt32.add_assoc]
      rfl
    · intro hnone
      have hd' : s.task.dialed = some (got, connGen) := hd
      rw [hnone] at hd'
      cases hd'
  kept got connGen _ hzero := absurd hzero (Nat.succ_ne_zero s.since)

theorem provision_ok {s : Repoint} (hs : RepointOk s) (c : Caster) :
    RepointOk (repoint.step s (.provision c)) := by
  cases hw : s.writer with
  | none =>
      have hstep : repoint.step s (.provision c) = { s with writer := some (writeCasterCreds c) } := by
        simp only [repoint, hw]
      rw [hstep]
      exact hs.of_writing rfl rfl rfl (Option.some_ne_none _)
  | some todo => simpa only [repoint, hw] using hs

theorem write_ok {s : Repoint} (hs : RepointOk s) (ok : Bool) :
    RepointOk (repoint.step s (.write ok)) := by
  cases hw : s.writer with
  | none => simpa only [repoint, hw] using hs
  | some todo =>
      cases todo with
      | nil => simpa only [repoint, hw] using hs
      | cons w rest =>
          have hstep : repoint.step s (.write ok) = s.writeField w rest ok := by
            simp only [repoint, hw]
          rw [hstep]
          exact hs.of_writing rfl rfl rfl (Option.some_ne_none _)

theorem reconnectAll_ok {s : Repoint} (hs : RepointOk s)
    (h : s.task.dialed ≠ none → s.since + 1 < 2 ^ 32) :
    RepointOk (repoint.step s .reconnectAll) := by
  cases hw : s.writer with
  | none => simpa only [repoint, hw] using hs
  | some todo =>
      cases todo with
      | nil =>
          have hstep : repoint.step s .reconnectAll = { s.bump with writer := none } := by
            simp only [repoint, hw]
          rw [hstep]
          exact hs.of_bump none h
      | cons w rest => simpa only [repoint, hw] using hs

theorem snapshot_ok {s : Repoint} (hs : RepointOk s)
    (h : ∀ got ∈ s.task.loaded, s.writer = none → got.Current s.keys) :
    RepointOk (repoint.step s .snapshot) := by
  cases htask : s.task with
  | loading step got =>
      cases step with
      | snapshot =>
          have hstep : repoint.step s .snapshot =
              { s with task := .dialing got s.reconnectGen, since := 0 } := by
            simp only [repoint, htask]
          rw [hstep]
          refine ⟨?_, ?_⟩
          · intro got' connGen hd
            cases hd
            exact ⟨(UInt32.add_zero _).symm, Nat.two_pow_pos 32⟩
          · intro got' connGen hd _ hidle
            cases hd
            refine h got ?_ hidle
            rw [htask]
            rfl
      | _ => simpa only [repoint, htask] using hs
  | _ => simpa only [repoint, htask] using hs

theorem repoint_step_ok {s : Repoint} (hs : RepointOk s) (e : RepointEvent) (hfair : Fair s e) :
    RepointOk (repoint.step s e) := by
  cases e with
  | provision c => exact provision_ok hs c
  | write ok => exact write_ok hs ok
  | reconnectAll => exact reconnectAll_ok hs hfair
  | recover => exact hs.of_bump s.writer hfair
  | snapshot => exact snapshot_ok hs hfair
  | start =>
      cases htask : s.task with
      | waiting =>
          have hstep : repoint.step s .start = { s with task := .loading .hostLen dialedInit } := by
            simp only [repoint, htask]
          rw [hstep]
          exact hs.of_task (.inr rfl)
      | _ => simpa only [repoint, htask] using hs
  | read io =>
      cases htask : s.task with
      | loading step got =>
          have hstep : repoint.step s (.read io) =
              { s with task := .loading (loadStep s.keys io step got).1
                                        (loadStep s.keys io step got).2 } := by
            simp only [repoint, htask]
          rw [hstep]
          exact hs.of_task (.inr rfl)
      | _ => simpa only [repoint, htask] using hs
  | dial ok =>
      cases htask : s.task with
      | dialing got connGen =>
          have hstep : repoint.step s (.dial ok) =
              { s with task := if ok then .draining got connGen else .waiting } := by
            simp only [repoint, htask]
          rw [hstep]
          apply hs.of_task
          rw [htask]
          cases ok with
          | true => exact .inl rfl
          | false => exact .inr rfl
      | _ => simpa only [repoint, htask] using hs
  | turn ok =>
      cases htask : s.task with
      | draining got connGen =>
          have hstep : repoint.step s (.turn ok) =
              if s.reconnectGen = connGen ∧ ok then s else { s with task := .waiting } := by
            simp only [repoint, htask]
          rw [hstep]
          split
          · exact hs
          · exact hs.of_task (.inr rfl)
      | _ => simpa only [repoint, htask] using hs

/-- An unmoved generation means that there was no bump. -/
theorem since_zero_of_gen {gen : UInt32} {n : ℕ} (hn : n < 2 ^ 32)
    (h : gen + UInt32.ofNat n = gen) : n = 0 := by
  have hzero : UInt32.ofNat n = 0 :=
    UInt32.add_right_inj gen |>.mp (h.trans (UInt32.add_zero gen).symm)
  have hnat := congrArg UInt32.toNat hzero
  rw [UInt32.toNat_ofNat'] at hnat
  exact (Nat.mod_eq_of_lt hn).symm.trans hnat

theorem RepointOk.pointed {s : Repoint} (hs : RepointOk s) : s.Pointed := by
  intro got connGen htask hgen hidle
  have hd : s.task.dialed = some (got, connGen) := by
    rw [htask]
    rfl
  obtain ⟨hcount, hbound⟩ := hs.gen got connGen hd
  exact hs.kept got connGen hd (since_zero_of_gen hbound (hcount.symm.trans hgen)) hidle

/-! ### A load that nothing interleaves with -/

/-- A buffer of the length that was asked for holds the value. -/
theorem configGetStr_size (value : Option CStr) :
    configGetStr value (configStr value).size = .ok (configStr value) := by
  cases value with
  | none => rfl
  | some s =>
      unfold configGetStr
      rw [configStr, Option.getD_some, readStr_size]

theorem readBuffer_size (value : Option CStr) (garbage : CStr) :
    readBuffer value (configStr value).size ⟨true, true, garbage⟩ = configStr value := by
  simp only [readBuffer, configGetStr_size, if_true]

/-- **Seven calls in a row read what is stored**, whatever the fresh buffers held. -/
theorem load_current {s : Repoint} (hwait : s.task = .waiting) (garbage : CStr) :
    ∃ got, (repoint.run s (.start :: List.replicate 7 (.read ⟨true, true, garbage⟩))).task =
        .loading .snapshot got ∧ got.Current s.keys := by
  refine ⟨⟨some (configStr s.keys.host), configPort s.keys.port, some (configStr s.keys.password),
    some (configStr s.keys.mountpoint)⟩, ?_, rfl, rfl, rfl, rfl⟩
  simp only [List.replicate, Machine.run_cons, Machine.run_nil, repoint, hwait, loadStep,
    readBuffer_size, and_self, if_true, dialedInit]

/-! ### Requests lost and kept -/

/-- **The condition is exact.**  A snapshot that is not fair loses a request as soon as the handshake is
through. -/
theorem unfair_snapshot_loses {s : Repoint} {got : Dialed} (htask : s.task = .loading .snapshot got)
    (hidle : s.writer = none) (hstale : ¬ got.Current s.keys) :
    ¬ (repoint.run s [.snapshot, .dial true]).Pointed := by
  have hrun : repoint.run s [.snapshot, .dial true] =
      { s with task := .draining got s.reconnectGen, since := 0 } := by
    simp only [Machine.run_cons, Machine.run_nil, repoint, htask, if_true]
  rw [hrun]
  exact fun h => hstale (h got s.reconnectGen rfl rfl hidle)

def oldKeys : CasterKeys where
  host := some ⟨[0x61], by decide⟩
  port := some 2101
  mountpoint := some ⟨[0x6d], by decide⟩
  username := none
  password := some ⟨[0x70], by decide⟩
  active := some true

def newCaster : Caster where
  host := some ⟨[0x62], by decide⟩
  port := none
  mountpoint := none
  username := none
  password := none

def readOk : ReadIo := ⟨true, true, CStr.empty⟩

/-- The task has read the old fields when a whole provisioning goes through, then takes its snapshot. -/
def lateSnapshotRun : List RepointEvent :=
  .start :: List.replicate 7 (.read readOk) ++
    [.provision newCaster, .write true, .write true, .reconnectAll, .snapshot, .dial true]

/-- The provisioning ends during the handshake, and the task comes round to the new host. -/
def handshakeRun : List RepointEvent :=
  .start :: List.replicate 7 (.read readOk) ++
    [.snapshot, .provision newCaster, .write true, .write true, .reconnectAll, .dial true, .turn true,
     .start] ++ List.replicate 7 (.read readOk) ++ [.snapshot, .dial true]

end RtkdataFw.NtripServer
