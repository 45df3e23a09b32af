import RtkdataFw.Gnss.Capture
import RtkdataFw.Gnss.ReceiverMode
import RtkdataFw.Lib.Since
import RtkdataFw.Lib.Transaction

/-!
# The tasks that talk to the receiver

The supervisor recovers the receiver and the provisioning task pushes fixed bases while the main task may still be
in `gnss_init`.  Each call is a program here, one access to the capture, the statics, NVS or the UART a step, under
the recursive mutex `s_txn`; the UART task puts what the receiver sends into the capture at any time, and the socket
tasks write to the UART as they like.

* `code` — the calls of `gnss.c` as programs, and `code_transaction`;
* `call_of_ends` — a program that ran to its end did what the call in one step does;
* `calls_serializable` — so every interleaving is a run of such calls, in the order of the lock;
* `verdict_correlated` — every verdict was read from what came after the command of the same task, with no other
  command of the module in between.
-/

namespace RtkdataFw.Gnss

open RtkdataFw.Lib

/-! ### The shared state -/

/-- What `gnss.c` sends. -/
inductive Line where
  | command (c : Command)
  /-- `VERSIONA`. -/
  | versiona
  deriving DecidableEq, Repr

inductive GnssAction where
  /-- `s_capturing = on`. -/
  | capturing (on : Bool)
  | capReset
  /-- `drv_uart_gnss_send`. -/
  | wire (l : Line)
  /-- `vTaskDelay`, then `cap_verdict_for`. -/
  | poll (c : Command)
  /-- The time of an attempt is over. -/
  | noAck (c : Command)
  /-- `vTaskDelay`, then `cap_contains("VERSION")`. -/
  | pollVersion
  | resetPulse
  | readStatics
  /-- `esp_timer_get_time`. -/
  | timer
  | load
  | save (b : BaseFix)
  | setStatics (f : BaseStatics → BaseStatics)

/-- What an action gives back. -/
def GnssAction.Gives : GnssAction → Type
  | .poll _ => AckVerdict
  | .pollVersion => Bool
  | .readStatics => BaseStatics
  | .timer => ℕ
  | .load => Option BaseFix
  | _ => Unit

/-- The statics of the base, and the capture. -/
structure GnssShared where
  gnss : BaseStatics
  cap : Capture

/-- What the timer says, and whether NVS gives and takes the blob. -/
structure ActIo where
  nowUs : ℕ
  loads : Bool
  saves : Bool

/-- For the functions of NVS. -/
def ActIo.io (i : ActIo) : CallIo := ⟨fun _ _ => .none, i.loads, i.saves⟩

inductive GnssEnv where
  /-- `gnss_ingest_uart`, in the UART task. -/
  | rx (chunk : List UInt8)
  /-- `uart_write`, in a socket task. -/
  | inject (bytes : List UInt8)

inductive GnssOut where
  | cleared
  | wire (l : Line)
  | attempt (c : Command) (v : AckVerdict)
  | reset
  | rx (chunk : List UInt8)
  | injected (bytes : List UInt8)
  deriving DecidableEq

def versionMark : List UInt8 := textBytes ['V', 'E', 'R', 'S', 'I', 'O', 'N']

/-- `cap_contains`, over `cap_find_from`. -/
def capContains (c : Capture) (needle : List UInt8) : Bool :=
  (findAt (capSnapshot c) (capSnapshot c).length 0 needle).isSome

variable (text : Command → CStr)

/-- One access.  `text c` is what `snprintf` makes of a command, without its line end. -/
def execAction (a : GnssAction) (s : GnssShared) (i : ActIo) : GnssShared × a.Gives × List GnssOut :=
  match a with
  | .capturing on => ({ s with cap := { s.cap with capturing := on } }, (), [])
  | .capReset => ({ s with cap := capReset s.cap }, (), [.cleared])
  | .wire l => (s, (), [.wire l])
  | .poll c =>
      let verdict := gnssAckScan (capSnapshot s.cap) (text c)
      (s, verdict, if verdict = .none then [] else [.attempt c verdict])
  | .noAck c => (s, (), [.attempt c .none])
  | .pollVersion => (s, capContains s.cap versionMark, [])
  | .resetPulse => (s, (), [.reset])
  | .readStatics => (s, s.gnss, [])
  | .timer => (s, i.nowUs, [])
  | .load => (s, gnssLoadFixedBase s.gnss i.io, [])
  | .save b => ({ s with gnss := gnssSaveFixedBase s.gnss i.io b }, (), [])
  | .setStatics f => ({ s with gnss := f s.gnss }, (), [])

def gnssShared : SharedState GnssAction GnssAction.Gives GnssShared ActIo GnssEnv GnssOut where
  exec := execAction text
  env s
    | .rx chunk => ({ s with cap := gnssIngestUart s.cap chunk }, [.rx chunk])
    | .inject bytes => (s, [.injected bytes])

/-! ### The programs -/

abbrev GnssProg := Prog GnssAction GnssAction.Gives

/-- The rounds of `for (waited = 0; waited < ACK_TIMEOUT_MS; waited += ACK_POLL_MS)`. -/
def ackPolls : ℕ := 900 / 20

/-- The rounds of the same loop in `gnss_log_version`. -/
def versionPolls : ℕ := 2000 / 20

/-- The polls of one attempt. -/
def pollLoop (c : Command) (again : GnssProg) (k : Bool → GnssProg) : ℕ → GnssProg
  | 0 => again
  | left + 1 =>
      .act (.poll c) fun verdict : AckVerdict =>
        match verdict with
        | .none => pollLoop c again k left
        | .ok => k true
        | .fail => k false

/-- The attempts of `send_cmd_acked`. -/
def attemptLoop (c : Command) (k : Bool → GnssProg) : ℕ → GnssProg
  | 0 => k false
  | left + 1 =>
      .act .capReset fun _ => .act (.wire (.command c)) fun _ =>
        pollLoop c (.act (.noAck c) fun _ => attemptLoop c k left) k ackPolls

/-- `send_cmd_acked(cmd, ACK_RETRIES)`. -/
def sendCmd (c : Command) (k : Bool → GnssProg) : GnssProg := attemptLoop c k (ackRetries + 1)

/-- The loop over `seq`. -/
def sendAll (k : GnssProg) : List Command → GnssProg
  | [] => k
  | c :: cs => sendCmd c fun _ => sendAll k cs

/-- The end of `config_gnss_base`. -/
def configEnd (k : GnssProg) : GnssProg :=
  sendCmd .saveconfig fun _ => .act (.capturing false) fun _ => .give k

/-- `config_gnss_base`, from behind its `txn_take`. -/
def configBody (k : GnssProg) : GnssProg :=
  .act (.capturing true) fun _ => sendAll
    (.act .load fun base : Option BaseFix =>
      match base with
      | some b => sendCmd (.modeBase b) fun acked =>
          if acked then
            .act (.setStatics fun g => { g with baseAckedValid := true, baseAckedCoord := b }) fun _ => configEnd k
          else .act (.setStatics fun g => { g with baseAckedValid := false }) fun _ => configEnd k
      | none =>
          .act (.setStatics fun g => { g with baseAckedValid := false }) fun _ =>
            sendCmd .modeBaseTime fun _ => configEnd k)
    configSeq

/-- The statics after a push, and its end. -/
def pushEnd (b : BaseFix) (acked ok : Bool) : GnssProg :=
  .act (.capturing false) fun _ => .act (.setStatics fun g => settleLatch g b acked) fun _ =>
    if ok then
      .act (.setStatics fun g => { g with baseFailUs := 0 }) fun _ => .act (.save b) fun _ => .give .done
    else
      .act .timer fun doneUs : ℕ =>
        .act (.setStatics fun g => { g with baseFailUs := doneUs, baseFailCoord := b }) fun _ => .give .done

/-- The commands of a push. -/
def pushBody (b : BaseFix) : GnssProg :=
  .act (.capturing true) fun _ => sendCmd .configUndulationZero fun _ => sendCmd (.modeBase b) fun acked =>
    if acked then sendCmd .saveconfig fun ok => pushEnd b acked ok else pushEnd b acked false

/-- `gnss_set_fixed_base`, from behind its `txn_take`. -/
def setFixedBaseBody (b : BaseFix) : GnssProg :=
  .act .readStatics fun g : BaseStatics =>
    if Unchanged g b then
      .act .load fun base : Option BaseFix =>
        match base with
        | some nv => if nv.Near b then .give .done else .act (.save b) fun _ => .give .done
        | none => .act (.save b) fun _ => .give .done
    else
      .act .timer fun now : ℕ => if CoolingDown g b now then .give .done else pushBody b

/-- The polls of `gnss_log_version`. -/
def versionLoop (k : GnssProg) : ℕ → GnssProg
  | 0 => k
  | left + 1 => .act .pollVersion fun found : Bool => if found then k else versionLoop k left

/-- `gnss_log_version`, from behind its `txn_take`. -/
def logVersionBody (k : GnssProg) : GnssProg :=
  .act (.capturing true) fun _ => .act .capReset fun _ => .act (.wire .versiona) fun _ =>
    versionLoop (.act (.capturing false) fun _ => .give k) versionPolls

/-- `gnss_reset_pulse`. -/
def resetPulse (k : GnssProg) : GnssProg :=
  .act .resetPulse fun _ => .act (.setStatics gnssReceiverEpochInvalidate) fun _ => k

inductive Request where
  | init
  | recover
  | config
  | logVersion
  | setFixedBase (b : BaseFix)
  deriving DecidableEq, Repr

/-- The calls. -/
def code : Request → GnssProg
  | .init => .take (resetPulse (.take (configBody (.take (logVersionBody (.give .done))))))
  | .recover => .take (resetPulse (.take (configBody (.give .done))))
  | .config => .take (configBody .done)
  | .logVersion => .take (logVersionBody .done)
  | .setFixedBase b => if b.Valid then .take (setFixedBaseBody b) else .done

/-! ### They are transactions -/

theorem inside_pollLoop {c : Command} {again : GnssProg} {k : Bool → GnssProg} {d : ℕ} (hd : 0 < d)
    (hagain : again.Inside d) (hk : ∀ acked, (k acked).Inside d) (left : ℕ) :
    (pollLoop c again k left).Inside d := by
  induction left with
  | zero => exact hagain
  | succ left ih =>
      refine ⟨hd, fun verdict : AckVerdict => ?_⟩
      cases verdict with
      | none => exact ih
      | ok => exact hk true
      | fail => exact hk false

theorem inside_attemptLoop {c : Command} {k : Bool → GnssProg} {d : ℕ} (hd : 0 < d)
    (hk : ∀ acked, (k acked).Inside d) (left : ℕ) : (attemptLoop c k left).Inside d := by
  induction left with
  | zero => exact hk false
  | succ left ih =>
      have hagain : (.act (.noAck c) fun _ => attemptLoop c k left : GnssProg).Inside d := ⟨hd, fun _ => ih⟩
      exact ⟨hd, fun _ => ⟨hd, fun _ => inside_pollLoop hd hagain hk ackPolls⟩⟩

theorem inside_sendCmd {c : Command} {k : Bool → GnssProg} {d : ℕ} (hd : 0 < d)
    (hk : ∀ acked, (k acked).Inside d) : (sendCmd c k).Inside d := inside_attemptLoop hd hk _

theorem inside_sendAll {k : GnssProg} {d : ℕ} (hd : 0 < d) (hk : k.Inside d) (cs : List Command) :
    (sendAll k cs).Inside d := by
  induction cs with
  | nil => exact hk
  | cons c cs ih => exact inside_sendCmd hd fun _ => ih

theorem inside_configEnd {k : GnssProg} {d : ℕ} (hk : k.Inside d) : (configEnd k).Inside (d + 1) :=
  inside_sendCmd (Nat.succ_pos d) fun _ => ⟨Nat.succ_pos d, fun _ => ⟨Nat.succ_pos d, hk⟩⟩

theorem inside_configBody {k : GnssProg} {d : ℕ} (hk : k.Inside d) : (configBody k).Inside (d + 1) := by
  have hd := Nat.succ_pos d
  have hend := inside_configEnd hk
  refine ⟨hd, fun _ => inside_sendAll hd ?_ _⟩
  refine ⟨hd, fun base : Option BaseFix => ?_⟩
  cases base with
  | none => exact ⟨hd, fun _ => inside_sendCmd hd fun _ => hend⟩
  | some b =>
      refine inside_sendCmd hd fun acked => ?_
      cases acked with
      | true => exact ⟨hd, fun _ => hend⟩
      | false => exact ⟨hd, fun _ => hend⟩

theorem inside_versionLoop {k : GnssProg} {d : ℕ} (hd : 0 < d) (hk : k.Inside d) (left : ℕ) :
    (versionLoop k left).Inside d := by
  induction left with
  | zero => exact hk
  | succ left ih =>
      refine ⟨hd, fun found : Bool => ?_⟩
      cases found with
      | true => exact hk
      | false => exact ih

theorem inside_logVersionBody {k : GnssProg} {d : ℕ} (hk : k.Inside d) : (logVersionBody k).Inside (d + 1) := by
  have hd := Nat.succ_pos d
  refine ⟨hd, fun _ => ⟨hd, fun _ => ⟨hd, fun _ => inside_versionLoop hd ?_ _⟩⟩⟩
  exact ⟨hd, fun _ => ⟨hd, hk⟩⟩

theorem inside_pushEnd (b : BaseFix) (acked ok : Bool) : (pushEnd b acked ok).Inside 1 := by
  refine ⟨Nat.one_pos, fun _ => ⟨Nat.one_pos, fun _ => ?_⟩⟩
  cases ok with
  | true => exact ⟨Nat.one_pos, fun _ => ⟨Nat.one_pos, fun _ => ⟨Nat.one_pos, rfl⟩⟩⟩
  | false => exact ⟨Nat.one_pos, fun _ => ⟨Nat.one_pos, fun _ => ⟨Nat.one_pos, rfl⟩⟩⟩

theorem inside_setFixedBaseBody (b : BaseFix) : (setFixedBaseBody b).Inside 1 := by
  have hgive : (.give .done : GnssProg).Inside 1 := ⟨Nat.one_pos, rfl⟩
  have hsave : (.act (.save b) fun _ => .give .done : GnssProg).Inside 1 := ⟨Nat.one_pos, fun _ => hgive⟩
  refine ⟨Nat.one_pos, fun g : BaseStatics => ?_⟩
  dsimp only
  split
  · refine ⟨Nat.one_pos, fun base : Option BaseFix => ?_⟩
    cases base with
    | none => exact hsave
    | some nv =>
        dsimp only
        split
        · exact hgive
        · exact hsave
  · refine ⟨Nat.one_pos, fun now : ℕ => ?_⟩
    dsimp only
    split
    · exact hgive
    · refine ⟨Nat.one_pos, fun _ => inside_sendCmd Nat.one_pos fun _ => inside_sendCmd Nat.one_pos fun acked => ?_⟩
      split
      · exact inside_sendCmd Nat.one_pos fun ok => inside_pushEnd b acked ok
      · exact inside_pushEnd b acked false

theorem code_transaction (r : Request) : (code r).Transaction := by
  have hpulse : ∀ {k : GnssProg}, k.Inside 1 → (resetPulse k).Inside 1 := fun hk =>
    ⟨Nat.one_pos, fun _ => ⟨Nat.one_pos, fun _ => hk⟩⟩
  have hgive : (.give .done : GnssProg).Inside 1 := ⟨Nat.one_pos, rfl⟩
  cases r with
  | init => exact hpulse ⟨Nat.one_pos, inside_configBody ⟨Nat.one_pos, inside_logVersionBody hgive⟩⟩
  | recover => exact hpulse ⟨Nat.one_pos, inside_configBody hgive⟩
  | config => exact inside_configBody rfl
  | logVersion => exact inside_logVersionBody rfl
  | setFixedBase b =>
      rw [code]
      split
      · exact inside_setFixedBaseBody b
      · trivial

/-! ### What a program does to the statics -/

/-- An action as the statics see it: what it may give back, and what the receiver meets. -/
def StaticsAct : (a : GnssAction) → BaseStatics → a.Gives → List RxEvent → BaseStatics → Prop
  | .poll c => fun g (v : AckVerdict) l g' => l = (if v = .none then [] else [.sent c v]) ∧ g' = g
  | .noAck c => fun g _ l g' => l = [.sent c .none] ∧ g' = g
  | .resetPulse => fun g _ l g' => l = [.reset] ∧ g' = g
  | .readStatics => fun g (v : BaseStatics) l g' => v = g ∧ l = [] ∧ g' = g
  | .load => fun g (v : Option BaseFix) l g' => (∃ i : ActIo, v = gnssLoadFixedBase g i.io) ∧ l = [] ∧ g' = g
  | .save b => fun g _ l g' => l = [] ∧ ∃ i : ActIo, g' = gnssSaveFixedBase g i.io b
  | .setStatics f => fun g _ l g' => l = [] ∧ g' = f g
  | .capturing _ | .capReset | .wire _ | .pollVersion | .timer => fun g _ l g' => l = [] ∧ g' = g

variable {τ : Type}

/-- What the receiver meets. -/
def rxEvents : ThreadObs τ Request GnssOut → List RxEvent
  | .did _ (.attempt c v) => [.sent c v]
  | .did _ .reset => [.reset]
  | _ => []

def rxLog (os : List (ThreadObs τ Request GnssOut)) : List RxEvent := os.flatMap rxEvents

abbrev StaticsEnds : GnssProg → BaseStatics → List RxEvent → BaseStatics → Prop := Ends StaticsAct

variable {text}

theorem rxEvents_poll (t : τ) (c : Command) (v : AckVerdict) :
    ((if v = .none then [] else [GnssOut.attempt c v]).map (.did t)).flatMap rxEvents =
      if v = .none then [] else [.sent c v] := by
  cases v <;> rfl

theorem staticsAct_exec (t : τ) (a : GnssAction) (s : GnssShared) (i : ActIo) :
    StaticsAct a s.gnss (execAction text a s i).2.1
      (((execAction text a s i).2.2.map (.did t)).flatMap rxEvents) (execAction text a s i).1.gnss := by
  cases a with
  | poll c => exact ⟨rxEvents_poll t c (gnssAckScan (capSnapshot s.cap) (text c)), rfl⟩
  | load => exact ⟨⟨i, rfl⟩, rfl, rfl⟩
  | save b => exact ⟨rfl, i, rfl⟩
  | readStatics => exact ⟨rfl, rfl, rfl⟩
  | _ => exact ⟨rfl, rfl⟩

theorem runs_staticsEnds {t : τ} {p : GnssProg} {s s' : GnssShared} {os : List (ThreadObs τ Request GnssOut)}
    (h : Runs (gnssShared text) t p s os .done s') : StaticsEnds p s.gnss (rxLog os) s'.gnss :=
  h.ends (fun a s i => staticsAct_exec t a s i)
    (fun s e => by cases e <;> exact ⟨rfl, rfl⟩) rfl

section Ends

variable {k : GnssProg} {g g' : BaseStatics} {l : List RxEvent}

theorem ends_act {a : GnssAction} {k : a.Gives → GnssProg} (h : StaticsEnds (.act a k) g l g') :
    ∃ v g₁ l₁ l₂, StaticsAct a g v l₁ g₁ ∧ StaticsEnds (k v) g₁ l₂ g' ∧ l = l₁ ++ l₂ := by
  cases h with
  | act ha hk => exact ⟨_, _, _, _, ha, hk, rfl⟩

theorem ends_take (h : StaticsEnds (.take k) g l g') : StaticsEnds k g l g' := by
  cases h with
  | take h => exact h

theorem ends_give (h : StaticsEnds (.give k) g l g') : StaticsEnds k g l g' := by
  cases h with
  | give h => exact h

theorem ends_done (h : StaticsEnds .done g l g') : l = [] ∧ g' = g := by
  cases h with
  | done => exact ⟨rfl, rfl⟩

/-- An action that leaves the statics alone and shows nothing. -/
theorem ends_silent {a : GnssAction} {k : a.Gives → GnssProg} (h : StaticsEnds (.act a k) g l g')
    (ha : ∀ v l₁ g₁, StaticsAct a g v l₁ g₁ → l₁ = [] ∧ g₁ = g) : ∃ v, StaticsEnds (k v) g l g' := by
  obtain ⟨v, g₁, l₁, l₂, hact, hk, rfl⟩ := ends_act h
  obtain ⟨rfl, rfl⟩ := ha v l₁ g₁ hact
  exact ⟨v, hk⟩

theorem ends_setStatics {f : BaseStatics → BaseStatics} {k : Unit → GnssProg}
    (h : StaticsEnds (.act (.setStatics f) k) g l g') : StaticsEnds (k ()) (f g) l g' := by
  obtain ⟨v, g₁, l₁, l₂, ⟨rfl, rfl⟩, hk, rfl⟩ := ends_act h
  exact hk

/-- The polls of an attempt: a verdict, or none in time. -/
theorem ends_pollLoop {c : Command} {again : GnssProg} {k : Bool → GnssProg} {left : ℕ}
    (h : StaticsEnds (pollLoop c again k left) g l g') :
    StaticsEnds again g l g' ∨ (∃ l', l = .sent c .ok :: l' ∧ StaticsEnds (k true) g l' g') ∨
      ∃ l', l = .sent c .fail :: l' ∧ StaticsEnds (k false) g l' g' := by
  induction left with
  | zero => exact .inl h
  | succ left ih =>
      obtain ⟨(v : AckVerdict), g₁, l₁, l₂, ⟨rfl, rfl⟩, hk, rfl⟩ := ends_act h
      cases v with
      | none => exact ih hk
      | ok => exact .inr (.inl ⟨l₂, rfl, hk⟩)
      | fail => exact .inr (.inr ⟨l₂, rfl, hk⟩)

theorem sendLoop_congr (c : Command) {reply reply' : ℕ → AckVerdict} {attempt : ℕ}
    (h : ∀ n, attempt ≤ n → reply n = reply' n) (left : ℕ) :
    sendLoop c reply attempt left = sendLoop c reply' attempt left := by
  induction left generalizing attempt with
  | zero => rfl
  | succ left ih =>
      rw [sendLoop, sendLoop, h attempt (Nat.le_refl _), ih fun n hn => h n (Nat.le_of_succ_le hn)]

/-- The attempts at a command are those that some answers call for. -/
theorem ends_attemptLoop {c : Command} {k : Bool → GnssProg} {left : ℕ} (attempt : ℕ)
    (h : StaticsEnds (attemptLoop c k left) g l g') :
    ∃ reply l', l = (sendLoop c reply attempt left).2 ++ l' ∧
      StaticsEnds (k (sendLoop c reply attempt left).1) g l' g' := by
  induction left generalizing attempt l with
  | zero => exact ⟨fun _ => .none, l, rfl, h⟩
  | succ left ih =>
      obtain ⟨_, h⟩ := ends_silent h fun _ _ _ hact => hact
      obtain ⟨_, h⟩ := ends_silent h fun _ _ _ hact => hact
      rcases ends_pollLoop h with hnone | ⟨l', rfl, hok⟩ | ⟨l', rfl, hfail⟩
      · obtain ⟨_, g₁, l₁, l₂, ⟨rfl, rfl⟩, hnext, rfl⟩ := ends_act hnone
        obtain ⟨reply, l', rfl, hk⟩ := ih (attempt + 1) hnext
        let reply' : ℕ → AckVerdict := Function.update reply attempt .none
        have hthis : reply' attempt = .none := Function.update_self _ _ _
        have hrest : sendLoop c reply' (attempt + 1) left = sendLoop c reply (attempt + 1) left :=
          sendLoop_congr c (fun n hn => Function.update_of_ne (Nat.ne_of_gt hn) _ _) left
        have hloop : sendLoop c reply' attempt (left + 1) =
            ((sendLoop c reply (attempt + 1) left).1, .sent c .none :: (sendLoop c reply (attempt + 1) left).2) := by
          rw [sendLoop, hthis]
          dsimp only
          rw [hrest]
        refine ⟨reply', l', ?_, ?_⟩
        · rw [hloop]
          rfl
        · rw [hloop]
          exact hk
      · exact ⟨fun _ => .ok, l', rfl, hok⟩
      · exact ⟨fun _ => .fail, l', rfl, hfail⟩

theorem ends_sendCmd {c : Command} {k : Bool → GnssProg} (h : StaticsEnds (sendCmd c k) g l g') :
    ∃ reply l', l = (sendCmdAcked c reply ackRetries).2 ++ l' ∧
      StaticsEnds (k (sendCmdAcked c reply ackRetries).1) g l' g' := ends_attemptLoop 0 h

/-- The commands of a list that has none twice. -/
theorem ends_sendAll {cs : List Command} (hcs : cs.Nodup) (h : StaticsEnds (sendAll k cs) g l g') :
    ∃ (reply : Command → ℕ → AckVerdict) (l' : List RxEvent),
      l = cs.flatMap (fun c => (sendCmdAcked c (reply c) ackRetries).2) ++ l' ∧ StaticsEnds k g l' g' := by
  induction cs generalizing l with
  | nil => exact ⟨fun _ _ => .none, l, rfl, h⟩
  | cons c cs ih =>
      obtain ⟨hnew, hcs⟩ := List.nodup_cons.mp hcs
      obtain ⟨answers, l₁, rfl, hrest⟩ := ends_sendCmd h
      obtain ⟨reply, l', rfl, hk⟩ := ih hcs hrest
      refine ⟨Function.update reply c answers, l', ?_, hk⟩
      have hrest : cs.flatMap (fun c' => (sendCmdAcked c' (Function.update reply c answers c') ackRetries).2) =
          cs.flatMap fun c' => (sendCmdAcked c' (reply c') ackRetries).2 := by
        refine List.flatMap_congr fun c' hc' => ?_
        rw [Function.update_of_ne (ne_of_mem_of_not_mem hc' hnew)]
      rw [List.flatMap_cons, hrest, Function.update_self, List.append_assoc]

theorem ends_configEnd (h : StaticsEnds (configEnd k) g l g') :
    ∃ reply l', l = (sendCmdAcked .saveconfig reply ackRetries).2 ++ l' ∧ StaticsEnds k g l' g' := by
  obtain ⟨reply, l', rfl, hsent⟩ := ends_sendCmd h
  obtain ⟨_, hquiet⟩ := ends_silent hsent fun _ _ _ hact => hact
  exact ⟨reply, l', rfl, ends_give hquiet⟩

theorem ends_logVersionBody (h : StaticsEnds (logVersionBody k) g l g') : StaticsEnds k g l g' := by
  have hloop : ∀ {k : GnssProg} (left : ℕ), StaticsEnds (versionLoop k left) g l g' → StaticsEnds k g l g' := by
    intro k left
    induction left with
    | zero => exact id
    | succ left ih =>
        intro h
        obtain ⟨(found : Bool), h⟩ := ends_silent h fun _ _ _ hact => hact
        cases found with
        | true => exact h
        | false => exact ih h
  obtain ⟨_, h⟩ := ends_silent h fun _ _ _ hact => hact
  obtain ⟨_, h⟩ := ends_silent h fun _ _ _ hact => hact
  obtain ⟨_, h⟩ := ends_silent h fun _ _ _ hact => hact
  obtain ⟨_, h⟩ := ends_silent (hloop _ h) fun _ _ _ hact => hact
  exact ends_give h

/-- The answers to the commands of a call: to its base mode, to the last command, and to the others. -/
def mergeReplies (mode : Command) (others : Command → ℕ → AckVerdict) (toMode toSave : ℕ → AckVerdict) :
    Command → ℕ → AckVerdict :=
  Function.update (Function.update others mode toMode) .saveconfig toSave

theorem configSeq_apart : ∀ c ∈ configSeq, c ≠ .saveconfig ∧ c ≠ .modeBaseTime ∧ ∀ b, c ≠ .modeBase b := by
  intro c hc
  simp only [configSeq, List.mem_cons, List.not_mem_nil, or_false] at hc
  rcases hc with rfl | rfl | rfl | rfl | rfl | rfl | rfl | rfl | rfl | rfl | rfl | rfl | rfl <;> simp

section Merge

variable {mode : Command} {others : Command → ℕ → AckVerdict} {toMode toSave : ℕ → AckVerdict} {io : CallIo}

theorem merge_save (hio : io.reply = mergeReplies mode others toMode toSave) :
    io.send .saveconfig = sendCmdAcked .saveconfig toSave ackRetries := by
  rw [CallIo.send, hio, mergeReplies, Function.update_self]

theorem merge_mode (hio : io.reply = mergeReplies mode others toMode toSave) (hmode : mode ≠ .saveconfig) :
    io.send mode = sendCmdAcked mode toMode ackRetries := by
  rw [CallIo.send, hio, mergeReplies, Function.update_of_ne hmode, Function.update_self]

theorem merge_other (hio : io.reply = mergeReplies mode others toMode toSave) {c : Command} (hsave : c ≠ .saveconfig)
    (hmode : c ≠ mode) : io.send c = sendCmdAcked c (others c) ackRetries := by
  rw [CallIo.send, hio, mergeReplies, Function.update_of_ne hsave, Function.update_of_ne hmode]

theorem merge_configSeq (hio : io.reply = mergeReplies mode others toMode toSave) (hmode : mode ∉ configSeq) :
    configSeq.flatMap (fun c => (io.send c).2) =
      configSeq.flatMap fun c => (sendCmdAcked c (others c) ackRetries).2 := by
  refine List.flatMap_congr fun c hc => ?_
  rw [merge_other hio (configSeq_apart c hc).1 (ne_of_mem_of_not_mem hc hmode)]

end Merge

/-- **A configuration** that ran to its end is one in one step, for some answers. -/
theorem ends_configBody (h : StaticsEnds (configBody k) g l g') :
    ∃ io l', l = (configGnssBase g io).2 ++ l' ∧ StaticsEnds k (configGnssBase g io).1 l' g' := by
  obtain ⟨_, hon⟩ := ends_silent h fun _ _ _ hact => hact
  obtain ⟨others, l₁, rfl, hseq⟩ := ends_sendAll (by decide) hon
  obtain ⟨(base : Option BaseFix), g, _, l₂, ⟨⟨i, hload⟩, rfl, rfl⟩, hloaded, rfl⟩ := ends_act hseq
  cases base with
  | some b =>
      obtain ⟨toMode, l₃, rfl, hsent⟩ := ends_sendCmd hloaded
      let acked := (sendCmdAcked (.modeBase b) toMode ackRetries).1
      let g₁ : BaseStatics := if acked then { g with baseAckedValid := true, baseAckedCoord := b }
        else { g with baseAckedValid := false }
      have hend : StaticsEnds (configEnd k) g₁ l₃ g' := by
        cases hacked : (sendCmdAcked (.modeBase b) toMode ackRetries).1 with
        | true =>
            rw [hacked] at hsent
            have hset := ends_setStatics hsent
            simpa only [g₁, acked, hacked, if_true] using hset
        | false =>
            rw [hacked] at hsent
            have hset := ends_setStatics hsent
            simpa only [g₁, acked, hacked, Bool.false_eq_true, if_false] using hset
      obtain ⟨toSave, l', rfl, hk⟩ := ends_configEnd hend
      let io : CallIo := ⟨mergeReplies (.modeBase b) others toMode toSave, i.loads, i.saves⟩
      have hsave : io.send .saveconfig = _ := merge_save rfl
      have hmode : io.send (.modeBase b) = _ := merge_mode rfl (by simp)
      have hothers : configSeq.flatMap (fun c => (io.send c).2) = _ :=
        merge_configSeq rfl fun hmem => (configSeq_apart _ hmem).2.2 b rfl
      have hbase : gnssLoadFixedBase g io = some b := hload.symm
      have hcall : configGnssBase g io = (g₁, configSeq.flatMap (fun c => (sendCmdAcked c (others c) ackRetries).2) ++
          (sendCmdAcked (.modeBase b) toMode ackRetries).2 ++ (sendCmdAcked .saveconfig toSave ackRetries).2) := by
        rw [configGnssBase, configBaseMode, hbase]
        dsimp only
        rw [hmode, hsave, hothers]
        cases hacked : (sendCmdAcked (.modeBase b) toMode ackRetries).1 with
        | true => simp only [g₁, acked, hacked, if_true]
        | false => simp only [g₁, acked, hacked, Bool.false_eq_true, if_false]
      refine ⟨io, l', ?_, ?_⟩
      · rw [hcall]
        simp only [List.append_assoc]
      · rw [hcall]
        exact hk
  | none =>
      have hset := ends_setStatics hloaded
      obtain ⟨toMode, l₃, rfl, hsent⟩ := ends_sendCmd hset
      obtain ⟨toSave, l', rfl, hk⟩ := ends_configEnd hsent
      let io : CallIo := ⟨mergeReplies .modeBaseTime others toMode toSave, i.loads, i.saves⟩
      have hsave : io.send .saveconfig = _ := merge_save rfl
      have hmode : io.send .modeBaseTime = _ := merge_mode rfl (by simp)
      have hothers : configSeq.flatMap (fun c => (io.send c).2) = _ :=
        merge_configSeq rfl fun hmem => (configSeq_apart _ hmem).2.1 rfl
      have hbase : gnssLoadFixedBase g io = none := hload.symm
      have hcall : configGnssBase g io = ({ g with baseAckedValid := false },
          configSeq.flatMap (fun c => (sendCmdAcked c (others c) ackRetries).2) ++
          (sendCmdAcked .modeBaseTime toMode ackRetries).2 ++ (sendCmdAcked .saveconfig toSave ackRetries).2) := by
        rw [configGnssBase, configBaseMode, hbase]
        dsimp only
        rw [hmode, hsave, hothers]
      refine ⟨io, l', ?_, ?_⟩
      · rw [hcall]
        simp only [List.append_assoc]
      · rw [hcall]
        exact hk

/-- The end of a push. -/
theorem ends_pushEnd {b : BaseFix} {acked ok : Bool} (h : StaticsEnds (pushEnd b acked ok) g l g') :
    ∃ (i : ActIo) (doneUs : ℕ), l = [] ∧ g' = settlePush (settleLatch g b acked) b ok doneUs i.io := by
  obtain ⟨_, hoff⟩ := ends_silent h fun _ _ _ hact => hact
  have hlatched := ends_setStatics hoff
  cases ok with
  | true =>
      obtain ⟨_, g₁, _, l₂, ⟨rfl, i, rfl⟩, hsaved, rfl⟩ := ends_act (ends_setStatics hlatched)
      obtain ⟨rfl, rfl⟩ := ends_done (ends_give hsaved)
      exact ⟨i, 0, rfl, rfl⟩
  | false =>
      obtain ⟨(doneUs : ℕ), htimed⟩ := ends_silent hlatched fun _ _ _ hact => hact
      obtain ⟨rfl, rfl⟩ := ends_done (ends_give (ends_setStatics htimed))
      exact ⟨⟨0, false, false⟩, doneUs, rfl, rfl⟩

/-- **A push** that went to the receiver is one in one step. -/
theorem ends_pushBody {b : BaseFix} (h : StaticsEnds (pushBody b) g l g') :
    ∃ doneUs io, (applyFixedBase g b doneUs io).2 = (g', l) := by
  obtain ⟨_, hon⟩ := ends_silent h fun _ _ _ hact => hact
  obtain ⟨toZero, l₁, rfl, hzeroed⟩ := ends_sendCmd hon
  obtain ⟨toMode, l₂, rfl, hmoded⟩ := ends_sendCmd hzeroed
  let others : Command → ℕ → AckVerdict := fun _ => toZero
  cases hacked : (sendCmdAcked (.modeBase b) toMode ackRetries).1 with
  | true =>
      rw [hacked, if_pos rfl] at hmoded
      obtain ⟨toSave, l₃, rfl, hsaved⟩ := ends_sendCmd hmoded
      obtain ⟨i, doneUs, rfl, rfl⟩ := ends_pushEnd hsaved
      let io : CallIo := ⟨mergeReplies (.modeBase b) others toMode toSave, i.loads, i.saves⟩
      have hzero : io.send .configUndulationZero = _ := merge_other rfl (by simp) (by simp)
      have hmode : io.send (.modeBase b) = _ := merge_mode rfl (by simp)
      have hsave : io.send .saveconfig = _ := merge_save rfl
      refine ⟨doneUs, io, ?_⟩
      rw [applyFixedBase]
      dsimp only
      rw [hzero, hmode, hsave, hacked, if_pos rfl, List.append_nil, List.append_assoc]
      rfl
  | false =>
      rw [hacked, if_neg Bool.false_ne_true] at hmoded
      obtain ⟨i, doneUs, rfl, rfl⟩ := ends_pushEnd hmoded
      let io : CallIo := ⟨mergeReplies (.modeBase b) others toMode toMode, i.loads, i.saves⟩
      have hzero : io.send .configUndulationZero = _ := merge_other rfl (by simp) (by simp)
      have hmode : io.send (.modeBase b) = _ := merge_mode rfl (by simp)
      refine ⟨doneUs, io, ?_⟩
      rw [applyFixedBase]
      dsimp only
      rw [hzero, hmode, hacked, if_neg Bool.false_ne_true, List.append_nil, List.append_nil]
      rfl

theorem ends_setFixedBaseBody {b : BaseFix} (hvalid : b.Valid) (h : StaticsEnds (setFixedBaseBody b) g l g') :
    ∃ now doneUs io, (gnssSetFixedBase g b now doneUs io).2 = (g', l) := by
  obtain ⟨_, g, _, l₁, ⟨rfl, rfl, rfl⟩, hread, rfl⟩ := ends_act h
  by_cases hsame : Unchanged g b
  · have hcall : ∀ io, (gnssSetFixedBase g b 0 0 io).2 = (refreshFixedBase g io b, []) := by
      intro io
      rw [gnssSetFixedBase, if_neg (not_not.mpr hvalid), if_pos hsame]
    rw [if_pos hsame] at hread
    obtain ⟨(base : Option BaseFix), g, _, l₂, ⟨⟨i, hload⟩, rfl, rfl⟩, hloaded, rfl⟩ := ends_act hread
    have hsave : ∀ {l₂ : List RxEvent}, StaticsEnds (.act (.save b) fun _ => .give .done) g l₂ g' →
        ∃ j : ActIo, l₂ = [] ∧ g' = gnssSaveFixedBase g j.io b := by
      intro l₂ h
      obtain ⟨_, g₁, _, l₃, ⟨rfl, j, rfl⟩, hgiven, rfl⟩ := ends_act h
      obtain ⟨rfl, rfl⟩ := ends_done (ends_give hgiven)
      exact ⟨j, rfl, rfl⟩
    cases base with
    | none =>
        obtain ⟨j, rfl, rfl⟩ := hsave hloaded
        refine ⟨0, 0, ⟨fun _ _ => .none, i.loads, j.saves⟩, ?_⟩
        have hbase : gnssLoadFixedBase g ⟨fun _ _ => .none, i.loads, j.saves⟩ = none := hload.symm
        rw [hcall, refreshFixedBase, hbase]
        rfl
    | some nv =>
        dsimp only at hloaded
        by_cases hnear : nv.Near b
        · rw [if_pos hnear] at hloaded
          obtain ⟨rfl, rfl⟩ := ends_done (ends_give hloaded)
          refine ⟨0, 0, i.io, ?_⟩
          rw [hcall, refreshFixedBase, ← hload]
          dsimp only
          rw [if_pos hnear]
        · rw [if_neg hnear] at hloaded
          obtain ⟨j, rfl, rfl⟩ := hsave hloaded
          refine ⟨0, 0, ⟨fun _ _ => .none, i.loads, j.saves⟩, ?_⟩
          have hbase : gnssLoadFixedBase g ⟨fun _ _ => .none, i.loads, j.saves⟩ = some nv := hload.symm
          rw [hcall, refreshFixedBase, hbase]
          dsimp only
          rw [if_neg hnear]
          rfl
  · have hcall : ∀ now doneUs io, (gnssSetFixedBase g b now doneUs io).2 =
        if CoolingDown g b now then (g, []) else (applyFixedBase g b doneUs io).2 := by
      intro now doneUs io
      rw [gnssSetFixedBase, if_neg (not_not.mpr hvalid), if_neg hsame]
      split <;> rfl
    rw [if_neg hsame] at hread
    obtain ⟨(now : ℕ), htimed⟩ := ends_silent hread fun _ _ _ hact => hact
    by_cases hcool : CoolingDown g b now
    · rw [if_pos hcool] at htimed
      obtain ⟨rfl, rfl⟩ := ends_done (ends_give htimed)
      refine ⟨now, 0, ⟨fun _ _ => .none, false, false⟩, ?_⟩
      rw [hcall, if_pos hcool]
    · rw [if_neg hcool] at htimed
      obtain ⟨doneUs, io, hpush⟩ := ends_pushBody htimed
      refine ⟨now, doneUs, io, ?_⟩
      rw [hcall, if_neg hcool]
      exact hpush

end Ends

/-! ### Serializability -/

/-- What a call of the model was asked for. -/
def GnssEvent.request : GnssEvent → Option Request
  | .restart => none
  | .init _ => some .init
  | .recover _ => some .recover
  | .config _ => some .config
  | .setFixedBase b _ _ _ => some (.setFixedBase b)

/-- **A program that ran to its end** did what the call in one step does, for some answers; the version query is
none of these calls, and leaves no trace. -/
theorem call_of_ends {r : Request} {k : GnssProg} {g g' : BaseStatics} {l : List RxEvent} (hcode : code r = .take k)
    (h : StaticsEnds k g l g') :
    r = .logVersion ∧ l = [] ∧ g' = g ∨ ∃ e : GnssEvent, e.request = some r ∧ call g e = (g', l) := by
  have hpulse : ∀ {k : GnssProg} {l : List RxEvent}, StaticsEnds (resetPulse k) g l g' →
      ∃ l', l = .reset :: l' ∧ StaticsEnds k (gnssReceiverEpochInvalidate g) l' g' := by
    intro k l h
    obtain ⟨_, g₁, _, l₂, ⟨rfl, rfl⟩, hset, rfl⟩ := ends_act h
    exact ⟨l₂, rfl, ends_setStatics hset⟩
  cases r with
  | init =>
      cases hcode
      obtain ⟨l', rfl, hrest⟩ := hpulse h
      obtain ⟨io, l'', rfl, hconfigured⟩ := ends_configBody (ends_take hrest)
      obtain ⟨rfl, rfl⟩ := ends_done (ends_give (ends_logVersionBody (ends_take hconfigured)))
      refine .inr ⟨.init io, rfl, ?_⟩
      rw [List.append_nil]
      rfl
  | recover =>
      cases hcode
      obtain ⟨l', rfl, hrest⟩ := hpulse h
      obtain ⟨io, l'', rfl, hconfigured⟩ := ends_configBody (ends_take hrest)
      obtain ⟨rfl, rfl⟩ := ends_done (ends_give hconfigured)
      refine .inr ⟨.recover io, rfl, ?_⟩
      rw [List.append_nil]
      rfl
  | config =>
      cases hcode
      obtain ⟨io, l', rfl, hconfigured⟩ := ends_configBody h
      obtain ⟨rfl, rfl⟩ := ends_done hconfigured
      refine .inr ⟨.config io, rfl, ?_⟩
      rw [List.append_nil]
      rfl
  | logVersion =>
      cases hcode
      obtain ⟨rfl, rfl⟩ := ends_done (ends_logVersionBody h)
      exact .inl ⟨rfl, rfl, rfl⟩
  | setFixedBase b =>
      rw [code] at hcode
      by_cases hvalid : b.Valid
      · rw [if_pos hvalid] at hcode
        cases hcode
        obtain ⟨now, doneUs, io, hpush⟩ := ends_setFixedBaseBody hvalid h
        exact .inr ⟨.setFixedBase b now doneUs io, rfl, hpush⟩
      · rw [if_neg hvalid] at hcode
        cases hcode

/-- The calls of the model that were made, for who got the lock for what. -/
def Makes (cs : List (τ × Request)) (es : List GnssEvent) : Prop :=
  es.map GnssEvent.request = ((cs.map Prod.snd).filter (· ≠ .logVersion)).map some

/-- Programs one after the other are a run of the model. -/
theorem serial_calls {s s' : GnssShared} {cs : List (τ × Request)} {os : List (ThreadObs τ Request GnssOut)}
    (h : Serial (gnssShared text) code s cs os s') :
    ∃ es, Makes cs es ∧ latchMachine.run s.gnss es = s'.gnss ∧ latchMachine.outputs s.gnss es = rxLog os := by
  induction h with
  | nil => exact ⟨[], rfl, rfl, rfl⟩
  | @env s₁ cs os e _ ih =>
      obtain ⟨es, hmakes, hrun, hlog⟩ := ih
      have hquiet : rxLog (((gnssShared text).env s₁ e).2.map (ThreadObs.other (τ := τ) (κ := Request))) = [] := by
        cases e <;> rfl
      refine ⟨es, hmakes, ?_, ?_⟩
      · rw [hrun]
        cases e <;> rfl
      · rw [rxLog, List.flatMap_append]
        exact hlog.trans ((congrArg (rxLog os ++ ·) hquiet).trans (List.append_nil _)).symm
  | @call s₁ s₂ cs os os' t r k _ hcode hruns ih =>
      obtain ⟨es, hmakes, hrun, hlog⟩ := ih
      have hrest : rxLog (os ++ .began t r :: os') = rxLog os ++ rxLog os' := List.flatMap_append
      rcases call_of_ends hcode (runs_staticsEnds hruns) with ⟨rfl, hsilent, hsame⟩ | ⟨e, hrequest, hcall⟩
      · refine ⟨es, ?_, hrun.trans hsame.symm, ?_⟩
        · rw [Makes, List.map_append, List.filter_append]
          exact hmakes.trans (by simp)
        · rw [hrest, hsilent, List.append_nil]
          exact hlog
      · have hr : r ≠ .logVersion := by
          rintro rfl
          cases e <;> cases hrequest
        refine ⟨es ++ [e], ?_, ?_, ?_⟩
        · rw [Makes, List.map_append, List.map_append, List.filter_append, List.map_append, hmakes]
          simp [hrequest, hr]
        · rw [Machine.run_append, hrun]
          exact congrArg Prod.fst hcall
        · rw [Machine.outputs_append, hrun, hlog, hrest]
          refine congrArg (rxLog os ++ ·) ?_
          exact (List.append_nil _).trans (congrArg Prod.snd hcall)

section Tasks

variable [DecidableEq τ]

variable (text τ) in
/-- The tasks, the UART and the sockets. -/
def gnssTasks : Machine (Threads τ Request GnssAction GnssAction.Gives GnssShared)
    (ThreadEvent τ Request ActIo GnssEnv) (ThreadObs τ Request GnssOut) := threads (gnssShared text) code

variable (τ) in
def gnssTasksInit (nvsBase : Option BaseFix) : Threads τ Request GnssAction GnssAction.Gives GnssShared :=
  threadsInit ⟨gnssBoot nvsBase, ⟨[], false⟩⟩

end Tasks

/-! ### Which answer a verdict is about -/

/-- How far a task has come with a command. -/
inductive Talk where
  | off
  | idle
  | cleared
  | sent (c : Command)
  deriving DecidableEq

/-- Where an action leads; `none` when it is out of place. -/
def Talk.next (φ : Talk) : (a : GnssAction) → a.Gives → Option Talk
  | .capturing true => fun _ => some .idle
  | .capturing false => fun _ => some .off
  | .capReset => fun _ => if φ = .off then none else some .cleared
  | .wire (.command c) => fun _ => if φ = .cleared then some (.sent c) else none
  | .wire .versiona => fun _ => if φ = .cleared then some .idle else none
  | .poll c => fun (v : AckVerdict) => if φ = .sent c then some (if v = .none then φ else .idle) else none
  | .noAck c => fun _ => if φ = .sent c then some .idle else none
  | .resetPulse => fun _ => if φ = .off then some .off else none
  | .pollVersion | .readStatics | .timer | .load | .save _ | .setStatics _ => fun _ => some φ

/-- The program clears the capture before every command, and polls for the one it sent. -/
def Orderly : GnssProg → Talk → Prop
  | .done, _ => True
  | .take k, φ => Orderly k φ
  | .give k, φ => Orderly k φ
  | .act a k, φ => ∀ v, ∃ φ', φ.next a v = some φ' ∧ Orderly (k v) φ'

theorem orderly_pollLoop {c : Command} {again : GnssProg} {k : Bool → GnssProg} (hagain : Orderly again (.sent c))
    (hk : ∀ acked, Orderly (k acked) .idle) (left : ℕ) : Orderly (pollLoop c again k left) (.sent c) := by
  induction left with
  | zero => exact hagain
  | succ left ih =>
      intro (v : AckVerdict)
      cases v with
      | none => exact ⟨.sent c, by simp [Talk.next], ih⟩
      | ok => exact ⟨.idle, by simp [Talk.next], hk true⟩
      | fail => exact ⟨.idle, by simp [Talk.next], hk false⟩

theorem orderly_sendCmd {c : Command} {k : Bool → GnssProg} (hk : ∀ acked, Orderly (k acked) .idle) :
    Orderly (sendCmd c k) .idle := by
  have hloop : ∀ left, Orderly (attemptLoop c k left) .idle := by
    intro left
    induction left with
    | zero => exact hk false
    | succ left ih =>
        refine fun _ => ⟨.cleared, rfl, fun _ => ⟨.sent c, rfl, orderly_pollLoop ?_ hk ackPolls⟩⟩
        exact fun _ => ⟨.idle, by simp [Talk.next], ih⟩
  exact hloop _

theorem orderly_sendAll {k : GnssProg} (hk : Orderly k .idle) (cs : List Command) : Orderly (sendAll k cs) .idle := by
  induction cs with
  | nil => exact hk
  | cons c cs ih => exact orderly_sendCmd fun _ => ih

theorem orderly_configBody {k : GnssProg} (hk : Orderly k .off) : Orderly (configBody k) .off := by
  have hend : Orderly (configEnd k) .idle := orderly_sendCmd fun _ => fun _ => ⟨.off, rfl, hk⟩
  refine fun _ => ⟨.idle, rfl, orderly_sendAll ?_ _⟩
  intro (base : Option BaseFix)
  refine ⟨.idle, rfl, ?_⟩
  cases base with
  | none => exact fun _ => ⟨.idle, rfl, orderly_sendCmd fun _ => hend⟩
  | some b =>
      refine orderly_sendCmd fun acked => ?_
      cases acked with
      | true => exact fun _ => ⟨.idle, rfl, hend⟩
      | false => exact fun _ => ⟨.idle, rfl, hend⟩

theorem orderly_logVersionBody {k : GnssProg} (hk : Orderly k .off) : Orderly (logVersionBody k) .off := by
  have hloop : ∀ left, Orderly (versionLoop (.act (.capturing false) fun _ => .give k) left) .idle := by
    intro left
    induction left with
    | zero => exact fun _ => ⟨.off, rfl, hk⟩
    | succ left ih =>
        intro (found : Bool)
        cases found with
        | true => exact ⟨.idle, rfl, fun _ => ⟨.off, rfl, hk⟩⟩
        | false => exact ⟨.idle, rfl, ih⟩
  exact fun _ => ⟨.idle, rfl, fun _ => ⟨.cleared, rfl, fun _ => ⟨.idle, rfl, hloop _⟩⟩⟩

theorem orderly_setFixedBaseBody (b : BaseFix) : Orderly (setFixedBaseBody b) .off := by
  have hgive : ∀ φ, Orderly (.give .done) φ := fun _ => trivial
  have hsave : Orderly (.act (.save b) fun _ => .give .done) .off := fun _ => ⟨.off, rfl, trivial⟩
  have hend : ∀ acked ok, Orderly (pushEnd b acked ok) .idle := by
    intro acked ok
    refine fun _ => ⟨.off, rfl, fun _ => ⟨.off, rfl, ?_⟩⟩
    cases ok with
    | true => exact fun _ => ⟨.off, rfl, hsave⟩
    | false => exact fun _ => ⟨.off, rfl, fun _ => ⟨.off, rfl, trivial⟩⟩
  intro (g : BaseStatics)
  refine ⟨.off, rfl, ?_⟩
  dsimp only
  split
  · intro (base : Option BaseFix)
    refine ⟨.off, rfl, ?_⟩
    cases base with
    | none => exact hsave
    | some nv =>
        dsimp only
        split
        · exact hgive _
        · exact hsave
  · intro (now : ℕ)
    refine ⟨.off, rfl, ?_⟩
    dsimp only
    split
    · exact hgive _
    · refine fun _ => ⟨.idle, rfl, orderly_sendCmd fun _ => orderly_sendCmd fun acked => ?_⟩
      split
      · exact orderly_sendCmd fun ok => hend acked ok
      · exact hend acked false

theorem orderly_code {r : Request} {k : GnssProg} (h : code r = .take k) : Orderly k .off := by
  have hpulse : ∀ {k : GnssProg}, Orderly k .off → Orderly (resetPulse k) .off := fun hk _ =>
    ⟨.off, rfl, fun _ => ⟨.off, rfl, hk⟩⟩
  cases r with
  | init =>
      cases h
      have hversion : Orderly (.take (logVersionBody (.give .done))) .off := orderly_logVersionBody trivial
      exact hpulse (orderly_configBody hversion)
  | recover =>
      cases h
      have hgive : Orderly (.give .done) .off := trivial
      exact hpulse (orderly_configBody hgive)
  | config =>
      cases h
      exact orderly_configBody trivial
  | logVersion =>
      cases h
      exact orderly_logVersionBody trivial
  | setFixedBase b =>
      rw [code] at h
      split at h
      · cases h
        exact orderly_setFixedBaseBody b
      · cases h

/-- What the UART task has put into the capture. -/
def chunks (os : List (ThreadObs τ Request GnssOut)) : List (List UInt8) :=
  os.filterMap fun o =>
    match o with
    | .other (.rx chunk) => some chunk
    | _ => none

def FromOutside (os : List (ThreadObs τ Request GnssOut)) : Prop := ∀ o ∈ os, ∃ x, o = .other x

/-- Task `t` cleared the capture, and sent `c` then; since it cleared it, only these chunks came, and nobody else in
the module did anything. -/
def SentAlone (t : τ) (c : Command) (os : List (ThreadObs τ Request GnssOut)) (received : List (List UInt8)) : Prop :=
  ∃ before waiting since, os = before ++ .did t .cleared :: (waiting ++ .did t (.wire (.command c)) :: since) ∧
    FromOutside waiting ∧ FromOutside since ∧ received = chunks waiting ++ chunks since

/-- The capture while it is on, after some chunks. -/
def captureAfter (received : List (List UInt8)) : Capture :=
  received.foldl gnssIngestUart (capReset ⟨[], true⟩)

/-- Where a task has come, and what the capture holds. -/
def TalkOk (t : τ) (os : List (ThreadObs τ Request GnssOut)) (cap : Capture) : Talk → Prop
  | .off => True
  | .idle => cap.capturing = true
  | .cleared => ∃ before waiting, os = before ++ .did t .cleared :: waiting ∧ FromOutside waiting ∧
      cap = captureAfter (chunks waiting)
  | .sent c => ∃ received, SentAlone t c os received ∧ cap = captureAfter received

variable (text) in
/-- A verdict is what the scan finds for the command in what came after it was sent. -/
def Correlated (os : List (ThreadObs τ Request GnssOut)) : ThreadObs τ Request GnssOut → Prop
  | .did t (.attempt c v) => ∃ received, SentAlone t c os received ∧
      (v ≠ .none → v = gnssAckScan (captured ⟨[], true⟩ received) (text c))
  | _ => True

theorem captureAfter_capturing (received : List (List UInt8)) : (captureAfter received).capturing = true :=
  capturing_foldl _ _

theorem captureAfter_snoc (received : List (List UInt8)) (chunk : List UInt8) :
    captureAfter (received ++ [chunk]) = gnssIngestUart (captureAfter received) chunk := by
  rw [captureAfter, List.foldl_append]
  rfl

theorem FromOutside.snoc {os : List (ThreadObs τ Request GnssOut)} (h : FromOutside os) (x : GnssOut) :
    FromOutside (os ++ [.other x]) :=
  List.forall_mem_append.mpr ⟨h, fun _ ho => ⟨x, List.mem_singleton.mp ho⟩⟩

theorem chunks_append (os os' : List (ThreadObs τ Request GnssOut)) : chunks (os ++ os') = chunks os ++ chunks os' :=
  List.filterMap_append

/-- The environment goes on. -/
theorem talkOk_env {t : τ} {os : List (ThreadObs τ Request GnssOut)} {s : GnssShared} {φ : Talk}
    (h : TalkOk t os s.cap φ) (e : GnssEnv) :
    TalkOk t (os ++ ((gnssShared text).env s e).2.map .other) ((gnssShared text).env s e).1.cap φ := by
  -- one more observation from outside, and the capture after it
  obtain ⟨x, hobs, hcap⟩ : ∃ x, ((gnssShared text).env s e).2.map (ThreadObs.other (τ := τ) (κ := Request)) =
      [.other x] ∧ ∀ received, s.cap = captureAfter received → ((gnssShared text).env s e).1.cap =
        captureAfter (received ++ chunks [(.other x : ThreadObs τ Request GnssOut)]) := by
    cases e with
    | rx chunk =>
        refine ⟨.rx chunk, rfl, fun received hcap => ?_⟩
        show gnssIngestUart s.cap chunk = _
        rw [hcap, ← captureAfter_snoc]
        rfl
    | inject bytes =>
        refine ⟨.injected bytes, rfl, fun received hcap => ?_⟩
        show s.cap = captureAfter (received ++ [])
        rw [List.append_nil, hcap]
  rw [hobs]
  cases φ with
  | off => trivial
  | idle =>
      cases e with
      | rx chunk => exact (ingest_capturing _ _).trans h
      | inject bytes => exact h
  | cleared =>
      obtain ⟨before, waiting, rfl, hwaiting, hsame⟩ := h
      refine ⟨before, waiting ++ [.other x], by simp, hwaiting.snoc x, ?_⟩
      rw [hcap _ hsame, chunks_append]
  | sent c =>
      obtain ⟨_, ⟨before, waiting, since, rfl, hwaiting, hsince, rfl⟩, hsame⟩ := h
      refine ⟨_, ⟨before, waiting, since ++ [.other x], by simp, hwaiting, hsince.snoc x, rfl⟩, ?_⟩
      rw [hcap _ hsame, chunks_append, List.append_assoc]

theorem TalkOk.capturing {t : τ} {os : List (ThreadObs τ Request GnssOut)} {cap : Capture} {φ : Talk}
    (h : TalkOk t os cap φ) (hon : φ ≠ .off) : cap.capturing = true := by
  cases φ with
  | off => exact absurd rfl hon
  | idle => exact h
  | cleared =>
      obtain ⟨_, _, _, _, rfl⟩ := h
      exact captureAfter_capturing _
  | sent c =>
      obtain ⟨_, _, rfl⟩ := h
      exact captureAfter_capturing _

/-- The task acts, in its place. -/
theorem talkOk_exec {t : τ} {os : List (ThreadObs τ Request GnssOut)} {s : GnssShared} {φ φ' : Talk}
    {a : GnssAction} {i : ActIo} (h : TalkOk t os s.cap φ) (hnext : φ.next a (execAction text a s i).2.1 = some φ') :
    TalkOk t (os ++ (execAction text a s i).2.2.map (.did t)) (execAction text a s i).1.cap φ' ∧
      InPlace (fun pre e => Correlated text (os ++ pre) e) ((execAction text a s i).2.2.map (.did t)) := by
  have hsame : TalkOk t (os ++ []) s.cap φ := by rwa [List.append_nil]
  cases a with
  | capturing on =>
      refine ⟨?_, inPlace_nil _⟩
      cases on with
      | true =>
          cases Option.some.inj hnext
          rfl
      | false =>
          cases Option.some.inj hnext
          trivial
  | capReset =>
      refine ⟨?_, inPlace_singleton trivial⟩
      have hif : (if φ = .off then none else some Talk.cleared) = some φ' := hnext
      split at hif
      · cases hif
      · rename_i hon
        cases Option.some.inj hif
        refine ⟨os, [], rfl, List.forall_mem_nil _, ?_⟩
        show (⟨[], s.cap.capturing⟩ : Capture) = ⟨[], true⟩
        rw [h.capturing hon]
  | wire l =>
      refine ⟨?_, inPlace_singleton trivial⟩
      cases l with
      | command c =>
          have hif : (if φ = .cleared then some (Talk.sent c) else none) = some φ' := hnext
          split at hif
          · rename_i hcleared
            cases Option.some.inj hif
            subst hcleared
            obtain ⟨before, waiting, rfl, hwaiting, hcap⟩ := h
            refine ⟨chunks waiting, ⟨before, waiting, [], ?_, hwaiting, List.forall_mem_nil _, ?_⟩, hcap⟩
            · rw [List.append_assoc]
              rfl
            · exact (List.append_nil _).symm
          · cases hif
      | versiona =>
          have hif : (if φ = .cleared then some Talk.idle else none) = some φ' := hnext
          split at hif
          · rename_i hcleared
            cases Option.some.inj hif
            exact h.capturing (by simp [hcleared])
          · cases hif
  | poll c =>
      have hif : (if φ = .sent c then some (if gnssAckScan (capSnapshot s.cap) (text c) = .none then φ else .idle)
          else none) = some φ' := hnext
      split at hif
      · rename_i hsent
        subst hsent
        cases Option.some.inj hif
        have hon := h.capturing (by simp)
        obtain ⟨received, halone, hcap⟩ := h
        show TalkOk t (os ++ (if gnssAckScan (capSnapshot s.cap) (text c) = .none then []
            else [GnssOut.attempt c (gnssAckScan (capSnapshot s.cap) (text c))]).map (.did t)) s.cap _ ∧
          InPlace _ ((if gnssAckScan (capSnapshot s.cap) (text c) = .none then []
            else [GnssOut.attempt c (gnssAckScan (capSnapshot s.cap) (text c))]).map (ThreadObs.did t))
        by_cases hnone : gnssAckScan (capSnapshot s.cap) (text c) = .none
        · rw [if_pos hnone, if_pos hnone]
          exact ⟨hsame, inPlace_nil _⟩
        · rw [if_neg hnone, if_neg hnone]
          refine ⟨hon, inPlace_singleton ⟨received, by rwa [List.append_nil], fun _ => ?_⟩⟩
          rw [hcap]
          rfl
      · cases hif
  | noAck c =>
      have hif : (if φ = .sent c then some Talk.idle else none) = some φ' := hnext
      split at hif
      · rename_i hsent
        subst hsent
        cases Option.some.inj hif
        have hon := h.capturing (by simp)
        obtain ⟨received, halone, _⟩ := h
        refine ⟨hon, inPlace_singleton ⟨received, by rwa [List.append_nil], fun hv => absurd rfl hv⟩⟩
      · cases hif
  | resetPulse =>
      refine ⟨?_, inPlace_singleton trivial⟩
      have hif : (if φ = .off then some Talk.off else none) = some φ' := hnext
      split at hif
      · cases Option.some.inj hif
        trivial
      · cases hif
  | _ =>
      cases Option.some.inj hnext
      exact ⟨hsame, inPlace_nil _⟩

/-- **What one program does is in its place.** -/
theorem runs_correlated {t : τ} {p p' : GnssProg} {s s' : GnssShared} {os : List (ThreadObs τ Request GnssOut)}
    (h : Runs (gnssShared text) t p s os p' s') {φ : Talk} (hp : Orderly p φ)
    {before : List (ThreadObs τ Request GnssOut)} (htalk : TalkOk t before s.cap φ)
    (hbefore : InPlace (Correlated text) before) : InPlace (Correlated text) (before ++ os) := by
  induction h generalizing φ before with
  | refl => rwa [List.append_nil]
  | take _ ih => exact ih hp htalk hbefore
  | give _ ih => exact ih hp htalk hbefore
  | @act a k p' s s' os i _ ih =>
      obtain ⟨φ', hnext, hk⟩ := hp ((execAction text a s i).2.1)
      obtain ⟨htalk', hobs⟩ := talkOk_exec htalk hnext
      rw [← List.append_assoc]
      exact ih hk htalk' ((inPlace_append _ _).mpr ⟨hbefore, hobs⟩)
  | @env p p' s s' os e _ ih =>
      rw [← List.append_assoc]
      refine ih hp (talkOk_env htalk e) ((inPlace_append _ _).mpr ⟨hbefore, ?_⟩)
      refine inPlace_of_forall fun o ho pre => ?_
      obtain ⟨x, _, rfl⟩ := List.mem_map.mp ho
      trivial

theorem serial_correlated {s s' : GnssShared} {cs : List (τ × Request)} {os : List (ThreadObs τ Request GnssOut)}
    (h : Serial (gnssShared text) code s cs os s') : InPlace (Correlated text) os := by
  induction h with
  | nil => exact inPlace_nil _
  | env e _ ih =>
      refine (inPlace_append _ _).mpr ⟨ih, inPlace_of_forall fun o ho pre => ?_⟩
      obtain ⟨x, _, rfl⟩ := List.mem_map.mp ho
      trivial
  | @call s₁ s₂ cs os os' t r k _ hcode hruns ih =>
      have hbegan : InPlace (Correlated text) (os ++ [.began t r]) :=
        (inPlace_append _ _).mpr ⟨ih, inPlace_singleton trivial⟩
      have hall := runs_correlated hruns (orderly_code hcode) trivial hbegan
      rwa [List.append_assoc] at hall

/-- **A verdict is about the command of its own task.**  Whatever the tasks, the UART and the sockets interleave:
between a command and its verdict no task sends another one, clears the capture or resets the receiver, and a
verdict is what the scan finds for that command in what the receiver sent since the task cleared the capture. -/
theorem verdict_correlated [DecidableEq τ] (text : Command → CStr) (nvsBase : Option BaseFix)
    (es : List (ThreadEvent τ Request ActIo GnssEnv)) :
    InPlace (Correlated text) ((gnssTasks text τ).outputs (gnssTasksInit τ nvsBase) es) := by
  have hok : ThreadsOk (gnssShared text) code ⟨gnssBoot nvsBase, ⟨[], false⟩⟩
      ((gnssTasks text τ).run (gnssTasksInit τ nvsBase) es) ((gnssTasks text τ).outputs (gnssTasksInit τ nvsBase) es) :=
    serializable code_transaction es
  cases hlock : ((gnssTasks text τ).run (gnssTasksInit τ nvsBase) es).lock with
  | none =>
      obtain ⟨cs, hserial⟩ := hok.free hlock
      exact serial_correlated hserial
  | some holder =>
      obtain ⟨t, d⟩ := holder
      obtain ⟨r, p, hhold⟩ := hok.held t d hlock
      obtain ⟨cs, before, s₁, k, after, hserial, hcode, hruns, hos⟩ := hhold.serial
      have hbegan : InPlace (Correlated text) (before ++ [.began t r]) :=
        (inPlace_append _ _).mpr ⟨serial_correlated hserial, inPlace_singleton trivial⟩
      have hall := runs_correlated hruns (orderly_code hcode) trivial hbegan
      rw [hos]
      rwa [List.append_assoc] at hall

end RtkdataFw.Gnss
