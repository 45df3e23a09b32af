import Mathlib.Logic.Function.Basic
import RtkdataFw.DnsServer
import RtkdataFw.Lib.Machine
import RtkdataFw.Lib.Since

/-!
# Starting and stopping the captive DNS

The event loop calls `dns_hijack_start` and `dns_hijack_stop` one after the other; `dns_task` runs beside them and
shares `s_dns_task`, `s_run` and `s_sock` with them, without a lock.  One step is one access to one of the three,
or one call into lwIP.  A descriptor that is closed may at once belong to another task.

* `CallerPc`, `DnsPc` — where the event loop and a task stand;
* `hijack` — the machine of both, with the descriptors of the other tasks;
* `HijackOk` — who has the socket of the task;
* `hijack_safe` — there is one task at most, a task told to run has its own socket, and what leaks is what
  `dns_hijack_stop` overwrites.
-/

namespace RtkdataFw.DnsServer

open RtkdataFw.Lib

/-! ### The code -/

/-- Who opened a descriptor. -/
inductive Opener where
  | hijack
  | other
  deriving DecidableEq, Repr

/-- The next access of the event loop, with the local `sock`, where it has been read. -/
inductive CallerPc where
  | idle
  | startCheck
  | startRun
  | startCreate
  | stopCheck
  | stopRun
  | stopRead
  | stopClear (sock : Option ℕ)
  | stopClose (sock : Option ℕ)
  /-- So many rounds of the wait are left. -/
  | stopWait (left : ℕ)
  deriving DecidableEq, Repr

/-- The next access of a `dns_task`, with the descriptor that a call has been given. -/
inductive DnsPc where
  /-- Not created yet, or `s_dns_task` is cleared. -/
  | gone
  | created
  | opened (fd : Option ℕ)
  | checkSock
  | bindArg
  | binding (fd : Option ℕ)
  | loopHead
  | recvArg
  | receiving (fd : Option ℕ)
  | received (r : Received)
  | sendArg (reply : List UInt8)
  | sending (fd : Option ℕ) (reply : List UInt8)
  | endCheck
  | closeArg
  | closing (fd : Option ℕ)
  | clearSock
  | clearTask

/-- What the calls of one step return.  No datagram is an error of `recvfrom`. -/
structure DnsIo where
  fd : Option ℕ
  bindOk : Bool
  datagram : Option Received

/-- `handle`, `run` and `sock` are `s_dns_task`, `s_run` and `s_sock`; `port` is the socket bound to port 53. -/
structure Hijack where
  handle : Option ℕ
  run : Bool
  sock : Option ℕ
  caller : CallerPc
  task : ℕ → DnsPc
  created : ℕ
  opener : ℕ → Option Opener
  port : Option ℕ

def hijackInit : Hijack where
  handle := none
  run := false
  sock := none
  caller := .idle
  task := fun _ => .gone
  created := 0
  opener := fun _ => none
  port := none

inductive HijackEvent where
  | start
  | stop
  /-- A step of the event loop, with what `xTaskCreate` returns. -/
  | caller (createOk : Bool)
  | task (t : ℕ) (io : DnsIo)
  /-- Another task opens a descriptor. -/
  | open (fd : ℕ)
  /-- Another task closes one of its own. -/
  | close (fd : ℕ)

inductive HijackObs where
  /-- `dns_hijack_start` finds a task. -/
  | skipped
  | created
  /-- `dns_hijack_stop` returns, having seen no task. -/
  | stopped
  | timedOut
  /-- `dns_hijack_stop` overwrites a descriptor that it has not read, and that the task is not about to close. -/
  | lost (fd : ℕ)
  /-- A call is made on a descriptor of another task, with `s_run` as it is. -/
  | hitOther (run : Bool)
  deriving DecidableEq, Repr

/-- The reply to a datagram; what `tx` held before does not matter. -/
def hijackAnswer (ip : Ip4) (r : Received) : Option (List UInt8) :=
  (dnsPass r (List.replicate dnsTxMax 0) ip (r.n + 1)).bind Pass.reply

/-- The task will not read `s_sock` again to close it. -/
def DnsPc.closes : DnsPc → Bool
  | .closing _ | .clearSock => true
  | _ => false

namespace Hijack

variable (s : Hijack)

def goTo (t : ℕ) (pc : DnsPc) : Hijack := { s with task := Function.update s.task t pc }

/-- `close(fd)`, also of a descriptor that is not open, or of -1. -/
def close (fd : Option ℕ) : Hijack :=
  { s with opener := fun w => if fd = some w then none else s.opener w,
           port := if s.port = fd then none else s.port }

/-- What a call on a descriptor meets. -/
def hits (fd : Option ℕ) : List HijackObs := if fd.bind s.opener = some .other then [.hitOther s.run] else []

/-- `bind` of an open socket succeeds on a free port only. -/
def bound (fd : Option ℕ) (bindOk : Bool) : Bool := bindOk && (fd.bind s.opener).isSome && s.port.isNone

/-- `recvfrom`, which fails on a descriptor that is not open. -/
def recv (fd : Option ℕ) (datagram : Option Received) : Option Received :=
  if (fd.bind s.opener).isSome then datagram else none

/-- The task is past its last reading of `s_sock`. -/
def taskCloses : Bool :=
  match s.handle with
  | none => false
  | some t => (s.task t).closes

/-- What is lost when -1 is stored to `s_sock`, after `read` was read from it. -/
def losing (read : Option ℕ) : Option ℕ := if s.sock = read ∨ s.taskCloses then none else s.sock

/-- One step of `dns_hijack_start` or `dns_hijack_stop`. -/
def callerStep (createOk : Bool) : Hijack × List HijackObs :=
  match s.caller with
  | .idle => (s, [])
  | .startCheck =>
      if s.handle.isSome then ({ s with caller := .idle }, [.skipped]) else ({ s with caller := .startRun }, [])
  | .startRun => ({ s with run := true, caller := .startCreate }, [])
  | .startCreate =>
      -- the kernel stores the handle before the task runs
      if createOk then
        ({ s with handle := some s.created, task := Function.update s.task s.created .created,
                  created := s.created + 1, caller := .idle }, [.created])
      else ({ s with run := false, handle := none, caller := .idle }, [])
  | .stopCheck =>
      if s.handle.isNone then ({ s with caller := .idle }, [.stopped]) else ({ s with caller := .stopRun }, [])
  | .stopRun => ({ s with run := false, caller := .stopRead }, [])
  | .stopRead => ({ s with caller := .stopClear s.sock }, [])
  | .stopClear read => ({ s with sock := none, caller := .stopClose read }, (s.losing read).toList.map .lost)
  | .stopClose read => ({ s.close read with caller := .stopWait 50 }, s.hits read)
  | .stopWait 0 => ({ s with caller := .idle }, [.timedOut])
  | .stopWait (left + 1) =>
      if s.handle.isNone then ({ s with caller := .idle }, [.stopped]) else ({ s with caller := .stopWait left }, [])

/-- One step of the `dns_task` numbered `t`. -/
def taskStep (ip : Ip4) (t : ℕ) (io : DnsIo) : Hijack × List HijackObs :=
  match s.task t with
  | .gone => (s, [])
  | .created =>
      match io.fd with
      | none => (s.goTo t (.opened none), [])
      | some fd => ({ s.goTo t (.opened (some fd)) with opener := Function.update s.opener fd (some .hijack) }, [])
  | .opened fd => ({ s.goTo t .checkSock with sock := fd }, [])
  | .checkSock => (s.goTo t (if s.sock.isNone then .clearTask else .bindArg), [])
  | .bindArg => (s.goTo t (.binding s.sock), [])
  | .binding fd =>
      if s.bound fd io.bindOk then ({ s.goTo t .loopHead with port := fd }, s.hits fd)
      else (s.goTo t .closeArg, s.hits fd)
  | .loopHead => (s.goTo t (if s.run then .recvArg else .endCheck), [])
  | .recvArg => (s.goTo t (.receiving s.sock), [])
  | .receiving fd =>
      match s.recv fd io.datagram with
      | none => (s.goTo t .endCheck, s.hits fd)
      | some r => (s.goTo t (.received r), s.hits fd)
  | .received r =>
      if s.run then
        match hijackAnswer ip r with
        | none => (s.goTo t .loopHead, [])
        | some reply => (s.goTo t (.sendArg reply), [])
      else (s.goTo t .endCheck, [])
  | .sendArg reply => (s.goTo t (.sending s.sock reply), [])
  | .sending fd _ => (s.goTo t .loopHead, s.hits fd)
  | .endCheck => (s.goTo t (if s.sock.isNone then .clearTask else .closeArg), [])
  | .closeArg => (s.goTo t (.closing s.sock), [])
  | .closing fd => ((s.close fd).goTo t .clearSock, s.hits fd)
  | .clearSock => ({ s.goTo t .clearTask with sock := none }, [])
  | .clearTask => ({ s.goTo t .gone with handle := none }, [])

/-- The event loop calls a function, when it is in none. -/
def call (pc : CallerPc) : Hijack := if s.caller = .idle then { s with caller := pc } else s

def next (ip : Ip4) : HijackEvent → Hijack × List HijackObs
  | .start => (s.call .startCheck, [])
  | .stop => (s.call .stopCheck, [])
  | .caller createOk => s.callerStep createOk
  | .task t io => s.taskStep ip t io
  | .open fd => ({ s with opener := Function.update s.opener fd (some .other) }, [])
  | .close fd => (s.close (some fd), [])

end Hijack

def hijack (ip : Ip4) : Machine Hijack HijackEvent HijackObs where
  step s e := (s.next ip e).1
  out s e := (s.next ip e).2

/-- lwIP gives descriptors that are not open, and the other tasks close their own. -/
def Hijack.Free (s : Hijack) : HijackEvent → Prop
  | .task _ io => ∀ fd ∈ io.fd, s.opener fd = none
  | .open fd => s.opener fd = none
  | .close fd => s.opener fd = some .other
  | _ => True

instance (s : Hijack) (e : HijackEvent) : Decidable (s.Free e) :=
  match e with
  | .task _ io => inferInstanceAs (Decidable (∀ fd ∈ io.fd, s.opener fd = none))
  | .open fd => inferInstanceAs (Decidable (s.opener fd = none))
  | .close fd => inferInstanceAs (Decidable (s.opener fd = some .other))
  | .start | .stop | .caller _ => isTrue trivial

/-! ### Who has the socket -/

/-- The task has stored its socket, or has none to store. -/
def DnsPc.Past : DnsPc → Prop
  | .created | .opened _ => False
  | _ => True

/-- The task takes queries. -/
def DnsPc.Serving : DnsPc → Prop
  | .loopHead | .recvArg | .receiving _ | .received _ | .sendArg _ | .sending _ _ => True
  | _ => False

/-- No descriptor of ours. -/
def Hijack.Stale (s : Hijack) (fd : Option ℕ) : Prop := ∀ w, fd = some w → s.opener w ≠ some .hijack

/-- A stop has taken the socket over, or there is none. -/
def Hijack.Taken (s : Hijack) (own : Option ℕ) : Prop :=
  s.sock = none ∧ (own = none ∨ s.caller = .stopClose own)

/-- What holds of `s_sock` where the task stands, when `own` is its socket, as long as that is open. -/
def Hijack.At (s : Hijack) (own : Option ℕ) : DnsPc → Prop
  | .created => s.sock = none ∧ own = none
  | .opened fd => s.sock = none ∧ own = fd
  | .closing fd => fd = own ∧ (s.sock = own ∨ s.sock = none) ∨ s.Stale fd ∧ s.Taken own
  | .clearSock => s.Stale s.sock ∧ (own = none ∨ s.Taken own)
  | .clearTask => s.Taken own
  | _ => s.sock = own ∨ s.Taken own

/-- The socket is bound. -/
def Hijack.Bound (s : Hijack) (own : Option ℕ) : Prop := ∃ fd, own = some fd ∧ s.port = some fd

/-- What holds besides of a task that is told to run. -/
def Hijack.Told (s : Hijack) (own : Option ℕ) : DnsPc → Prop
  | .binding fd | .closing fd => fd = own
  | .receiving fd | .sending fd _ => fd = own ∧ s.Bound own
  | .loopHead | .recvArg | .received _ | .sendArg _ => s.Bound own
  | _ => True

/-- The event loop is creating a task. -/
def CallerPc.Starting : CallerPc → Prop
  | .startRun | .startCreate => True
  | _ => False

/-- The event loop has told the task to stop. -/
def CallerPc.Stopping : CallerPc → Prop
  | .stopRead | .stopClear _ | .stopClose _ | .stopWait _ => True
  | _ => False

/-- Our descriptors are the socket of the task and what was lost. -/
structure HijackOk (s : Hijack) (own : Option ℕ) (lost : List ℕ) : Prop where
  ours : ∀ fd, s.opener fd = some .hijack ↔ fd ∈ lost ∨ own = some fd
  kept : ∀ fd, own = some fd → fd ∉ lost
  live : ∀ t, s.task t ≠ .gone ↔ s.handle = some t
  fresh : ∀ t, s.created ≤ t → s.task t = .gone
  rest : s.handle = none → s.Taken own
  at_task : ∀ t, s.handle = some t → s.At own (s.task t)
  told : s.run = true → ∀ t, s.handle = some t → s.Told own (s.task t)
  clears : ∀ w, s.caller = .stopClear (some w) →
    (∀ t, s.handle = some t → (s.task t).Past) ∧ (own = some w ∨ s.opener w ≠ some .hijack)
  closes : ∀ w, s.caller = .stopClose (some w) →
    (∀ t, s.handle = some t → (s.task t).Past) ∧ (own = some w ∧ s.sock = none ∨ s.opener w ≠ some .hijack)
  starting : s.caller.Starting → s.handle = none
  stopping : s.caller.Stopping → s.run = false

variable {s : Hijack} {own : Option ℕ} {lost : List ℕ}

theorem Hijack.Taken.none_of_ne (h : s.Taken own) (hcaller : ∀ fd, s.caller ≠ .stopClose fd) : own = none :=
  h.2.resolve_right (hcaller own)

/-- A socket that the task still has is in `s_sock`. -/
theorem HijackOk.sock_of_run (h : HijackOk s own lost) (hrun : s.run = true) (hat : s.sock = own ∨ s.Taken own) :
    s.sock = own := by
  rcases hat with hat | hat
  · exact hat
  · rw [hat.1, hat.none_of_ne]
    intro fd hcaller
    have hstop := h.stopping (by rw [hcaller]; trivial)
    rw [hrun] at hstop
    exact Bool.noConfusion hstop

theorem task_eq {t : ℕ} (ht : s.handle = some t) (u : ℕ) : s.handle = some u ↔ u = t := by
  rw [ht, Option.some.injEq]
  exact eq_comm

theorem HijackOk.live_update (h : HijackOk s own lost) {t : ℕ} (ht : s.handle = some t) {pc : DnsPc}
    (hpc : pc ≠ .gone) (u : ℕ) : Function.update s.task t pc u ≠ .gone ↔ s.handle = some u := by
  by_cases hu : u = t
  · rw [hu, Function.update_self]
    exact iff_of_true hpc ht
  · rw [Function.update_of_ne hu]
    exact h.live u

theorem HijackOk.fresh_update (h : HijackOk s own lost) {t : ℕ} (ht : s.handle = some t) (pc : DnsPc) (u : ℕ)
    (hu : s.created ≤ u) : Function.update s.task t pc u = .gone := by
  have hut : u ≠ t := by
    rintro rfl
    exact (h.live u).mpr ht (h.fresh u hu)
  rw [Function.update_of_ne hut]
  exact h.fresh u hu

/-- What is to hold of the task holds of its new place. -/
theorem task_update {t : ℕ} (ht : s.handle = some t) {pc : DnsPc} {P : DnsPc → Prop} (hP : P pc) (u : ℕ)
    (hu : s.handle = some u) : P (Function.update s.task t pc u) := by
  rw [(task_eq ht u).mp hu, Function.update_self]
  exact hP

/-- Another place of the task, and nothing else. -/
theorem HijackOk.goTo (h : HijackOk s own lost) {t : ℕ} (ht : s.handle = some t) (pc : DnsPc) (hpc : pc ≠ .gone)
    (hpast : (s.task t).Past → pc.Past) (hat : s.At own pc) (htold : s.run = true → s.Told own pc) :
    HijackOk (s.goTo t pc) own lost where
  ours := h.ours
  kept := h.kept
  live := h.live_update ht hpc
  fresh := h.fresh_update ht pc
  rest := h.rest
  at_task := task_update ht (P := s.At own) hat
  told := fun hrun => task_update ht (P := s.Told own) (htold hrun)
  clears := fun w hw => ⟨task_update ht (hpast ((h.clears w hw).1 t ht)), (h.clears w hw).2⟩
  closes := fun w hw => ⟨task_update ht (hpast ((h.closes w hw).1 t ht)), (h.closes w hw).2⟩
  starting := h.starting
  stopping := h.stopping

/-- What is left alone by a step that keeps `s_sock`, the strange descriptors and the hold of a stop. -/
theorem Hijack.At.mono {s' : Hijack} {pc : DnsPc} (h : s.At own pc) (hsock : s'.sock = s.sock)
    (hstale : ∀ fd, s.Stale fd → s'.Stale fd) (htaken : s.Taken own → s'.Taken own) : s'.At own pc := by
  cases pc with
  | created => exact ⟨hsock.trans h.1, h.2⟩
  | opened fd => exact ⟨hsock.trans h.1, h.2⟩
  | closing fd =>
      rcases h with ⟨hfd, hs⟩ | ⟨hfd, ht⟩
      · exact .inl ⟨hfd, by rwa [hsock]⟩
      · exact .inr ⟨hstale fd hfd, htaken ht⟩
  | clearSock =>
      refine ⟨?_, h.2.imp_right htaken⟩
      rw [hsock]
      exact hstale _ h.1
  | clearTask => exact htaken h
  | gone | checkSock | bindArg | binding | loopHead | recvArg | receiving | received | sendArg | sending | endCheck
  | closeArg => exact h.imp hsock.trans htaken

/-- Other descriptors of others, and perhaps another port. -/
theorem HijackOk.reopen (h : HijackOk s own lost) (opener : ℕ → Option Opener) (port : Option ℕ)
    (hopener : ∀ fd, opener fd = some .hijack ↔ s.opener fd = some .hijack)
    (hport : ∀ fd, own = some fd → s.port = some fd → port = some fd) :
    HijackOk { s with opener := opener, port := port } own lost := by
  have hstale : ∀ fd, s.Stale fd → { s with opener := opener, port := port : Hijack }.Stale fd :=
    fun fd hfd w hw => (not_congr (hopener w)).mpr (hfd w hw)
  have hbound : s.Bound own → { s with opener := opener, port := port : Hijack }.Bound own := by
    rintro ⟨fd, hfd, hp⟩
    exact ⟨fd, hfd, hport fd hfd hp⟩
  exact
    { ours := fun fd => (hopener fd).trans (h.ours fd)
      kept := h.kept
      live := h.live
      fresh := h.fresh
      rest := h.rest
      at_task := fun t ht => (h.at_task t ht).mono rfl hstale id
      told := by
        intro hrun t ht
        have htold := h.told hrun t ht
        revert htold
        show s.Told own (s.task t) → _
        cases s.task t with
        | receiving fd | sending fd reply => exact fun htold => ⟨htold.1, hbound htold.2⟩
        | loopHead | recvArg | received | sendArg => exact hbound
        | gone | created | opened | checkSock | bindArg | binding | endCheck | closeArg | closing | clearSock
        | clearTask => exact id
      clears := fun w hw => ⟨(h.clears w hw).1, (h.clears w hw).2.imp_right (not_congr (hopener w)).mpr⟩
      closes := fun w hw => ⟨(h.closes w hw).1, (h.closes w hw).2.imp_right (not_congr (hopener w)).mpr⟩
      starting := h.starting
      stopping := h.stopping }

/-- Another place of the event loop, which held nothing, and perhaps another `s_run`. -/
theorem HijackOk.setCaller (h : HijackOk s own lost) (hold : s.Taken own → own = none) (run : Bool)
    (pc : CallerPc) (hrun : run = true → s.run = true ∨ s.handle = none)
    (hclears : ∀ w, pc = .stopClear (some w) →
      (∀ t, s.handle = some t → (s.task t).Past) ∧ (own = some w ∨ s.opener w ≠ some .hijack))
    (hcloses : ∀ fd, pc ≠ .stopClose fd) (hstarting : pc.Starting → s.handle = none)
    (hstopping : pc.Stopping → run = false) : HijackOk { s with run := run, caller := pc } own lost := by
  have htaken : s.Taken own → { s with run := run, caller := pc : Hijack }.Taken own :=
    fun ht => ⟨ht.1, .inl (hold ht)⟩
  exact
    { ours := h.ours
      kept := h.kept
      live := h.live
      fresh := h.fresh
      rest := fun hnone => htaken (h.rest hnone)
      at_task := fun t ht => (h.at_task t ht).mono rfl (fun _ => id) htaken
      told := by
        intro htrue t ht
        rcases hrun htrue with htrue' | hnone
        · exact h.told htrue' t ht
        · exact absurd (ht.symm.trans hnone) (by simp)
      clears := hclears
      closes := fun w hw => absurd hw (hcloses _)
      starting := hstarting
      stopping := hstopping }

/-! ### Closing -/

theorem close_hijack {fd : Option ℕ} {w : ℕ} (h : (s.close fd).opener w = some .hijack) :
    fd ≠ some w ∧ s.opener w = some .hijack := by
  change (if fd = some w then none else s.opener w) = _ at h
  split at h
  · exact absurd h (by simp)
  · exact ⟨‹_›, h⟩

/-- To close what is not ours changes nothing for us. -/
theorem HijackOk.closeStale (h : HijackOk s own lost) {fd : Option ℕ} (hfd : s.Stale fd) :
    HijackOk (s.close fd) own lost := by
  have hne : ∀ w, s.opener w = some .hijack → fd ≠ some w := fun w hw heq => hfd w heq hw
  refine h.reopen _ _ (fun w => ⟨fun hw => (close_hijack hw).2, fun hw => ?_⟩) ?_
  · show (if fd = some w then none else s.opener w) = _
    rw [if_neg (hne w hw), hw]
  · intro w hw hport
    have hours := hne w ((h.ours w).mpr (.inr hw))
    rw [hport, if_neg (Ne.symm hours)]

/-- What is ours without the socket of the task. -/
theorem HijackOk.ours_close (h : HijackOk s own lost) (fd : ℕ) :
    (s.close own).opener fd = some .hijack ↔ fd ∈ lost ∨ none = some fd := by
  show (if own = some fd then none else s.opener fd) = _ ↔ _
  split
  · rename_i hfd
    exact iff_of_false (by simp) (by simp [h.kept fd hfd])
  · rename_i hfd
    rw [h.ours]
    simp [hfd]

/-- The socket of the task is closed, and what a stop holds is strange. -/
theorem not_hijack_close {w : ℕ} (hw : own = some w ∨ s.opener w ≠ some .hijack) :
    (s.close own).opener w ≠ some .hijack := by
  intro hopen
  have hne := close_hijack hopen
  exact hw.elim hne.1 fun hstale => hstale hne.2

/-- The task closes its socket. -/
theorem HijackOk.closeByTask (h : HijackOk s own lost) {t : ℕ} (ht : s.handle = some t)
    (hsock : s.sock = own ∨ s.sock = none) : HijackOk ((s.close own).goTo t .clearSock) none lost where
  ours := h.ours_close
  kept := fun fd hfd => absurd hfd (by simp)
  live := h.live_update ht (by simp)
  fresh := h.fresh_update ht .clearSock
  rest := fun hnone => absurd (ht.symm.trans hnone) (by simp)
  at_task := by
    refine task_update ht (P := Hijack.At _ none) ⟨?_, .inl rfl⟩
    intro w hw
    rcases hsock with hs | hs
    · exact not_hijack_close (.inl (hs.symm.trans hw))
    · exact absurd (hs.symm.trans hw) (by simp)
  told := fun _ => task_update ht (P := Hijack.Told _ none) trivial
  clears := fun w hw => ⟨task_update ht trivial, .inr (not_hijack_close (h.clears w hw).2)⟩
  closes := fun w hw => ⟨task_update ht trivial, .inr (not_hijack_close ((h.closes w hw).2.imp_left And.left))⟩
  starting := h.starting
  stopping := h.stopping

/-- A stop closes the socket of the task. -/
theorem HijackOk.closeByStop (h : HijackOk s own lost) (hcaller : s.caller = .stopClose own) {w : ℕ}
    (hown : own = some w) : HijackOk { s.close own with caller := .stopWait 50 } none lost := by
  have hours := (h.ours w).mpr (.inr hown)
  obtain ⟨hpast, hcloses⟩ := h.closes w (by rw [hcaller, hown])
  have hsock : s.sock = none := (hcloses.resolve_right fun hne => hne hours).2
  have hrun := h.stopping (by rw [hcaller]; trivial)
  have hstale : ∀ fd, fd = own ∨ s.Stale fd → (s.close own).Stale fd := by
    rintro fd (rfl | hfd) v hv
    · exact not_hijack_close (.inl hv)
    · exact not_hijack_close (.inr (hfd v hv))
  refine
    { ours := h.ours_close
      kept := fun fd hfd => absurd hfd (by simp)
      live := h.live
      fresh := h.fresh
      rest := fun _ => ⟨hsock, .inl rfl⟩
      at_task := ?_
      told := fun htrue => absurd (hrun.symm.trans htrue) (by simp)
      clears := fun v hv => absurd hv (by simp)
      closes := fun v hv => absurd hv (by simp)
      starting := fun hstart => hstart.elim
      stopping := fun _ => hrun }
  intro t ht
  have hat := h.at_task t ht
  have hp := hpast t ht
  show Hijack.At _ none (s.task t)
  cases hpc : s.task t with
  | created | opened =>
      rw [hpc] at hp
      exact hp.elim
  | closing fd =>
      rw [hpc] at hat
      exact .inr ⟨hstale fd (hat.imp And.left And.left), hsock, .inl rfl⟩
  | clearSock =>
      refine ⟨?_, .inl rfl⟩
      intro v hv
      exact absurd (hsock.symm.trans hv) (by simp)
  | clearTask => exact ⟨hsock, .inl rfl⟩
  | gone | checkSock | bindArg | binding | loopHead | recvArg | receiving | received | sendArg | sending | endCheck
  | closeArg => exact .inl hsock

/-! ### The steps of the event loop -/

/-- A stop clears `s_sock` and nothing is lost. -/
theorem HijackOk.clearKept (h : HijackOk s own lost) {read : Option ℕ} (hcaller : s.caller = .stopClear read)
    (hkeep : s.sock = read ∨ s.sock = none ∨ s.taskCloses = true) :
    HijackOk { s with sock := none, caller := .stopClose read } own lost := by
  have hrun := h.stopping (by rw [hcaller]; trivial)
  have hnone : s.Taken own → own = none := fun ht => ht.none_of_ne (by simp [hcaller])
  refine
    { ours := h.ours
      kept := h.kept
      live := h.live
      fresh := h.fresh
      rest := fun hhandle => ⟨rfl, .inl (hnone (h.rest hhandle))⟩
      at_task := ?_
      told := fun htrue => absurd (hrun.symm.trans htrue) (by simp)
      clears := fun w hw => absurd hw (by simp)
      closes := ?_
      starting := fun hstart => hstart.elim
      stopping := fun _ => hrun }
  · intro t ht
    have hat := h.at_task t ht
    show Hijack.At _ own (s.task t)
    cases hpc : s.task t with
    | created | opened =>
        rw [hpc] at hat
        exact ⟨rfl, hat.2⟩
    | closing fd =>
        rw [hpc] at hat
        exact hat.imp (fun hfd => ⟨hfd.1, .inr rfl⟩) fun hfd => ⟨hfd.1, rfl, .inl (hnone hfd.2)⟩
    | clearSock =>
        rw [hpc] at hat
        exact ⟨fun v hv => absurd hv (by simp), .inl (hat.2.elim id hnone)⟩
    | clearTask =>
        rw [hpc] at hat
        exact ⟨rfl, .inl (hnone hat)⟩
    | gone | checkSock | bindArg | binding | loopHead | recvArg | receiving | received | sendArg | sending | endCheck
    | closeArg =>
        have hopen : s.taskCloses = false := by
          unfold Hijack.taskCloses
          rw [ht]
          dsimp only
          rw [hpc]
          rfl
        have hmid : s.sock = own ∨ s.Taken own := by
          rw [hpc] at hat
          exact hat
        rcases hmid with hsock | htaken
        · rcases hkeep with hread | hnosock | hcloses
          · exact .inr ⟨rfl, .inr (by rw [← hread, hsock])⟩
          · exact .inl (hnosock.symm.trans hsock)
          · exact absurd (hopen.symm.trans hcloses) (by simp)
        · exact .inl (hnone htaken).symm
  · intro w hw
    cases hw
    exact ⟨(h.clears w hcaller).1, (h.clears w hcaller).2.imp_left fun hown => ⟨hown, rfl⟩⟩

/-- A stop clears `s_sock` over a socket that it has not read. -/
theorem HijackOk.clearLost (h : HijackOk s own lost) {read : Option ℕ} (hcaller : s.caller = .stopClear read) {fd : ℕ}
    (hsock : s.sock = some fd) (hread : s.sock ≠ read) (hopen : s.taskCloses = false) :
    HijackOk { s with sock := none, caller := .stopClose read } none (lost ++ [fd]) := by
  have hrun := h.stopping (by rw [hcaller]; trivial)
  have htaken : ¬ s.Taken own := fun ht => absurd (hsock.symm.trans ht.1) (by simp)
  obtain ⟨t, ht⟩ : ∃ t, s.handle = some t := by
    cases hhandle : s.handle with
    | none => exact absurd (h.rest hhandle) htaken
    | some t => exact ⟨t, rfl⟩
  have hpc : (s.task t).closes = false := by
    unfold Hijack.taskCloses at hopen
    rw [ht] at hopen
    exact hopen
  have hboth : own = some fd ∧ ∀ s' : Hijack, s'.sock = none → s'.At none (s.task t) := by
    have hat := h.at_task t ht
    revert hat hpc
    cases s.task t with
    | created | opened => exact fun _ hat => absurd (hsock.symm.trans hat.1) (by simp)
    | closing | clearSock => exact fun hpc _ => absurd hpc (by simp [DnsPc.closes])
    | clearTask => exact fun _ hat => absurd hat htaken
    | gone | checkSock | bindArg | binding | loopHead | recvArg | receiving | received | sendArg | sending | endCheck
    | closeArg => exact fun _ hat => ⟨(hat.resolve_right htaken).symm.trans hsock, fun s' hs => .inl hs⟩
  obtain ⟨hown, hat⟩ := hboth
  refine
    { ours := ?_
      kept := fun w hw => absurd hw (by simp)
      live := h.live
      fresh := h.fresh
      rest := fun hhandle => absurd (ht.symm.trans hhandle) (by simp)
      at_task := ?_
      told := fun htrue => absurd (hrun.symm.trans htrue) (by simp)
      clears := fun w hw => absurd hw (by simp)
      closes := ?_
      starting := fun hstart => hstart.elim
      stopping := fun _ => hrun }
  · intro w
    rw [h.ours, hown, List.mem_append, List.mem_singleton, Option.some.injEq]
    simp [eq_comm]
  · intro u hu
    rw [(task_eq ht u).mp hu]
    exact hat _ rfl
  · intro w hw
    cases hw
    refine ⟨(h.clears w hcaller).1, .inr ((h.clears w hcaller).2.resolve_left fun hw => ?_)⟩
    exact hread (hsock.trans (hown.symm.trans hw))

/-- What is lost along some observations. -/
def lostOf (os : List HijackObs) : List ℕ :=
  os.filterMap fun
    | .lost fd => some fd
    | _ => none

theorem mem_lostOf {os : List HijackObs} {fd : ℕ} : fd ∈ lostOf os ↔ .lost fd ∈ os := by
  simp only [lostOf, List.mem_filterMap]
  constructor
  · rintro ⟨o, ho, hfd⟩
    cases o <;> simp_all
  · exact fun h => ⟨_, h, rfl⟩

theorem lostOf_hits (fd : Option ℕ) : lostOf (s.hits fd) = [] := by
  unfold Hijack.hits
  split <;> rfl

/-- A task is told to run on its own socket only. -/
theorem hits_own (h : HijackOk s own lost) : s.hits own = [] := by
  unfold Hijack.hits
  rw [if_neg]
  cases hown : own with
  | none => simp
  | some fd =>
      have hours := (h.ours fd).mpr (.inr hown)
      simp [hours]

/-- What one step is to give. -/
def HijackNext (lost : List ℕ) (r : Hijack × List HijackObs) : Prop :=
  (∃ own', HijackOk r.1 own' (lost ++ lostOf r.2)) ∧ HijackObs.hitOther true ∉ r.2

theorem hijackNext_of (h : HijackOk s own lost) {os : List HijackObs} (hos : lostOf os = [])
    (hhit : HijackObs.hitOther true ∉ os) : HijackNext lost (s, os) :=
  ⟨⟨own, by rwa [hos, List.append_nil]⟩, hhit⟩

/-- `xTaskCreate` has made a task. -/
theorem HijackOk.create (h : HijackOk s own lost) (hcaller : s.caller = .startCreate) :
    HijackOk { s with handle := some s.created, task := Function.update s.task s.created .created,
                      created := s.created + 1, caller := .idle } own lost := by
  have hnone := h.starting (by rw [hcaller]; trivial)
  have htaken := h.rest hnone
  have hgone : ∀ t, s.task t = .gone := by
    intro t
    by_contra hne
    exact absurd ((h.live t).mp hne) (by simp [hnone])
  refine
    { ours := h.ours
      kept := h.kept
      live := ?_
      fresh := ?_
      rest := fun hhandle => absurd hhandle (by simp)
      at_task := ?_
      told := ?_
      clears := fun w hw => absurd hw (by simp)
      closes := fun w hw => absurd hw (by simp)
      starting := fun hstart => hstart.elim
      stopping := fun hstop => hstop.elim }
  · intro t
    show Function.update s.task s.created .created t ≠ .gone ↔ some s.created = some t
    by_cases ht : t = s.created
    · rw [ht, Function.update_self]
      exact iff_of_true (by simp) rfl
    · rw [Function.update_of_ne ht, hgone]
      exact iff_of_false (by simp) fun heq => ht (Option.some.inj heq).symm
  · intro t ht
    have hlt : s.created < t := ht
    show Function.update s.task s.created .created t = .gone
    rw [Function.update_of_ne (by omega), hgone]
  · intro t ht
    cases ht
    show Hijack.At _ own (Function.update s.task s.created .created s.created)
    rw [Function.update_self]
    exact ⟨htaken.1, htaken.none_of_ne (by simp [hcaller])⟩
  · intro _ t ht
    cases ht
    show Hijack.Told _ own (Function.update s.task s.created .created s.created)
    rw [Function.update_self]
    trivial

/-- What a stop reads from `s_sock`. -/
theorem HijackOk.read_sock (h : HijackOk s own lost) {w : ℕ} (hsock : s.sock = some w) :
    (∀ t, s.handle = some t → (s.task t).Past) ∧ (own = some w ∨ s.opener w ≠ some .hijack) := by
  have htaken : ¬ s.Taken own := fun ht => absurd (hsock.symm.trans ht.1) (by simp)
  obtain ⟨t, ht⟩ : ∃ t, s.handle = some t := by
    cases hhandle : s.handle with
    | none => exact absurd (h.rest hhandle) htaken
    | some t => exact ⟨t, rfl⟩
  have hboth : (s.task t).Past ∧ (own = some w ∨ s.opener w ≠ some .hijack) := by
    have hat := h.at_task t ht
    revert hat
    cases s.task t with
    | created | opened => exact fun hat => absurd (hsock.symm.trans hat.1) (by simp)
    | closing fd =>
        intro hat
        rcases hat with ⟨-, hs | hs⟩ | ⟨-, hat⟩
        · exact ⟨trivial, .inl (hs.symm.trans hsock)⟩
        · exact absurd (hsock.symm.trans hs) (by simp)
        · exact absurd hat htaken
    | clearSock => exact fun hat => ⟨trivial, .inr (hat.1 w hsock)⟩
    | clearTask => exact fun hat => absurd hat htaken
    | gone | checkSock | bindArg | binding | loopHead | recvArg | receiving | received | sendArg | sending | endCheck
    | closeArg => exact fun hat => ⟨trivial, .inl ((hat.resolve_right htaken).symm.trans hsock)⟩
  refine ⟨fun u hu => ?_, hboth.2⟩
  rw [(task_eq ht u).mp hu]
  exact hboth.1

theorem stopClear_next (h : HijackOk s own lost) {read : Option ℕ} (hcaller : s.caller = .stopClear read) :
    HijackNext lost ({ s with sock := none, caller := .stopClose read }, (s.losing read).toList.map .lost) := by
  have hhit : HijackObs.hitOther true ∉ (s.losing read).toList.map HijackObs.lost := by simp
  by_cases hread : s.sock = read
  · refine ⟨⟨own, ?_⟩, hhit⟩
    rw [Hijack.losing, if_pos (.inl hread)]
    simpa [lostOf] using h.clearKept hcaller (.inl hread)
  · cases hcloses : s.taskCloses with
    | true =>
        refine ⟨⟨own, ?_⟩, hhit⟩
        rw [Hijack.losing, if_pos (.inr hcloses)]
        simpa [lostOf] using h.clearKept hcaller (.inr (.inr hcloses))
    | false =>
        have hlosing : s.losing read = s.sock := if_neg (by simp [hread, hcloses])
        rw [hlosing] at hhit ⊢
        cases hsock : s.sock with
        | none =>
            rw [hsock] at hhit
            refine ⟨⟨own, ?_⟩, hhit⟩
            simpa [lostOf] using h.clearKept hcaller (.inr (.inl hsock))
        | some fd =>
            rw [hsock] at hhit
            exact ⟨⟨none, h.clearLost hcaller hsock hread hcloses⟩, hhit⟩

theorem stopClose_next (h : HijackOk s own lost) {read : Option ℕ} (hcaller : s.caller = .stopClose read) :
    HijackNext lost ({ s.close read with caller := .stopWait 50 }, s.hits read) := by
  have hrun := h.stopping (by rw [hcaller]; trivial)
  have hhit : HijackObs.hitOther true ∉ s.hits read := by
    unfold Hijack.hits
    rw [hrun]
    split <;> simp
  by_cases hstale : s.Stale read
  · -- a stop that has the socket in its hands would close it
    have hown : s.Taken own → own = none := by
      intro ht
      rcases ht.2 with hnone | hclose
      · exact hnone
      · rw [hcaller, CallerPc.stopClose.injEq] at hclose
        cases hown : own with
        | none => rfl
        | some w => exact absurd ((h.ours w).mpr (.inr hown)) (hstale w (hclose.trans hown))
    have hnext := (h.closeStale hstale).setCaller hown s.run (.stopWait 50) .inl (by simp) (by simp)
      False.elim (fun _ => hrun)
    exact hijackNext_of hnext (lostOf_hits read) hhit
  · unfold Hijack.Stale at hstale
    push Not at hstale
    obtain ⟨w, rfl, hw⟩ := hstale
    have hown : own = some w := ((h.closes w hcaller).2.resolve_right fun hne => hne hw).1
    refine ⟨⟨none, ?_⟩, hhit⟩
    rw [lostOf_hits, List.append_nil]
    have hclose := h.closeByStop (by rw [hown]; exact hcaller) hown
    rwa [hown] at hclose

theorem callerStep_next (h : HijackOk s own lost) (createOk : Bool) : HijackNext lost (s.callerStep createOk) := by
  by_cases hclose : ∃ read, s.caller = .stopClose read
  · obtain ⟨read, hcaller⟩ := hclose
    simp only [Hijack.callerStep, hcaller]
    exact stopClose_next h hcaller
  have hold : s.Taken own → own = none := fun ht => ht.none_of_ne fun fd hfd => hclose ⟨fd, hfd⟩
  have hidle : HijackOk { s with caller := .idle } own lost :=
    h.setCaller hold s.run .idle .inl (by simp) (by simp) False.elim False.elim
  unfold Hijack.callerStep
  split
  · exact hijackNext_of h rfl (by simp)
  · split
    · exact hijackNext_of hidle rfl (by simp)
    · rename_i hhandle
      have hnone : s.handle = none := by simpa using hhandle
      exact hijackNext_of (h.setCaller hold s.run .startRun .inl (by simp) (by simp) (fun _ => hnone) False.elim) rfl
        (by simp)
  · rename_i hcaller
    have hnone := h.starting (by rw [hcaller]; trivial)
    exact hijackNext_of (h.setCaller hold true .startCreate (fun _ => .inr hnone) (by simp) (by simp) (fun _ => hnone)
      False.elim) rfl (by simp)
  · rename_i hcaller
    split
    · exact hijackNext_of (h.create hcaller) rfl (by simp)
    · have hnone := h.starting (by rw [hcaller]; trivial)
      have hnext := h.setCaller hold false .idle (by simp) (by simp) (by simp) False.elim False.elim
      rw [show (none : Option ℕ) = s.handle from hnone.symm]
      exact hijackNext_of hnext rfl (by simp)
  · split
    · exact hijackNext_of hidle rfl (by simp)
    · exact hijackNext_of (h.setCaller hold s.run .stopRun .inl (by simp) (by simp) False.elim False.elim) rfl (by simp)
  · exact hijackNext_of (h.setCaller hold false .stopRead (by simp) (by simp) (by simp) False.elim (fun _ => rfl)) rfl
      (by simp)
  · rename_i hcaller
    have hrun := h.stopping (by rw [hcaller]; trivial)
    refine hijackNext_of (h.setCaller hold s.run (.stopClear s.sock) .inl ?_ (by simp) False.elim (fun _ => hrun)) rfl
      (by simp)
    intro w hw
    exact h.read_sock (CallerPc.stopClear.inj hw)
  · rename_i read hcaller
    exact stopClear_next h hcaller
  · rename_i read hcaller
    exact absurd ⟨read, hcaller⟩ hclose
  · exact hijackNext_of hidle rfl (by simp)
  · rename_i left hcaller
    have hrun := h.stopping (by rw [hcaller]; trivial)
    split
    · exact hijackNext_of hidle rfl (by simp)
    · exact hijackNext_of (h.setCaller hold s.run (.stopWait left) .inl (by simp) (by simp) False.elim (fun _ => hrun))
        rfl (by simp)

/-! ### The steps of the task -/

/-- `socket` has given the task a descriptor. -/
theorem HijackOk.opensSocket (h : HijackOk s own lost) {t : ℕ} (ht : s.handle = some t) (hpc : s.task t = .created)
    {fd : ℕ} (hfree : s.opener fd = none) :
    HijackOk { s.goTo t (.opened (some fd)) with opener := Function.update s.opener fd (some .hijack) } (some fd)
      lost := by
  have hat : s.sock = none ∧ own = none := by
    have hat := h.at_task t ht
    rwa [hpc] at hat
  have hours : ∀ w, s.opener w = some .hijack ↔ w ∈ lost := by
    intro w
    rw [h.ours, hat.2]
    simp
  have hpast : ¬ (s.task t).Past := by
    rw [hpc]
    exact id
  refine
    { ours := ?_
      kept := ?_
      live := h.live_update ht (by simp)
      fresh := h.fresh_update ht _
      rest := fun hnone => absurd (ht.symm.trans hnone) (by simp)
      at_task := task_update ht (P := Hijack.At _ (some fd)) ⟨hat.1, rfl⟩
      told := fun _ => task_update ht (P := Hijack.Told _ (some fd)) trivial
      clears := fun w hw => absurd ((h.clears w hw).1 t ht) hpast
      closes := fun w hw => absurd ((h.closes w hw).1 t ht) hpast
      starting := h.starting
      stopping := h.stopping }
  · intro w
    show Function.update s.opener fd (some .hijack) w = _ ↔ _
    by_cases hw : w = fd
    · rw [hw, Function.update_self]
      exact iff_of_true rfl (.inr rfl)
    · rw [Function.update_of_ne hw, hours, Option.some.injEq]
      exact ⟨.inl, fun hor => hor.resolve_right (Ne.symm hw)⟩
  · intro w hw hmem
    cases hw
    rw [← hours, hfree] at hmem
    exact absurd hmem (by simp)

/-- The task stores its socket. -/
theorem HijackOk.stores (h : HijackOk s own lost) {t : ℕ} (ht : s.handle = some t) {fd : Option ℕ}
    (hpc : s.task t = .opened fd) : HijackOk { s.goTo t .checkSock with sock := fd } own lost := by
  have hat : s.sock = none ∧ own = fd := by
    have hat := h.at_task t ht
    rwa [hpc] at hat
  have hpast : ¬ (s.task t).Past := by
    rw [hpc]
    exact id
  exact
    { ours := h.ours
      kept := h.kept
      live := h.live_update ht (by simp)
      fresh := h.fresh_update ht _
      rest := fun hnone => absurd (ht.symm.trans hnone) (by simp)
      at_task := task_update ht (P := Hijack.At _ own) (.inl hat.2.symm)
      told := fun _ => task_update ht (P := Hijack.Told _ own) trivial
      clears := fun w hw => absurd ((h.clears w hw).1 t ht) hpast
      closes := fun w hw => absurd ((h.closes w hw).1 t ht) hpast
      starting := h.starting
      stopping := h.stopping }

/-- The task has closed its socket and clears `s_sock`. -/
theorem HijackOk.clearsSock (h : HijackOk s own lost) {t : ℕ} (ht : s.handle = some t)
    (hpc : s.task t = .clearSock) : HijackOk { s.goTo t .clearTask with sock := none } own lost := by
  have hat : own = none ∨ s.Taken own := by
    have hat := h.at_task t ht
    rw [hpc] at hat
    exact hat.2
  exact
    { ours := h.ours
      kept := h.kept
      live := h.live_update ht (by simp)
      fresh := h.fresh_update ht _
      rest := fun hnone => absurd (ht.symm.trans hnone) (by simp)
      at_task := task_update ht (P := Hijack.At _ own) ⟨rfl, hat.elim .inl And.right⟩
      told := fun _ => task_update ht (P := Hijack.Told _ own) trivial
      clears := fun w hw => ⟨task_update ht trivial, (h.clears w hw).2⟩
      closes := fun w hw => ⟨task_update ht trivial, (h.closes w hw).2.imp_left fun hw => ⟨hw.1, rfl⟩⟩
      starting := h.starting
      stopping := h.stopping }

/-- The task clears `s_dns_task`, its last access. -/
theorem HijackOk.leaves (h : HijackOk s own lost) {t : ℕ} (ht : s.handle = some t) (hpc : s.task t = .clearTask) :
    HijackOk { s.goTo t .gone with handle := none } own lost := by
  have hat : s.Taken own := by
    have hat := h.at_task t ht
    rwa [hpc] at hat
  have hgone : ∀ u, Function.update s.task t .gone u = .gone := by
    intro u
    by_cases hu : u = t
    · rw [hu, Function.update_self]
    · rw [Function.update_of_ne hu]
      by_contra hne
      exact hu ((task_eq ht u).mp ((h.live u).mp hne))
  exact
    { ours := h.ours
      kept := h.kept
      live := fun u => iff_of_false (not_not.mpr (hgone u)) (by simp)
      fresh := fun u _ => hgone u
      rest := fun _ => hat
      at_task := fun u hu => absurd hu (by simp)
      told := fun _ u hu => absurd hu (by simp)
      clears := fun w hw => ⟨fun u hu => absurd hu (by simp), (h.clears w hw).2⟩
      closes := fun w hw => ⟨fun u hu => absurd hu (by simp), (h.closes w hw).2⟩
      starting := fun _ => rfl
      stopping := h.stopping }

/-- A task that is told to run calls on its own socket. -/
theorem not_hit (h : HijackOk s own lost) {fd : Option ℕ} (hfd : s.run = true → fd = own) :
    HijackObs.hitOther true ∉ s.hits fd := by
  cases hrun : s.run with
  | true =>
      rw [hfd hrun, hits_own h]
      exact List.not_mem_nil
  | false =>
      unfold Hijack.hits
      rw [hrun]
      split <;> simp

theorem taskStep_next (h : HijackOk s own lost) (ip : Ip4) (t : ℕ) (io : DnsIo)
    (hfree : ∀ fd ∈ io.fd, s.opener fd = none) : HijackNext lost (s.taskStep ip t io) := by
  by_cases hgone : s.task t = .gone
  · rw [Hijack.taskStep, hgone]
    exact hijackNext_of h rfl (by simp)
  have ht := (h.live t).mp hgone
  have hat := h.at_task t ht
  have htold : s.run = true → s.Told own (s.task t) := fun hrun => h.told hrun t ht
  have hmove : ∀ {pc os}, pc ≠ .gone → pc.Past → s.At own pc → (s.run = true → s.Told own pc) → lostOf os = [] →
      HijackObs.hitOther true ∉ os → HijackNext lost (s.goTo t pc, os) :=
    fun hpc hpast hat htold => hijackNext_of (h.goTo ht _ hpc (fun _ => hpast) hat htold)
  cases hpc : s.task t <;> rw [hpc] at hat htold <;> simp only [Hijack.taskStep, hpc]
  case gone => exact absurd hpc hgone
  case created =>
    cases hfd : io.fd with
    | none =>
        refine hijackNext_of (h.goTo ht (.opened none) (by simp) ?_ ⟨hat.1, hat.2⟩ fun _ => trivial) rfl (by simp)
        rw [hpc]
        exact id
    | some fd => exact hijackNext_of (h.opensSocket ht hpc (hfree fd (by rw [hfd]; rfl))) rfl (by simp)
  case opened fd => exact hijackNext_of (h.stores ht hpc) rfl (by simp)
  case checkSock =>
    split
    · rename_i hsock
      have hnone : s.sock = none := by simpa using hsock
      refine hmove (by simp) trivial ?_ (fun _ => trivial) rfl (by simp)
      exact hat.elim (fun heq => ⟨hnone, .inl (heq.symm.trans hnone)⟩) id
    · exact hmove (by simp) trivial hat (fun _ => trivial) rfl (by simp)
  case bindArg => exact hmove (by simp) trivial hat (fun hrun => h.sock_of_run hrun hat) rfl (by simp)
  case binding fd =>
    have hhit := not_hit h htold
    split
    · rename_i hbound
      simp only [Hijack.bound, Bool.and_eq_true, Option.isNone_iff_eq_none] at hbound
      have hport := h.reopen s.opener fd (fun _ => Iff.rfl) fun w _ hw =>
        absurd (hbound.2.symm.trans hw) (by simp)
      refine hijackNext_of (hport.goTo ht .loopHead (by simp) (fun _ => trivial) hat fun hrun => ?_) (lostOf_hits fd) hhit
      cases fd with
      | none => exact absurd hbound.1.2 (by simp)
      | some w => exact ⟨w, (htold hrun).symm, rfl⟩
    · exact hmove (by simp) trivial hat (fun _ => trivial) (lostOf_hits fd) hhit
  case loopHead =>
    split
    · exact hmove (by simp) trivial hat htold rfl (by simp)
    · exact hmove (by simp) trivial hat (fun _ => trivial) rfl (by simp)
  case recvArg =>
    exact hmove (by simp) trivial hat (fun hrun => ⟨h.sock_of_run hrun hat, htold hrun⟩) rfl (by simp)
  case receiving fd =>
    have hhit := not_hit h fun hrun => (htold hrun).1
    split
    · exact hmove (by simp) trivial hat (fun _ => trivial) (lostOf_hits fd) hhit
    · exact hmove (by simp) trivial hat (fun hrun => (htold hrun).2) (lostOf_hits fd) hhit
  case received r =>
    split
    · split
      · exact hmove (by simp) trivial hat htold rfl (by simp)
      · exact hmove (by simp) trivial hat htold rfl (by simp)
    · exact hmove (by simp) trivial hat (fun _ => trivial) rfl (by simp)
  case sendArg reply =>
    exact hmove (by simp) trivial hat (fun hrun => ⟨h.sock_of_run hrun hat, htold hrun⟩) rfl (by simp)
  case sending fd reply =>
    exact hmove (by simp) trivial hat (fun hrun => (htold hrun).2) (lostOf_hits fd)
      (not_hit h fun hrun => (htold hrun).1)
  case endCheck =>
    split
    · rename_i hsock
      have hnone : s.sock = none := by simpa using hsock
      refine hmove (by simp) trivial ?_ (fun _ => trivial) rfl (by simp)
      exact hat.elim (fun heq => ⟨hnone, .inl (heq.symm.trans hnone)⟩) id
    · exact hmove (by simp) trivial hat (fun _ => trivial) rfl (by simp)
  case closeArg =>
    refine hmove (by simp) trivial ?_ (fun hrun => h.sock_of_run hrun hat) rfl (by simp)
    rcases hat with hsock | htaken
    · exact .inl ⟨hsock, .inl hsock⟩
    · exact .inr ⟨fun w hw => absurd (htaken.1.symm.trans hw) (by simp), htaken⟩
  case closing fd =>
    have hhit := not_hit h htold
    rcases hat with ⟨rfl, hsock⟩ | ⟨hstale, htaken⟩
    · exact hijackNext_of (h.closeByTask ht hsock) (lostOf_hits fd) hhit
    · refine hijackNext_of ((h.closeStale hstale).goTo ht .clearSock (by simp) (fun _ => trivial) ⟨?_, .inr htaken⟩
        fun _ => trivial) (lostOf_hits fd) hhit
      exact fun w hw => absurd (htaken.1.symm.trans hw) (by simp)
  case clearSock => exact hijackNext_of (h.clearsSock ht hpc) rfl (by simp)
  case clearTask => exact hijackNext_of (h.leaves ht hpc) rfl (by simp)

theorem HijackOk.call (h : HijackOk s own lost) {pc : CallerPc} (hclears : ∀ fd, pc ≠ .stopClear fd)
    (hcloses : ∀ fd, pc ≠ .stopClose fd) (hstarting : ¬ pc.Starting) (hstopping : ¬ pc.Stopping) :
    HijackOk (s.call pc) own lost := by
  unfold Hijack.call
  split
  · rename_i hcaller
    exact h.setCaller (fun ht => ht.none_of_ne (by simp [hcaller])) s.run pc .inl (fun w hw => absurd hw (hclears _))
      hcloses (fun hpc => absurd hpc hstarting) (fun hpc => absurd hpc hstopping)
  · exact h

theorem call_handle (s : Hijack) (pc : CallerPc) : (s.call pc).handle = s.handle := by
  unfold Hijack.call
  split
  · rfl
  · rfl

theorem hijack_next (h : HijackOk s own lost) (ip : Ip4) (e : HijackEvent) (hfree : s.Free e) :
    HijackNext lost (s.next ip e) := by
  cases e with
  | start => exact hijackNext_of (h.call (by simp) (by simp) id id) rfl (by simp)
  | stop => exact hijackNext_of (h.call (by simp) (by simp) id id) rfl (by simp)
  | caller createOk => exact callerStep_next h createOk
  | task t io => exact taskStep_next h ip t io hfree
  | «open» fd =>
      have hfd : s.opener fd = none := hfree
      refine hijackNext_of (h.reopen _ s.port (fun w => ?_) fun _ _ => id) rfl (by simp)
      by_cases hw : w = fd
      · rw [hw, Function.update_self, hfd]
        simp
      · rw [Function.update_of_ne hw]
  | close fd =>
      have hfd : s.opener fd = some .other := hfree
      refine hijackNext_of (h.closeStale ?_) rfl (by simp)
      intro w hw
      cases hw
      simp [hfd]

/-! ### Runs -/

theorem not_mem_hits {o : HijackObs} (fd : Option ℕ) (ho : ∀ run, o ≠ .hitOther run) : o ∉ s.hits fd := by
  unfold Hijack.hits
  split
  · simpa using ho s.run
  · simp

/-- A task takes its handle away at most, and puts out what its calls meet. -/
theorem taskStep_frame (s : Hijack) (ip : Ip4) (t : ℕ) (io : DnsIo) :
    ((s.taskStep ip t io).1.handle ≠ none → s.handle ≠ none) ∧
      ∀ o, (∀ run, o ≠ HijackObs.hitOther run) → o ∉ (s.taskStep ip t io).2 := by
  cases hpc : s.task t <;> simp only [Hijack.taskStep, hpc]
  case gone | opened | checkSock | bindArg | loopHead | recvArg | sendArg | endCheck | closeArg | clearSock =>
    exact ⟨id, fun _ _ => List.not_mem_nil⟩
  case created =>
    split
    · exact ⟨id, fun _ _ => List.not_mem_nil⟩
    · exact ⟨id, fun _ _ => List.not_mem_nil⟩
  case binding fd =>
    split
    · exact ⟨id, fun _ => not_mem_hits fd⟩
    · exact ⟨id, fun _ => not_mem_hits fd⟩
  case receiving fd =>
    split
    · exact ⟨id, fun _ => not_mem_hits fd⟩
    · exact ⟨id, fun _ => not_mem_hits fd⟩
  case received r =>
    split
    · split
      · exact ⟨id, fun _ _ => List.not_mem_nil⟩
      · exact ⟨id, fun _ _ => List.not_mem_nil⟩
    · exact ⟨id, fun _ _ => List.not_mem_nil⟩
  case sending fd reply => exact ⟨id, fun _ => not_mem_hits fd⟩
  case closing fd => exact ⟨id, fun _ => not_mem_hits fd⟩
  case clearTask => exact ⟨fun hne => absurd rfl hne, fun _ _ => List.not_mem_nil⟩

/-- What the event loop puts out about the handle. -/
theorem callerStep_frame (s : Hijack) (createOk : Bool) :
    ((s.callerStep createOk).1.handle ≠ none →
      (s.callerStep createOk).2 = [.created] ∨ s.handle ≠ none ∧ HijackObs.stopped ∉ (s.callerStep createOk).2) ∧
      (HijackObs.skipped ∈ (s.callerStep createOk).2 →
        (s.callerStep createOk).2 = [.skipped] ∧ s.handle ≠ none) := by
  unfold Hijack.callerStep
  split
  · exact ⟨fun hne => .inr ⟨hne, List.not_mem_nil⟩, fun hmem => absurd hmem List.not_mem_nil⟩
  · split
    · rename_i hhandle
      have hne := Option.isSome_iff_ne_none.mp hhandle
      exact ⟨fun _ => .inr ⟨hne, by simp⟩, fun _ => ⟨rfl, hne⟩⟩
    · exact ⟨fun hne => .inr ⟨hne, List.not_mem_nil⟩, fun hmem => absurd hmem List.not_mem_nil⟩
  · exact ⟨fun hne => .inr ⟨hne, List.not_mem_nil⟩, fun hmem => absurd hmem List.not_mem_nil⟩
  · split
    · exact ⟨fun _ => .inl rfl, fun hmem => absurd hmem (by simp)⟩
    · exact ⟨fun hne => absurd rfl hne, fun hmem => absurd hmem List.not_mem_nil⟩
  · split
    · rename_i hhandle
      exact ⟨fun hne => absurd (Option.isNone_iff_eq_none.mp hhandle) hne, fun hmem => absurd hmem (by simp)⟩
    · exact ⟨fun hne => .inr ⟨hne, List.not_mem_nil⟩, fun hmem => absurd hmem List.not_mem_nil⟩
  · exact ⟨fun hne => .inr ⟨hne, List.not_mem_nil⟩, fun hmem => absurd hmem List.not_mem_nil⟩
  · exact ⟨fun hne => .inr ⟨hne, List.not_mem_nil⟩, fun hmem => absurd hmem List.not_mem_nil⟩
  · exact ⟨fun hne => .inr ⟨hne, by simp⟩, fun hmem => absurd hmem (by simp)⟩
  · rename_i read _
    exact ⟨fun hne => .inr ⟨hne, not_mem_hits read (by simp)⟩, fun hmem => absurd hmem (not_mem_hits read (by simp))⟩
  · exact ⟨fun hne => .inr ⟨hne, by simp⟩, fun hmem => absurd hmem (by simp)⟩
  · split
    · rename_i hhandle
      exact ⟨fun hne => absurd (Option.isNone_iff_eq_none.mp hhandle) hne, fun hmem => absurd hmem (by simp)⟩
    · exact ⟨fun hne => .inr ⟨hne, List.not_mem_nil⟩, fun hmem => absurd hmem List.not_mem_nil⟩

theorem next_frame (s : Hijack) (ip : Ip4) (e : HijackEvent) :
    ((s.next ip e).1.handle ≠ none →
      (s.next ip e).2 = [.created] ∨ s.handle ≠ none ∧ HijackObs.stopped ∉ (s.next ip e).2) ∧
      (HijackObs.skipped ∈ (s.next ip e).2 → (s.next ip e).2 = [.skipped] ∧ s.handle ≠ none) := by
  have hsilent : ∀ s' : Hijack, s'.handle = s.handle → (s'.handle ≠ none →
      ([] : List HijackObs) = [.created] ∨ s.handle ≠ none ∧ HijackObs.stopped ∉ ([] : List HijackObs)) ∧
      (HijackObs.skipped ∈ ([] : List HijackObs) → ([] : List HijackObs) = [.skipped] ∧ s.handle ≠ none) :=
    fun s' hs => ⟨fun hne => .inr ⟨hs ▸ hne, List.not_mem_nil⟩, fun hmem => absurd hmem List.not_mem_nil⟩
  cases e with
  | start => exact hsilent _ (call_handle s .startCheck)
  | stop => exact hsilent _ (call_handle s .stopCheck)
  | caller createOk => exact callerStep_frame s createOk
  | task t io =>
      have hframe := taskStep_frame s ip t io
      exact ⟨fun hne => .inr ⟨hframe.1 hne, hframe.2 _ (by simp)⟩, fun hmem => absurd hmem (hframe.2 _ (by simp))⟩
  | «open» fd => exact hsilent _ rfl
  | close fd => exact hsilent _ rfl

/-- A task was created, and no stop has seen it gone since. -/
def TaskSince (os : List HijackObs) : Prop := Since .created (fun _ => True) (fun o => o ≠ .stopped) os

/-- A start skips the creation of a task only where one was created, and no stop has seen it gone since. -/
def SkipsInPlace (os : List HijackObs) : Prop := InPlace (fun pre o => o = .skipped → TaskSince pre) os

/-- What a run gives. -/
structure HijackRun (s : Hijack) (os : List HijackObs) : Prop where
  ok : ∃ own, HijackOk s own (lostOf os)
  hits : HijackObs.hitOther true ∉ os
  since : s.handle ≠ none → TaskSince os
  skips : SkipsInPlace os

theorem hijackRun_init : HijackRun hijackInit [] where
  ok :=
    ⟨none,
      { ours := fun fd => iff_of_false (by simp [hijackInit]) (by simp [lostOf])
        kept := fun fd hfd => absurd hfd (by simp)
        live := fun t => iff_of_false (by simp [hijackInit]) (by simp [hijackInit])
        fresh := fun t _ => rfl
        rest := fun _ => ⟨rfl, .inl rfl⟩
        at_task := fun t ht => absurd ht (by simp [hijackInit])
        told := fun _ t ht => absurd ht (by simp [hijackInit])
        clears := fun w hw => absurd hw (by simp [hijackInit])
        closes := fun w hw => absurd hw (by simp [hijackInit])
        starting := fun _ => rfl
        stopping := fun _ => rfl }⟩
  hits := List.not_mem_nil
  since := fun hne => absurd rfl hne
  skips := inPlace_nil _

theorem HijackRun.step {os : List HijackObs} (h : HijackRun s os) (ip : Ip4) (e : HijackEvent) (hfree : s.Free e) :
    HijackRun ((hijack ip).step s e) (os ++ (hijack ip).out s e) := by
  obtain ⟨own, hok⟩ := h.ok
  obtain ⟨hnext, hhit⟩ := hijack_next hok ip e hfree
  obtain ⟨hhandle, hskipped⟩ := next_frame s ip e
  refine
    { ok := ?_
      hits := fun hmem => (List.mem_append.mp hmem).elim h.hits hhit
      since := ?_
      skips := ?_ }
  · rw [lostOf, List.filterMap_append]
    exact hnext
  · intro hne
    rcases hhandle hne with hcreated | ⟨hold, hstopped⟩
    · show TaskSince (os ++ (s.next ip e).2)
      rw [hcreated]
      exact (since_concat os .created).mpr (.inl ⟨rfl, trivial⟩)
    · exact (h.since hold).append fun o ho heq => hstopped (heq ▸ ho)
  · refine (inPlace_append os _).mpr ⟨h.skips, ?_⟩
    show InPlace (fun pre o => o = .skipped → TaskSince (os ++ pre)) (s.next ip e).2
    by_cases hmem : HijackObs.skipped ∈ (s.next ip e).2
    · obtain ⟨hout, hold⟩ := hskipped hmem
      rw [hout]
      refine inPlace_singleton fun _ => ?_
      rw [List.append_nil]
      exact h.since hold
    · exact inPlace_of_forall fun o ho pre heq => absurd (heq ▸ ho) hmem

/-- Calls that succeed, where no datagram comes. -/
def demoIo : DnsIo := ⟨none, true, none⟩

/-- A start, and the task up to its `recvfrom`. -/
def demoStarted : List HijackEvent :=
  [.start] ++ List.replicate 3 (.caller true) ++ [.task 0 ⟨some 3, true, none⟩] ++ List.replicate 6 (.task 0 demoIo)

/-- Then a stop, which waits for the task. -/
def demoHijack : List HijackEvent :=
  demoStarted ++ [.stop] ++ List.replicate 6 (.caller true) ++ List.replicate 3 (.task 0 demoIo) ++ [.caller true]

/-- A stop that has read `s_sock` before the task stores its socket, and clears it after that.  The task ends without
closing the socket, which stays bound. -/
def demoLeak : List HijackEvent :=
  [.start] ++ List.replicate 3 (.caller true) ++ [.task 0 ⟨some 3, true, none⟩] ++
    [.stop] ++ List.replicate 3 (.caller true) ++ List.replicate 4 (.task 0 demoIo) ++
    List.replicate 2 (.caller true) ++ List.replicate 3 (.task 0 demoIo) ++ [.caller true]

example : (hijack ⟨[192, 168, 4, 1], rfl⟩).outputs hijackInit demoLeak = [.created, .lost 3, .stopped] ∧
    ((hijack ⟨[192, 168, 4, 1], rfl⟩).run hijackInit demoLeak).port = some 3 := by decide

end RtkdataFw.DnsServer
