import RtkdataFw.Lib.Machine
import RtkdataFw.Lib.Packed

/-!
# The instances and their registry

`ntrip_server_init` allocates an instance, registers it and starts its task, index by index, while the tasks that
run already may fail to set themselves up, take their instance out again and free it, and while the UART task and
others walk over the registry.  `g_instances_mutex` is held for a whole walk, one cell a step; whoever else needs
it waits.  An access to an instance that is not allocated is a fault, and so is one outside the array.

* `InitPc`, `TaskPc` — where `ntrip_server_init` and the server tasks stand;
* `servers` — the machine of all of them, with the heap;
* `ServersOk` — the registry lists who is to be listed, the heap has who is owned;
* `instances_safe` — nothing faults, walks see every listed instance once, nothing leaks.
-/

namespace RtkdataFw.NtripServer

open RtkdataFw.Lib

/-- `NTRIP_MAX_INSTANCES`. -/
def maxNtripServers : ℕ := 10

/-- `ntrip_server_init`: before its mutex, before an index, or behind a statement for it, with the instance. -/
inductive InitPc where
  | start
  | next (i : ℕ)
  | allocated (i a : ℕ)
  | refused (i a : ℕ)
  | registered (i a : ℕ)
  | failed (i a : ℕ)
  | dropped (i a : ℕ)
  | done
  deriving DecidableEq, Repr

/-- The server task of an instance. -/
inductive TaskPc where
  | none
  | starting
  | running
  /-- In `ntrip_server_abort_task_init`. -/
  | aborting
  | deregistered
  deriving DecidableEq, Repr

/-- What the calls of one step of `ntrip_server_init` return. -/
structure InitIo where
  mutexOk : Bool
  ringOk : Bool
  active : Bool
  mem : Option ℕ
  created : Bool

/-- The instances that are allocated, `g_instances` with its count, and the tasks.  A walk holds the mutex: at
which index it is, and whom it has seen. -/
structure Servers where
  heap : List ℕ
  instances : Packed ℕ
  mutex : Bool
  walk : Option (ℕ × List ℕ)
  init : InitPc
  task : ℕ → TaskPc

def serversInit : Servers where
  heap := []
  instances := Packed.empty maxNtripServers
  mutex := false
  walk := none
  init := .start
  task := fun _ => .none

inductive ServersEvent where
  | init (io : InitIo)
  /-- A step of a server task, with what `xEventGroupCreate` and the `xTaskCreate` of its sleep task return. -/
  | server (a : ℕ) (eventsOk sleepOk : Bool)
  | sleep (a : ℕ)
  | walk

inductive ServersObs where
  | touched (a : ℕ)
  | freed (a : ℕ)
  | fault
  /-- A walk is over; it saw these. -/
  | walked (seen : List ℕ)
  deriving DecidableEq, Repr

namespace Servers

variable (s : Servers)

/-- An access to the instance at `a`. -/
def access (a : ℕ) : List ServersObs := if a ∈ s.heap then [.touched a] else [.fault]

/-- `free(inst)`. -/
def free (a : ℕ) : Servers × List ServersObs :=
  ({ s with heap := s.heap.erase a }, if a ∈ s.heap then [.freed a] else [.fault])

/-- `ntrip_server_deregister_instance`, once it has the mutex. -/
def deregisterInstance (a : ℕ) : Servers × List ServersObs :=
  match s.instances.remove a with
  | none => (s, [.fault])
  | some p => ({ s with instances := p }, [])

/-- One step of `ntrip_server_init`. -/
def initStep (io : InitIo) : Servers × List ServersObs :=
  match s.init with
  | .start =>
      if !io.mutexOk then ({ s with init := .done }, [])
      else if !io.ringOk then ({ s with mutex := true, init := .done }, [])
      else ({ s with mutex := true, init := .next 0 }, [])
  | .next i =>
      if i < maxNtripServers then
        if io.active then
          match io.mem with
          | none => ({ s with init := .next (i + 1) }, [])
          | some a => ({ s with heap := a :: s.heap, init := .allocated i a }, [])
        else ({ s with init := .next (i + 1) }, [])
      else ({ s with init := .done }, [])
  | .allocated i a =>
      if s.walk.isSome then (s, [])
      else
        match s.instances.push maxNtripServers a with
        | none => (s, [.fault])
        | some (p, true) => ({ s with instances := p, init := .registered i a }, s.access a)
        | some (p, false) => ({ s with instances := p, init := .refused i a }, s.access a)
  | .refused i a => ({ (s.free a).1 with init := .next (i + 1) }, (s.free a).2)
  | .registered i a =>
      -- the handle is stored before the task runs
      if io.created then ({ s with task := Function.update s.task a .starting, init := .next (i + 1) }, s.access a)
      else ({ s with init := .failed i a }, [])
  | .failed i a =>
      if s.walk.isSome then (s, [])
      else ({ (s.deregisterInstance a).1 with init := .dropped i a }, (s.deregisterInstance a).2)
  | .dropped i a => ({ (s.free a).1 with init := .next (i + 1) }, (s.free a).2)
  | .done => (s, [])

/-- One step of the server task of `a`: `ntrip_server_init_task_context`, `ntrip_server_abort_task_init`, and
anything after them. -/
def serverStep (a : ℕ) (eventsOk sleepOk : Bool) : Servers × List ServersObs :=
  match s.task a with
  | .none => (s, [])
  | .starting =>
      ({ s with task := Function.update s.task a (if eventsOk && sleepOk then .running else .aborting) }, s.access a)
  | .running => (s, s.access a)
  | .aborting =>
      if s.walk.isSome then (s, [])
      else
        ({ (s.deregisterInstance a).1 with task := Function.update s.task a .deregistered },
          (s.deregisterInstance a).2)
  | .deregistered =>
      -- inst->ev is read, and deleted
      ({ (s.free a).1 with task := Function.update s.task a .none }, s.access a ++ (s.free a).2)

/-- One step of a walk, as `ntrip_server_ingest_uart`, `ntrip_server_reconnect_all`, `ntrip_server_tx_stats` and
`ntrip_server_tx_totals` make it. -/
def walkStep : Servers × List ServersObs :=
  match s.walk with
  | none => (if s.mutex then { s with walk := some (0, []) } else s, [])
  | some (k, seen) =>
      if k < s.instances.count then
        match s.instances.cells[k]? with
        | none => (s, [.fault])
        | some none => ({ s with walk := some (k + 1, seen) }, [])
        | some (some a) => ({ s with walk := some (k + 1, seen ++ [a]) }, s.access a)
      else ({ s with walk := none }, [.walked seen])

def sleepStep (a : ℕ) : Servers × List ServersObs :=
  (s, if s.task a = .running then s.access a else [])

def next : ServersEvent → Servers × List ServersObs
  | .init io => s.initStep io
  | .server a eventsOk sleepOk => s.serverStep a eventsOk sleepOk
  | .sleep a => s.sleepStep a
  | .walk => s.walkStep

end Servers

def servers : Machine Servers ServersEvent ServersObs where
  step s e := (s.next e).1
  out s e := (s.next e).2

/-- `calloc` gives memory that is not allocated. -/
def Servers.Fresh (s : Servers) : ServersEvent → Prop
  | .init io => ∀ a ∈ io.mem, a ∉ s.heap
  | _ => True

instance (s : Servers) (e : ServersEvent) : Decidable (s.Fresh e) :=
  match e with
  | .init io => inferInstanceAs (Decidable (∀ a ∈ io.mem, a ∉ s.heap))
  | .server .. | .sleep _ | .walk => isTrue trivial

/-! ### Who owns an instance, and who is listed -/

/-- The instance that `ntrip_server_init` has in its hands. -/
def InitPc.inst : InitPc → Option ℕ
  | .allocated _ a | .refused _ a | .registered _ a | .failed _ a | .dropped _ a => some a
  | _ => none

/-- The instance that it has registered, with no task yet. -/
def InitPc.listed : InitPc → Option ℕ
  | .registered _ a | .failed _ a => some a
  | _ => none

/-- At most so many are registered. -/
def InitPc.room : InitPc → ℕ
  | .start => 0
  | .next i | .allocated i _ | .refused i _ | .dropped i _ => i
  | .registered i _ | .failed i _ => i + 1
  | .done => maxNtripServers

/-- It has come so far. -/
def InitPc.index : InitPc → ℕ
  | .start => 0
  | .next i => i
  | .allocated i _ | .refused i _ | .registered i _ | .failed i _ | .dropped i _ => i + 1
  | .done => maxNtripServers

def TaskPc.Listed : TaskPc → Prop
  | .starting | .running | .aborting => True
  | _ => False

def Servers.Listed (s : Servers) (a : ℕ) : Prop := s.init.listed = some a ∨ (s.task a).Listed

def Servers.Owned (s : Servers) (a : ℕ) : Prop := s.init.inst = some a ∨ s.task a ≠ .none

/-- The registry and the heap are as the tasks stand. -/
structure ServersOk (s : Servers) (xs : List ℕ) : Prop where
  holds : s.instances.Holds maxNtripServers xs
  nodup : xs.Nodup
  listed : ∀ a, a ∈ xs ↔ s.Listed a
  heapNodup : s.heap.Nodup
  heap : ∀ a, a ∈ s.heap ↔ s.Owned a
  apart : ∀ a, s.init.inst = some a → s.task a = .none
  room : xs.length ≤ s.init.room
  index : s.init.index ≤ maxNtripServers
  accepted : ∀ i a, s.init ≠ .refused i a
  walk : ∀ k seen, s.walk = some (k, seen) → k ≤ xs.length ∧ seen = xs.take k

variable {s : Servers} {xs : List ℕ}

theorem ServersOk.owned_of_listed (h : ServersOk s xs) {a : ℕ} (ha : a ∈ xs) : a ∈ s.heap := by
  rw [h.heap]
  rcases (h.listed a).mp ha with hinit | htask
  · left
    cases hpc : s.init <;> simp_all [InitPc.listed, InitPc.inst]
  · right
    intro hnone
    rw [hnone] at htask
    exact htask

theorem fault_not_mem_access {a : ℕ} (ha : a ∈ s.heap) : ServersObs.fault ∉ s.access a := by
  rw [Servers.access, if_pos ha]
  simp

/-- Another place of `ntrip_server_init`, and nothing else. -/
theorem ServersOk.setInit (h : ServersOk s xs) (mutex : Bool) {pc : InitPc} (hinst : pc.inst = s.init.inst)
    (hlisted : pc.listed = s.init.listed) (hroom : s.init.room ≤ pc.room) (hindex : pc.index ≤ maxNtripServers)
    (haccepted : ∀ i a, pc ≠ .refused i a) : ServersOk { s with mutex := mutex, init := pc } xs where
  holds := h.holds
  nodup := h.nodup
  listed a := by
    rw [h.listed, Servers.Listed, Servers.Listed, hlisted]
  heapNodup := h.heapNodup
  heap a := by
    rw [h.heap, Servers.Owned, Servers.Owned, hinst]
  apart a ha := h.apart a (hinst ▸ ha)
  room := Nat.le_trans h.room hroom
  index := hindex
  accepted := haccepted
  walk := h.walk

/-- Another place of a server task that stays listed. -/
theorem ServersOk.setTask (h : ServersOk s xs) {a : ℕ} {pc : TaskPc} (hold : (s.task a).Listed) (hnew : pc.Listed) :
    ServersOk { s with task := Function.update s.task a pc } xs where
  holds := h.holds
  nodup := h.nodup
  listed b := by
    rw [h.listed]
    by_cases hb : b = a
    · subst hb
      exact iff_of_true (.inr hold) (.inr (by simpa using hnew))
    · simp [Servers.Listed, hb]
  heapNodup := h.heapNodup
  heap b := by
    rw [h.heap]
    by_cases hb : b = a
    · subst hb
      refine iff_of_true (.inr fun hnone => ?_) (.inr fun hnone => ?_)
      · rw [hnone] at hold
        exact hold
      · simp only [Function.update_self] at hnone
        rw [hnone] at hnew
        exact hnew
    · simp [Servers.Owned, hb]
  apart b hb := by
    have hnone := h.apart b hb
    have hne : b ≠ a := by
      rintro rfl
      rw [hnone] at hold
      exact hold
    simpa [hne] using hnone
  room := h.room
  index := h.index
  accepted := h.accepted
  walk := h.walk

/-- Deregistering an instance, outside any walk. -/
theorem deregister_spec (h : ServersOk s xs) (a : ℕ) :
    ∃ p, s.deregisterInstance a = ({ s with instances := p }, []) ∧ p.Holds maxNtripServers (xs.erase a) := by
  obtain ⟨p, hremove, hholds⟩ := Packed.remove_holds h.holds a
  refine ⟨p, ?_, hholds⟩
  rw [Servers.deregisterInstance, hremove]

theorem free_obs {a : ℕ} (ha : a ∈ s.heap) : ServersObs.fault ∉ (s.free a).2 := by
  show ServersObs.fault ∉ (if a ∈ s.heap then [.freed a] else [.fault])
  rw [if_pos ha]
  simp

/-- Freeing what `ntrip_server_init` has in its hands, unlisted. -/
theorem ServersOk.freeInit (h : ServersOk s xs) {i a : ℕ} (hinst : s.init.inst = some a)
    (hlisted : s.init.listed = none) (hroom : s.init.room ≤ i) (hindex : i ≤ maxNtripServers) :
    ServersOk { (s.free a).1 with init := .next i } xs where
  holds := h.holds
  nodup := h.nodup
  listed b := by
    rw [h.listed, Servers.Listed, Servers.Listed, hlisted]
    rfl
  heapNodup := h.heapNodup.erase a
  heap b := by
    show b ∈ s.heap.erase a ↔ none = some b ∨ s.task b ≠ .none
    rw [h.heapNodup.mem_erase_iff, h.heap, Servers.Owned, hinst]
    constructor
    · rintro ⟨hne, hsome | htask⟩
      · exact absurd (Option.some.inj hsome).symm hne
      · exact .inr htask
    · rintro (hnone | htask)
      · cases hnone
      · refine ⟨?_, .inr htask⟩
        rintro rfl
        exact htask (h.apart b hinst)
  apart b hb := by cases hb
  room := Nat.le_trans h.room hroom
  index := hindex
  accepted _ _ := by simp
  walk := h.walk

/-- A new instance in the hands of `ntrip_server_init`. -/
theorem ServersOk.alloc (h : ServersOk s xs) {i a : ℕ} (hpc : s.init = .next i) (hi : i < maxNtripServers)
    (hfresh : a ∉ s.heap) : ServersOk { s with heap := a :: s.heap, init := .allocated i a } xs where
  holds := h.holds
  nodup := h.nodup
  listed b := by
    rw [h.listed, Servers.Listed, Servers.Listed, hpc]
    rfl
  heapNodup := List.nodup_cons.mpr ⟨hfresh, h.heapNodup⟩
  heap b := by
    show b ∈ a :: s.heap ↔ some a = some b ∨ s.task b ≠ .none
    rw [List.mem_cons, h.heap, Servers.Owned, hpc]
    constructor
    · rintro (rfl | hnone | htask)
      · exact .inl rfl
      · cases hnone
      · exact .inr htask
    · rintro (hsome | htask)
      · exact .inl (Option.some.inj hsome).symm
      · exact .inr (.inr htask)
  apart b hb := by
    obtain rfl : a = b := Option.some.inj hb
    by_contra htask
    exact hfresh ((h.heap a).mpr (.inr htask))
  room := by
    have hroom := h.room
    rw [hpc] at hroom
    exact hroom
  index := hi
  accepted _ _ := by simp
  walk := h.walk

/-- It is registered: there is always room. -/
theorem ServersOk.register (h : ServersOk s xs) {i a : ℕ} (hpc : s.init = .allocated i a) (hi : i < maxNtripServers)
    (hwalk : s.walk = none) : ∃ p, s.instances.push maxNtripServers a = some (p, true) ∧
      ServersOk { s with instances := p, init := .registered i a } (xs ++ [a]) := by
  have hroom := h.room
  have hinst : s.init.inst = some a := by rw [hpc]; rfl
  rw [hpc] at hroom
  obtain ⟨p, hpush, hholds⟩ := Packed.push_holds h.holds (Nat.lt_of_le_of_lt hroom hi) a
  have hnew : a ∉ xs := by
    rw [h.listed, Servers.Listed, hpc, h.apart a hinst]
    exact fun hlisted => hlisted.elim (fun hnone => by cases hnone) id
  refine ⟨p, hpush, ⟨hholds, ?_, ?_, h.heapNodup, ?_, ?_, ?_, hi, by simp, ?_⟩⟩
  · exact List.nodup_append.mpr ⟨h.nodup, List.nodup_singleton a, fun b hb c hc hbc => by
      rw [List.mem_singleton] at hc
      exact hnew (hc ▸ hbc ▸ hb)⟩
  · intro b
    show b ∈ xs ++ [a] ↔ some a = some b ∨ (s.task b).Listed
    rw [List.mem_append, List.mem_singleton, h.listed, Servers.Listed, hpc]
    constructor
    · rintro ((hnone | htask) | rfl)
      · cases hnone
      · exact .inr htask
      · exact .inl rfl
    · rintro (hsome | htask)
      · exact .inr (Option.some.inj hsome).symm
      · exact .inl (.inr htask)
  · intro b
    rw [h.heap, Servers.Owned, hinst]
    rfl
  · exact fun b hb => h.apart b (hinst.trans hb)
  · rw [List.length_append, List.length_singleton]
    exact Nat.succ_le_succ hroom
  · intro k seen hsome
    rw [hwalk] at hsome
    cases hsome

/-- Its task starts. -/
theorem ServersOk.spawn (h : ServersOk s xs) {i a : ℕ} (hpc : s.init = .registered i a) :
    ServersOk { s with task := Function.update s.task a .starting, init := .next (i + 1) } xs where
  holds := h.holds
  nodup := h.nodup
  listed b := by
    rw [h.listed, Servers.Listed, hpc]
    by_cases hb : b = a
    · subst hb
      exact iff_of_true (.inl rfl) (.inr (by simp [TaskPc.Listed]))
    · simp [Servers.Listed, InitPc.listed, hb, Ne.symm hb]
  heapNodup := h.heapNodup
  heap b := by
    rw [h.heap, Servers.Owned, hpc]
    by_cases hb : b = a
    · subst hb
      exact iff_of_true (.inl rfl) (.inr (by simp))
    · simp [Servers.Owned, InitPc.inst, hb, Ne.symm hb]
  apart b hb := by cases hb
  room := by
    have hroom := h.room
    rw [hpc] at hroom
    exact hroom
  index := by
    have hindex := h.index
    rw [hpc] at hindex
    exact hindex
  accepted _ _ := by simp
  walk := h.walk

/-- Its task could not be created, and it is taken out again. -/
theorem ServersOk.drop (h : ServersOk s xs) {i a : ℕ} (hpc : s.init = .failed i a) {p : Packed ℕ}
    (hholds : p.Holds maxNtripServers (xs.erase a)) (hwalk : s.walk = none) :
    ServersOk { s with instances := p, init := .dropped i a } (xs.erase a) where
  holds := hholds
  nodup := h.nodup.erase a
  listed b := by
    show b ∈ xs.erase a ↔ none = some b ∨ (s.task b).Listed
    rw [h.nodup.mem_erase_iff, h.listed, Servers.Listed, hpc]
    constructor
    · rintro ⟨hne, hsome | htask⟩
      · exact absurd (Option.some.inj hsome).symm hne
      · exact .inr htask
    · rintro (hnone | htask)
      · cases hnone
      · refine ⟨?_, .inr htask⟩
        rintro rfl
        rw [h.apart b (by rw [hpc]; rfl)] at htask
        exact htask
  heapNodup := h.heapNodup
  heap b := by
    rw [h.heap, Servers.Owned, hpc]
    rfl
  apart b hb := h.apart b (by rw [hpc]; exact hb)
  room := by
    have hroom := h.room
    have hmem : a ∈ xs := (h.listed a).mpr (.inl (by rw [hpc]; rfl))
    rw [hpc] at hroom
    rw [List.length_erase_of_mem hmem]
    exact Nat.sub_le_of_le_add hroom
  index := by
    have hindex := h.index
    rw [hpc] at hindex
    exact hindex
  accepted _ _ := by simp
  walk k seen hsome := by
    rw [hwalk] at hsome
    cases hsome

/-- A task takes its instance out of the registry. -/
theorem ServersOk.deregister (h : ServersOk s xs) {a : ℕ} (hpc : s.task a = .aborting) {p : Packed ℕ}
    (hholds : p.Holds maxNtripServers (xs.erase a)) (hwalk : s.walk = none) :
    ServersOk { s with instances := p, task := Function.update s.task a .deregistered } (xs.erase a) where
  holds := hholds
  nodup := h.nodup.erase a
  listed b := by
    rw [h.nodup.mem_erase_iff, h.listed]
    by_cases hb : b = a
    · subst hb
      refine iff_of_false (fun hmem => hmem.1 rfl) ?_
      rintro (hinit | htask)
      · have hinst : s.init.inst = some b := by
          revert hinit
          show s.init.listed = some b → _
          cases s.init <;> simp [InitPc.listed, InitPc.inst]
        rw [h.apart b hinst] at hpc
        cases hpc
      · simp [TaskPc.Listed] at htask
    · simp [Servers.Listed, hb]
  heapNodup := h.heapNodup
  heap b := by
    rw [h.heap]
    by_cases hb : b = a
    · subst hb
      exact iff_of_true (.inr (by simp [hpc])) (.inr (by simp))
    · simp [Servers.Owned, hb]
  apart b hb := by
    have hnone := h.apart b hb
    have hne : b ≠ a := by
      rintro rfl
      rw [hnone] at hpc
      cases hpc
    simpa [hne] using hnone
  room := Nat.le_trans List.length_erase_le h.room
  index := h.index
  accepted := h.accepted
  walk k seen hsome := by
    rw [hwalk] at hsome
    cases hsome

/-- A task frees its instance, and deletes itself. -/
theorem ServersOk.freeTask (h : ServersOk s xs) {a : ℕ} (hpc : s.task a = .deregistered) :
    ServersOk { (s.free a).1 with task := Function.update s.task a .none } xs where
  holds := h.holds
  nodup := h.nodup
  listed b := by
    rw [h.listed]
    by_cases hb : b = a
    · subst hb
      simp [Servers.Listed, hpc, TaskPc.Listed]
      rfl
    · simp [Servers.Listed, hb]
      rfl
  heapNodup := h.heapNodup.erase a
  heap b := by
    show b ∈ s.heap.erase a ↔ s.init.inst = some b ∨ Function.update s.task a .none b ≠ .none
    rw [h.heapNodup.mem_erase_iff, h.heap]
    by_cases hb : b = a
    · subst hb
      refine iff_of_false (fun hmem => hmem.1 rfl) ?_
      rintro (hinst | htask)
      · rw [h.apart b hinst] at hpc
        cases hpc
      · simp at htask
    · simp [Servers.Owned, hb]
  apart b hb := by
    have hnone : s.task b = .none := h.apart b hb
    by_cases hne : b = a <;> simp [hne, hnone]
  room := h.room
  index := h.index
  accepted := h.accepted
  walk := h.walk

/-! ### The steps -/

theorem initStep_ok (h : ServersOk s xs) (io : InitIo) (hfresh : ∀ a ∈ io.mem, a ∉ s.heap) :
    (∃ ys, ServersOk (s.initStep io).1 ys) ∧ ServersObs.fault ∉ (s.initStep io).2 := by
  have hindex := h.index
  cases hpc : s.init with
  | start =>
      rw [hpc] at hindex
      simp only [Servers.initStep, hpc]
      split
      · refine ⟨⟨xs, ?_⟩, List.not_mem_nil⟩
        exact h.setInit s.mutex (by rw [hpc]; rfl) (by rw [hpc]; rfl) (by rw [hpc]; exact Nat.zero_le _)
          (Nat.le_refl _) (by simp)
      · split
        · refine ⟨⟨xs, ?_⟩, List.not_mem_nil⟩
          exact h.setInit true (by rw [hpc]; rfl) (by rw [hpc]; rfl) (by rw [hpc]; exact Nat.zero_le _)
            (Nat.le_refl _) (by simp)
        · refine ⟨⟨xs, ?_⟩, List.not_mem_nil⟩
          exact h.setInit true (by rw [hpc]; rfl) (by rw [hpc]; rfl) (by rw [hpc]; exact Nat.zero_le _)
            (Nat.zero_le _) (by simp)
  | next i =>
      simp only [Servers.initStep, hpc]
      split
      · rename_i hi
        have hnext : ServersOk { s with mutex := s.mutex, init := .next (i + 1) } xs :=
          h.setInit s.mutex (by rw [hpc]; rfl) (by rw [hpc]; rfl) (by rw [hpc]; exact Nat.le_succ i) hi (by simp)
        split
        · cases hmem : io.mem with
          | none => exact ⟨⟨xs, hnext⟩, List.not_mem_nil⟩
          | some a => exact ⟨⟨xs, h.alloc hpc hi (hfresh a hmem)⟩, List.not_mem_nil⟩
        · exact ⟨⟨xs, hnext⟩, List.not_mem_nil⟩
      · refine ⟨⟨xs, ?_⟩, List.not_mem_nil⟩
        rw [hpc] at hindex
        exact h.setInit s.mutex (by rw [hpc]; rfl) (by rw [hpc]; rfl) (by rw [hpc]; exact hindex)
          (Nat.le_refl _) (by simp)
  | allocated i a =>
      rw [hpc] at hindex
      simp only [Servers.initStep, hpc]
      split
      · exact ⟨⟨xs, h⟩, List.not_mem_nil⟩
      · rename_i hfree
        have hwalk : s.walk = none := by simpa using hfree
        obtain ⟨p, hpush, hok⟩ := h.register hpc hindex hwalk
        rw [hpush]
        exact ⟨⟨_, hok⟩, fault_not_mem_access ((h.heap a).mpr (.inl (by rw [hpc]; rfl)))⟩
  | refused i a => exact absurd hpc (h.accepted i a)
  | registered i a =>
      simp only [Servers.initStep, hpc]
      split
      · exact ⟨⟨xs, h.spawn hpc⟩, fault_not_mem_access ((h.heap a).mpr (.inl (by rw [hpc]; rfl)))⟩
      · refine ⟨⟨xs, ?_⟩, List.not_mem_nil⟩
        exact h.setInit s.mutex (by rw [hpc]; rfl) (by rw [hpc]; rfl) (by rw [hpc]; exact Nat.le_refl _)
          (by rw [hpc] at hindex; exact hindex) (by simp)
  | failed i a =>
      simp only [Servers.initStep, hpc]
      split
      · exact ⟨⟨xs, h⟩, List.not_mem_nil⟩
      · rename_i hfree
        have hwalk : s.walk = none := by simpa using hfree
        obtain ⟨p, hspec, hholds⟩ := deregister_spec h a
        rw [hspec]
        exact ⟨⟨_, h.drop hpc hholds hwalk⟩, List.not_mem_nil⟩
  | dropped i a =>
      rw [hpc] at hindex
      have hinst : s.init.inst = some a := by rw [hpc]; rfl
      simp only [Servers.initStep, hpc]
      refine ⟨⟨xs, ?_⟩, free_obs ((h.heap a).mpr (.inl hinst))⟩
      exact h.freeInit hinst (by rw [hpc]; rfl) (by rw [hpc]; exact Nat.le_succ i) hindex
  | done =>
      simp only [Servers.initStep, hpc]
      exact ⟨⟨xs, h⟩, List.not_mem_nil⟩

theorem serverStep_ok (h : ServersOk s xs) (a : ℕ) (eventsOk sleepOk : Bool) :
    (∃ ys, ServersOk (s.serverStep a eventsOk sleepOk).1 ys) ∧
      ServersObs.fault ∉ (s.serverStep a eventsOk sleepOk).2 := by
  cases hpc : s.task a with
  | none =>
      simp only [Servers.serverStep, hpc]
      exact ⟨⟨xs, h⟩, List.not_mem_nil⟩
  | starting =>
      have hlive : a ∈ s.heap := (h.heap a).mpr (.inr (by simp [hpc]))
      simp only [Servers.serverStep, hpc]
      refine ⟨⟨xs, h.setTask (by rw [hpc]; trivial) ?_⟩, fault_not_mem_access hlive⟩
      split <;> trivial
  | running =>
      have hlive : a ∈ s.heap := (h.heap a).mpr (.inr (by simp [hpc]))
      simp only [Servers.serverStep, hpc]
      exact ⟨⟨xs, h⟩, fault_not_mem_access hlive⟩
  | aborting =>
      simp only [Servers.serverStep, hpc]
      split
      · exact ⟨⟨xs, h⟩, List.not_mem_nil⟩
      · rename_i hfree
        have hwalk : s.walk = none := by simpa using hfree
        obtain ⟨p, hspec, hholds⟩ := deregister_spec h a
        rw [hspec]
        exact ⟨⟨_, h.deregister hpc hholds hwalk⟩, List.not_mem_nil⟩
  | deregistered =>
      have hlive : a ∈ s.heap := (h.heap a).mpr (.inr (by simp [hpc]))
      simp only [Servers.serverStep, hpc]
      refine ⟨⟨xs, h.freeTask hpc⟩, ?_⟩
      rw [List.mem_append]
      exact fun hfault => hfault.elim (fault_not_mem_access hlive) (free_obs hlive)

theorem walked_not_mem_access (a : ℕ) (seen : List ℕ) : ServersObs.walked seen ∉ s.access a := by
  unfold Servers.access
  split <;> simp

theorem ServersOk.setWalk (h : ServersOk s xs) {walk : Option (ℕ × List ℕ)}
    (hwalk : ∀ k seen, walk = some (k, seen) → k ≤ xs.length ∧ seen = xs.take k) :
    ServersOk { s with walk := walk } xs where
  holds := h.holds
  nodup := h.nodup
  listed := h.listed
  heapNodup := h.heapNodup
  heap := h.heap
  apart := h.apart
  room := h.room
  index := h.index
  accepted := h.accepted
  walk := hwalk

/-- **One step of a walk**: the cell is the entry at the index, and what was seen grows by it. -/
theorem walkStep_ok (h : ServersOk s xs) :
    ServersOk s.walkStep.1 xs ∧ ServersObs.fault ∉ s.walkStep.2 ∧
      ∀ seen, ServersObs.walked seen ∈ s.walkStep.2 → seen = xs := by
  have hnone : ∀ t : List ℕ, ServersObs.walked t ∈ ([] : List ServersObs) → t = xs :=
    fun _ hmem => absurd hmem List.not_mem_nil
  cases hwalk : s.walk with
  | none =>
      simp only [Servers.walkStep, hwalk]
      refine ⟨?_, List.not_mem_nil, hnone⟩
      split
      · refine h.setWalk fun k seen heq => ?_
        cases heq
        exact ⟨Nat.zero_le _, rfl⟩
      · exact h
  | some place =>
      obtain ⟨k, seen⟩ := place
      obtain ⟨hle, hseen⟩ := h.walk k seen hwalk
      have hcount := h.holds.count
      simp only [Servers.walkStep, hwalk]
      split
      · rename_i hk
        have hlt : k < xs.length := hcount ▸ hk
        have hcell : s.instances.cells[k]? = some (some xs[k]) := by
          rw [h.holds.getElem? hk, List.getElem?_eq_getElem hlt]
        have hlive : xs[k] ∈ s.heap := h.owned_of_listed (List.getElem_mem hlt)
        rw [hcell]
        refine ⟨h.setWalk fun j seen' heq => ?_, fault_not_mem_access hlive, fun t hmem => ?_⟩
        · cases heq
          refine ⟨hlt, ?_⟩
          rw [hseen, List.take_append_getElem hlt]
        · exact absurd hmem (walked_not_mem_access _ t)
      · rename_i hk
        have hend : k = xs.length := Nat.le_antisymm hle (by rw [← hcount]; exact Nat.not_lt.mp hk)
        refine ⟨h.setWalk (fun _ _ heq => by cases heq), by simp, fun t hmem => ?_⟩
        rw [List.mem_singleton] at hmem
        cases hmem
        rw [hseen, hend, List.take_length]

/-- **One step** of anyone. -/
theorem servers_step (h : ServersOk s xs) (e : ServersEvent) (hfresh : s.Fresh e) :
    (∃ ys, ServersOk (servers.step s e) ys) ∧ ServersObs.fault ∉ servers.out s e := by
  cases e with
  | init io => exact initStep_ok h io hfresh
  | server a eventsOk sleepOk => exact serverStep_ok h a eventsOk sleepOk
  | sleep a =>
      refine ⟨⟨xs, h⟩, ?_⟩
      show ServersObs.fault ∉ (if s.task a = .running then s.access a else [])
      split
      · rename_i hrun
        exact fault_not_mem_access ((h.heap a).mpr (.inr (by simp [hrun])))
      · exact List.not_mem_nil
  | walk =>
      obtain ⟨hok, hfault, _⟩ := walkStep_ok h
      exact ⟨⟨xs, hok⟩, hfault⟩

theorem serversOk_init : ServersOk serversInit [] where
  holds := Packed.empty_holds _
  nodup := List.nodup_nil
  listed a := iff_of_false List.not_mem_nil fun h => h.elim (fun hnone => by cases hnone) id
  heapNodup := List.nodup_nil
  heap a := iff_of_false List.not_mem_nil fun h => h.elim (fun hnone => by cases hnone) fun hne => hne rfl
  apart _ _ := rfl
  room := Nat.le_refl _
  index := Nat.zero_le _
  accepted _ _ := by simp [serversInit]
  walk _ _ h := by cases h

/-- Only a walk ends one. -/
theorem walked_of_out {e : ServersEvent} {seen : List ℕ} (h : ServersObs.walked seen ∈ servers.out s e) :
    e = .walk := by
  have hfree : ∀ a, ServersObs.walked seen ∉ (s.free a).2 := by
    intro a
    unfold Servers.free
    dsimp only
    split <;> simp
  have hderegister : ∀ a, ServersObs.walked seen ∉ (s.deregisterInstance a).2 := by
    intro a
    unfold Servers.deregisterInstance
    split <;> simp
  cases e with
  | walk => rfl
  | init io =>
      exfalso
      revert h
      show ServersObs.walked seen ∉ (s.initStep io).2
      unfold Servers.initStep
      repeat' split
      all_goals first
        | exact walked_not_mem_access _ seen
        | exact hfree _
        | exact hderegister _
        | simp
  | server a eventsOk sleepOk =>
      exfalso
      revert h
      show ServersObs.walked seen ∉ (s.serverStep a eventsOk sleepOk).2
      unfold Servers.serverStep
      split
      · simp
      · exact walked_not_mem_access _ seen
      · exact walked_not_mem_access _ seen
      · split
        · simp
        · exact hderegister _
      · rw [List.mem_append]
        exact fun hmem => hmem.elim (walked_not_mem_access _ seen) (hfree _)
  | sleep a =>
      exfalso
      revert h
      show ServersObs.walked seen ∉ (if s.task a = .running then s.access a else [])
      split
      · exact walked_not_mem_access _ seen
      · simp

/-- **The instances are safe.**  However the tasks interleave, and whatever allocation or task creation fails, no
access to an instance or to the registry faults, no instance is freed twice or refused, and a walk has seen
exactly those that are listed when it ends, once each.  When `ntrip_server_init` is done, every instance that is
allocated has its task. -/
theorem instances_safe (es : List ServersEvent) (hes : servers.Admits Servers.Fresh serversInit es) :
    let s := servers.run serversInit es
    (ServersObs.fault ∉ servers.outputs serversInit es ∧ ∀ i a, s.init ≠ .refused i a) ∧
      (∀ e seen, .walked seen ∈ servers.out s e → seen.Nodup ∧ ∀ a, a ∈ seen ↔ s.Listed a) ∧
      (s.init = .done → ∀ a, a ∈ s.heap ↔ s.task a ≠ .none) := by
  intro s
  have hstep : ∀ s e, (∃ xs, ServersOk s xs) → s.Fresh e → ∃ ys, ServersOk (servers.step s e) ys :=
    fun s e ⟨_, h⟩ he => (servers_step h e he).1
  have hfault := servers.forall_outputs (Q := fun o => o ≠ .fault) hstep
    (fun s e ⟨_, h⟩ he o ho heq => (servers_step h e he).2 (heq ▸ ho)) ⟨[], serversOk_init⟩ hes
  obtain ⟨xs, hok⟩ : ∃ xs, ServersOk s xs := servers.invariant hstep ⟨[], serversOk_init⟩ hes
  refine ⟨⟨fun hmem => hfault _ hmem rfl, hok.accepted⟩, ?_, ?_⟩
  · intro e seen hmem
    obtain rfl := walked_of_out hmem
    obtain rfl := (walkStep_ok hok).2.2 seen hmem
    exact ⟨hok.nodup, hok.listed⟩
  · intro hdone a
    rw [hok.heap, Servers.Owned, hdone]
    exact or_iff_right fun hnone => by cases hnone

/-- Two servers are started; the first cannot create its events, in the middle of a walk.  It waits for the mutex,
and frees its instance. -/
def demoServers : List ServersEvent :=
  let io (active : Bool) (mem : Option ℕ) : ServersEvent := .init ⟨true, true, active, mem, true⟩
  [io true none, io true (some 100), io true none, io true none, io true (some 104), io true none, .walk, io true none,
    .walk, .server 100 false true, .server 104 true true, .server 100 true true, .walk, .sleep 104, .walk,
    .server 100 true true, .server 100 true true, .server 104 true true] ++ List.replicate 9 (io false none)

theorem instances_safe_demoServers :
    ServersObs.fault ∉ servers.outputs serversInit demoServers ∧
      (104 ∈ (servers.run serversInit demoServers).heap ↔ (servers.run serversInit demoServers).task 104 ≠ .none) := by
  obtain ⟨⟨hfault, _⟩, _, hdone⟩ := instances_safe demoServers (by decide)
  exact ⟨hfault, hdone (by decide) 104⟩

example : ServersObs.walked [100, 104] ∈ servers.outputs serversInit demoServers := by decide

end RtkdataFw.NtripServer
