import RtkdataFw.Lib.Machine
import RtkdataFw.Lib.SList
import Mathlib.Data.Int.Notation

/-!
# The clients of the socket server

`socket_clients_receive` walks the list of clients, reads from those that `select` has marked until `recv` gives
nothing more, and removes the ones whose last `recv` failed.  The list is the intrusive one of the code, in memory;
what `select` marks and what the calls of `recv` return is the environment's.

* `socketClientsReceive` — one call, with a record of each visit;
* `receive_eq` — what it visits and what it leaves, for every list;
* `Served` — what a call should do for its clients, and `served_iff` — when it does;
* `no_spin_iff` — the same over runs of the server; `spins` — what happens to a client whose peer has hung up.
-/

namespace RtkdataFw.SocketServer

open RtkdataFw.Lib

/-- `SOCK_STREAM`, `SOCK_DGRAM`. -/
inductive SockType where
  | stream
  | dgram
  deriving DecidableEq, Repr

/-- `socket_client_t`, without its list entry. -/
structure SocketClient where
  socket : ℤ
  type : SockType
  deriving DecidableEq, Repr

/-- What a call of `recv` returns, and `errno` after it. -/
structure RecvResult where
  len : ℤ
  errno : ℤ
  deriving DecidableEq, Repr

def ewouldblock : ℤ := 11

/-- What `recv` returns on a socket, call after call; at some time there is nothing left to receive. -/
structure RecvScript where
  results : List RecvResult
  stops : ∃ r ∈ results, r.len ≤ 0

/-- `while ((len = recv(client->socket, buffer, BUFFER_SIZE, MSG_DONTWAIT)) > 0)`: the lengths, and the result that
ended it. -/
def recvLoop : List RecvResult → Option (List ℤ × RecvResult)
  | [] => none
  | r :: rs => if r.len > 0 then (recvLoop rs).map fun q => (r.len :: q.1, q.2) else some ([], r)

/-- One pass of the loop over the clients; `reads` is `none` for a client that is not marked. -/
structure Visit where
  ptr : ℕ
  client : SocketClient
  reads : Option (List ℤ × RecvResult)

/-- The list and the passes so far. -/
structure ReceiveState where
  list : SList SocketClient
  visits : List Visit

/-- What `socket_client_remove` does to the list. -/
def socketClientRemove (list : SList SocketClient) (client : ℕ) : Option (SList SocketClient) := do
  let list ← list.remove client
  return list.free client

/-- The body of the loop; `isSet` is `FD_ISSET`. -/
def receiveBody (isSet : ℤ → Bool) (recvs : ℕ → RecvScript) (client : ℕ) (s : ReceiveState) :
    Option ReceiveState := do
  let n ← SList.deref s.list.nodes (some client)
  if isSet n.val.socket = false then
    return { s with visits := s.visits ++ [⟨client, n.val, none⟩] }
  else
    let q ← recvLoop (recvs client).results
    let list ← if q.2.len < 0 ∧ q.2.errno ≠ ewouldblock then socketClientRemove s.list client else some s.list
    return ⟨list, s.visits ++ [⟨client, n.val, some q⟩]⟩

def socketClientsReceive (isSet : ℤ → Bool) (recvs : ℕ → RecvScript) (list : SList SocketClient) :
    Option ReceiveState :=
  SList.foreachSafe ReceiveState.list (receiveBody isSet recvs) list.nodes.keys.length list.first ⟨list, []⟩

/-! ### The server -/

inductive ServerEvent where
  /-- `socket_client_add` with memory at `ptr`. -/
  | accept (ptr : ℕ) (client : SocketClient)
  /-- `select` marks sockets, and `socket_clients_receive` is called. -/
  | receive (isSet : ℤ → Bool) (recvs : ℕ → RecvScript)

/-- One call of `socket_clients_receive`. -/
structure Round where
  before : SList SocketClient
  result : Option ReceiveState

/-- The loop of `socket_server_task`; a fault ends it. -/
def server : Machine (Option (SList SocketClient)) ServerEvent Round where
  step
    | none, _ => none
    | some list, .accept ptr client => some (list.insertHead ptr client)
    | some list, .receive isSet recvs => (socketClientsReceive isSet recvs list).map ReceiveState.list
  out
    | some list, .receive isSet recvs => [⟨list, socketClientsReceive isSet recvs list⟩]
    | _, _ => []

/-- `malloc` gives memory that is not in use. -/
def FreshMemory : Option (SList SocketClient) → ServerEvent → Prop
  | some list, .accept ptr _ => ptr ∉ list.nodes.keys
  | _, _ => True

/-! ### What a call should do -/

/-- The last `recv` failed. -/
def Visit.Failed (v : Visit) : Prop := ∃ q ∈ v.reads, q.2.len < 0 ∧ q.2.errno ≠ ewouldblock

/-- The last `recv` returned zero. -/
def Visit.Closed (v : Visit) : Prop := ∃ q ∈ v.reads, q.2.len = 0

/-- Something was received; on a datagram socket a datagram may be empty. -/
def Visit.Received (v : Visit) : Prop :=
  ∃ q ∈ v.reads, q.1 ≠ [] ∨ (v.client.type = .dgram ∧ q.2.len = 0)

/-- There was nothing to receive: `select` blocks on the socket. -/
def Visit.Blocked (v : Visit) : Prop := ∃ q ∈ v.reads, q.2.len < 0 ∧ q.2.errno = ewouldblock

/-- A call that serves its clients: each is visited once, only clients that have failed or hung up are taken out of
the list, no stream client that has hung up stays in it, and every marked client either had something to receive,
or is gone, or blocks. -/
structure Served (before : List (ℕ × SocketClient)) (visits : List Visit) (after : List (ℕ × SocketClient)) :
    Prop where
  visited : visits.map (fun v => (v.ptr, v.client)) = before
  kept : after.Sublist before
  removed : ∀ v ∈ visits, (v.ptr, v.client) ∉ after → v.Failed ∨ (v.client.type = .stream ∧ v.Closed)
  closed : ∀ v ∈ visits, v.client.type = .stream → v.Closed → (v.ptr, v.client) ∉ after
  progress : ∀ v ∈ visits, v.reads ≠ none → v.Received ∨ (v.ptr, v.client) ∉ after ∨ v.Blocked

/-- A round that ends, with its list in order. -/
def Round.Ok (r : Round) : Prop :=
  ∃ clients s after, r.before.Holds clients ∧ r.result = some s ∧ s.list.Holds after ∧
    Served clients s.visits after

/-! ### Reading -/

/-- The result that ends the reads. -/
def RecvScript.last (c : RecvScript) : RecvResult := (c.results.find? fun r => r.len ≤ 0).getD ⟨0, 0⟩

def RecvScript.reads (c : RecvScript) : List ℤ × RecvResult :=
  ((c.results.takeWhile fun r => 0 < r.len).map RecvResult.len, c.last)

theorem recvLoop_eq (c : RecvScript) : recvLoop c.results = some c.reads := by
  obtain ⟨results, hstops⟩ := c
  rw [RecvScript.reads, RecvScript.last]
  dsimp only
  induction results with
  | nil =>
      obtain ⟨r, hr, -⟩ := hstops
      cases hr
  | cons r rs ih =>
      rw [recvLoop]
      by_cases hpos : r.len > 0
      · have hrest : ∃ r ∈ rs, r.len ≤ 0 := by
          obtain ⟨r', hr', hle⟩ := hstops
          rcases List.mem_cons.mp hr' with rfl | hr'
          · exact absurd hle (Int.not_le.mpr hpos)
          · exact ⟨r', hr', hle⟩
        rw [if_pos hpos, ih hrest, List.find?_cons_of_neg (by simpa using hpos),
          List.takeWhile_cons_of_pos (by simpa using hpos)]
        rfl
      · rw [if_neg hpos, List.find?_cons_of_pos (by simpa using hpos),
          List.takeWhile_cons_of_neg (by simpa using hpos)]
        rfl

theorem RecvScript.last_le (c : RecvScript) : c.last.len ≤ 0 := by
  rw [RecvScript.last]
  cases hfound : c.results.find? fun r => r.len ≤ 0 with
  | none => exact Int.le_refl 0
  | some r => exact of_decide_eq_true (List.find?_some (p := fun r : RecvResult => decide (r.len ≤ 0)) hfound)

/-! ### One call -/

section Call

variable (isSet : ℤ → Bool) (recvs : ℕ → RecvScript)

/-- The pass over a client. -/
def visitOf (x : ℕ × SocketClient) : Visit where
  ptr := x.1
  client := x.2
  reads := if isSet x.2.socket = true then some (recvs x.1).reads else none

/-- The client's last `recv` fails. -/
def Fails (x : ℕ × SocketClient) : Prop :=
  isSet x.2.socket = true ∧ (recvs x.1).last.len < 0 ∧ (recvs x.1).last.errno ≠ ewouldblock

instance (x : ℕ × SocketClient) : Decidable (Fails isSet recvs x) :=
  inferInstanceAs (Decidable (_ ∧ _ ∧ _))

/-- **One pass.** -/
theorem receiveBody_eq {kept todo : List (ℕ × SocketClient)} {x : ℕ × SocketClient} {s : ReceiveState}
    (h : s.list.Holds (kept ++ x :: todo)) :
    ∃ list, receiveBody isSet recvs x.1 s = some ⟨list, s.visits ++ [visitOf isSet recvs x]⟩ ∧
      list.Holds ((if Fails isSet recvs x then kept else kept ++ [x]) ++ todo) := by
  obtain ⟨-, n, hn, hval, -⟩ := SList.Chain.of_cons (SList.Chain.suffix h)
  have hread : SList.deref s.list.nodes (some x.1) = some n := hn
  rw [receiveBody, hread, visitOf]
  simp only [Option.bind_eq_bind, Option.bind_some, hval, recvLoop_eq, Option.pure_def]
  by_cases hset : isSet x.2.socket = true
  · rw [if_neg (by simp [hset]), if_pos hset]
    by_cases hfail : (recvs x.1).reads.2.len < 0 ∧ (recvs x.1).reads.2.errno ≠ ewouldblock
    · obtain ⟨list, hremove, hholds⟩ := SList.remove_free_holds h
      refine ⟨list.free x.1, ?_, ?_⟩
      · rw [if_pos hfail, socketClientRemove, hremove]
        rfl
      · rw [if_pos (show Fails isSet recvs x from ⟨hset, hfail⟩)]
        exact hholds
    · refine ⟨s.list, ?_, ?_⟩
      · rw [if_neg hfail]
      · rw [if_neg (show ¬ Fails isSet recvs x from fun hc => hfail hc.2), ← List.append_cons]
        exact h
  · refine ⟨s.list, ?_, ?_⟩
    · rw [if_pos (Bool.eq_false_iff.mpr hset), if_neg hset]
    · rw [if_neg (show ¬ Fails isSet recvs x from fun hc => hset hc.1), ← List.append_cons]
      exact h

/-- **A call** visits every client once, in order, and leaves those whose last `recv` did not fail. -/
theorem receive_eq {l : SList SocketClient} {clients : List (ℕ × SocketClient)} (h : l.Holds clients) :
    ∃ list, socketClientsReceive isSet recvs l = some ⟨list, clients.map (visitOf isSet recvs)⟩ ∧
      list.Holds (clients.filter fun x => ¬ Fails isSet recvs x) := by
  -- the clients visited so far are `front`; the loop has kept those that did not fail
  let I (kept todo : List (ℕ × SocketClient)) (s : ReceiveState) : Prop :=
    s.list.Holds (kept ++ todo) ∧ ∃ front, front ++ todo = clients ∧
      s.visits = front.map (visitOf isSet recvs) ∧ kept = front.filter fun x => ¬ Fails isSet recvs x
  have hstart : I [] clients ⟨l, []⟩ := ⟨h, [], rfl, rfl, rfl⟩
  have hbody : ∀ kept x todo s, I kept (x :: todo) s →
      ∃ s' kept', receiveBody isSet recvs x.1 s = some s' ∧ I kept' todo s' := by
    rintro kept x todo s ⟨hholds, front, hsplit, hvisits, rfl⟩
    obtain ⟨list, hrun, hholds'⟩ := receiveBody_eq isSet recvs hholds
    refine ⟨_, _, hrun, hholds', front ++ [x], ?_, ?_, ?_⟩
    · rw [← List.append_cons, hsplit]
    · rw [hvisits, List.map_append]
      rfl
    · rw [List.filter_append]
      by_cases hfails : Fails isSet recvs x
      · rw [if_pos hfails, List.filter_cons_of_neg (by simpa using hfails), List.filter_nil, List.append_nil]
      · rw [if_neg hfails, List.filter_cons_of_pos (by simpa using hfails), List.filter_nil]
  obtain ⟨s, kept, hrun, hholds, front, hsplit, hvisits, rfl⟩ :=
    SList.foreachSafe_rule (fun _ _ _ hI => hI.1) hbody hstart (SList.Chain.length_le h)
  rw [List.append_nil] at hsplit hholds
  subst hsplit
  refine ⟨s.list, ?_, hholds⟩
  rw [socketClientsReceive, SList.Chain.start h, hrun, ← hvisits]

/-- No marked stream client has its reads end with zero: no peer has hung up. -/
def PeersOpen (isSet : ℤ → Bool) (recvs : ℕ → RecvScript) (clients : List (ℕ × SocketClient)) : Prop :=
  ∀ x ∈ clients, x.2.type = .stream → isSet x.2.socket = true → (recvs x.1).last.len ≠ 0

variable {isSet recvs} {clients : List (ℕ × SocketClient)}

theorem mem_kept_iff {x : ℕ × SocketClient} :
    x ∈ clients.filter (fun y => ¬ Fails isSet recvs y) ↔ x ∈ clients ∧ ¬ Fails isSet recvs x := by
  rw [List.mem_filter, decide_eq_true_iff]

theorem mem_reads_iff {x : ℕ × SocketClient} {q : List ℤ × RecvResult} :
    q ∈ (visitOf isSet recvs x).reads ↔ isSet x.2.socket = true ∧ (recvs x.1).reads = q := by
  rw [visitOf, Option.mem_def]
  by_cases hset : isSet x.2.socket = true
  · rw [if_pos hset, Option.some.injEq, and_iff_right hset]
  · rw [if_neg hset]
    exact iff_of_false (fun h => by cases h) fun h => hset h.1

/-- **A call serves its clients** exactly when no peer has hung up. -/
theorem served_iff : Served clients (clients.map (visitOf isSet recvs))
    (clients.filter fun x => ¬ Fails isSet recvs x) ↔ PeersOpen isSet recvs clients := by
  constructor
  · intro h x hx hstream hset hzero
    have hgone := h.closed (visitOf isSet recvs x) (List.mem_map_of_mem hx) hstream
      ⟨(recvs x.1).reads, mem_reads_iff.mpr ⟨hset, rfl⟩, hzero⟩
    refine hgone (mem_kept_iff.mpr ⟨hx, ?_⟩)
    intro hfails
    have hneg : (recvs x.1).last.len < 0 := hfails.2.1
    omega
  · intro hopen
    refine ⟨?_, List.filter_sublist, ?_, ?_, ?_⟩
    · rw [List.map_map]
      exact List.map_id clients
    · intro v hv hgone
      obtain ⟨x, hx, rfl⟩ := List.mem_map.mp hv
      left
      have hfails : Fails isSet recvs x := by
        by_contra hnot
        exact hgone (mem_kept_iff.mpr ⟨hx, hnot⟩)
      exact ⟨(recvs x.1).reads, mem_reads_iff.mpr ⟨hfails.1, rfl⟩, hfails.2⟩
    · intro v hv hstream hclosed
      obtain ⟨x, hx, rfl⟩ := List.mem_map.mp hv
      obtain ⟨q, hq, hzero⟩ := hclosed
      obtain ⟨hset, rfl⟩ := mem_reads_iff.mp hq
      exact absurd hzero (hopen x hx hstream hset)
    · intro v hv hmarked
      obtain ⟨x, hx, rfl⟩ := List.mem_map.mp hv
      obtain ⟨q, hq⟩ := Option.ne_none_iff_exists'.mp hmarked
      obtain ⟨hset, rfl⟩ := mem_reads_iff.mp hq
      have hle := (recvs x.1).last_le
      by_cases hzero : (recvs x.1).last.len = 0
      · left
        refine ⟨_, hq, Or.inr ⟨?_, hzero⟩⟩
        cases htype : x.2.type with
        | stream => exact absurd hzero (hopen x hx htype hset)
        | dgram => exact htype
      · right
        by_cases herrno : (recvs x.1).last.errno = ewouldblock
        · exact Or.inr ⟨_, hq, by show (recvs x.1).last.len < 0; omega, herrno⟩
        · left
          intro hkept
          have hnot : ¬ Fails isSet recvs x := (mem_kept_iff.mp hkept).2
          exact hnot ⟨hset, by omega, herrno⟩

end Call

/-! ### Runs -/

/-- The list is in order, whatever it holds. -/
def InOrder (s : Option (SList SocketClient)) : Prop := ∃ l clients, s = some l ∧ l.Holds clients

/-- In every call, no peer of a client that is then in the list has hung up. -/
def NoneHungUp : Option (SList SocketClient) → ServerEvent → Prop
  | some l, .receive isSet recvs => ∀ clients, l.Holds clients → PeersOpen isSet recvs clients
  | _, _ => True

theorem inOrder_step {s : Option (SList SocketClient)} (e : ServerEvent) (hs : InOrder s) (he : FreshMemory s e) :
    InOrder (server.step s e) := by
  obtain ⟨l, clients, rfl, hholds⟩ := hs
  cases e with
  | accept ptr client => exact ⟨_, _, rfl, SList.insertHead_holds hholds he⟩
  | receive isSet recvs =>
      obtain ⟨list, hrun, hholds'⟩ := receive_eq isSet recvs hholds
      refine ⟨list, _, ?_, hholds'⟩
      show (socketClientsReceive isSet recvs l).map ReceiveState.list = some list
      rw [hrun]
      rfl

/-- **One round** is as it should be exactly when no peer has hung up. -/
theorem round_ok_iff {s : Option (SList SocketClient)} (e : ServerEvent) (hs : InOrder s) :
    (∀ r ∈ server.out s e, r.Ok) ↔ NoneHungUp s e := by
  obtain ⟨l, clients, rfl, hholds⟩ := hs
  cases e with
  | accept ptr client => exact iff_of_true (List.forall_mem_nil _) trivial
  | receive isSet recvs =>
      obtain ⟨list, hrun, hholds'⟩ := receive_eq isSet recvs hholds
      show (∀ r ∈ [Round.mk l (socketClientsReceive isSet recvs l)], r.Ok) ↔
        ∀ clients, l.Holds clients → PeersOpen isSet recvs clients
      rw [List.forall_mem_singleton, hrun]
      constructor
      · rintro ⟨before, s, after, hbefore, hs, hafter, hserved⟩ clients' hclients'
        obtain rfl := Option.some.inj hs
        obtain rfl := SList.Chain.unique hbefore hholds
        obtain rfl := SList.Chain.unique hafter hholds'
        obtain rfl := SList.Chain.unique hclients' hholds
        exact served_iff.mp hserved
      · intro hopen
        exact ⟨clients, _, _, hholds, rfl, hholds', served_iff.mpr (hopen clients hholds)⟩

/-- A call that reads nothing and removes nobody. -/
def Round.Idle (clients : List (ℕ × SocketClient)) (r : Round) : Prop :=
  ∃ s, r.result = some s ∧ s.list.Holds clients ∧ ∀ v ∈ s.visits, ∀ q ∈ v.reads, q.1 = []

section Spinning

variable {isSet : ℤ → Bool} {recvs : ℕ → RecvScript} {clients : List (ℕ × SocketClient)}

/-- A round in which the first `recv` of every marked client returns zero. -/
theorem idle_round {l : SList SocketClient} (h : l.Holds clients)
    (hclosed : ∀ x ∈ clients, isSet x.2.socket = true → ∃ r ∈ (recvs x.1).results.head?, r.len = 0) :
    ∃ list, socketClientsReceive isSet recvs l = some ⟨list, clients.map (visitOf isSet recvs)⟩ ∧
      list.Holds clients ∧ ∀ v ∈ clients.map (visitOf isSet recvs), ∀ q ∈ v.reads, q.1 = [] := by
  have hreads : ∀ x ∈ clients, isSet x.2.socket = true →
      (recvs x.1).reads.1 = [] ∧ (recvs x.1).last.len = 0 := by
    intro x hx hset
    obtain ⟨r, hr, hzero⟩ := hclosed x hx hset
    obtain ⟨rs, hrs⟩ := List.head?_eq_some_iff.mp hr
    rw [RecvScript.reads, RecvScript.last, hrs, List.takeWhile_cons_of_neg (by simp [hzero]),
      List.find?_cons_of_pos (by simp [hzero])]
    exact ⟨rfl, hzero⟩
  obtain ⟨list, hrun, hholds⟩ := receive_eq isSet recvs h
  refine ⟨list, hrun, ?_, ?_⟩
  · rwa [List.filter_eq_self.mpr] at hholds
    intro x hx
    refine decide_eq_true fun hfails => ?_
    have hneg : (recvs x.1).last.len < 0 := hfails.2.1
    have hzero := (hreads x hx hfails.1).2
    omega
  · intro v hv q hq
    obtain ⟨x, hx, rfl⟩ := List.mem_map.mp hv
    obtain ⟨hset, rfl⟩ := mem_reads_iff.mp hq
    exact (hreads x hx hset).1

/-- **Clients that have hung up keep the server busy**: as long as `select` marks no others, round after round
reads nothing and leaves the list as it is. -/
theorem spins {l : SList SocketClient} (h : l.Holds clients)
    (hclosed : ∀ x ∈ clients, isSet x.2.socket = true → ∃ r ∈ (recvs x.1).results.head?, r.len = 0)
    (n : ℕ) :
    ∀ r ∈ server.outputs (some l) (List.replicate n (.receive isSet recvs)), r.Idle clients := by
  induction n generalizing l with
  | zero => exact List.forall_mem_nil _
  | succ n ih =>
      obtain ⟨list, hrun, hholds, hidle⟩ := idle_round h hclosed
      have hstep : server.step (some l) (.receive isSet recvs) = some list := by
        show (socketClientsReceive isSet recvs l).map ReceiveState.list = some list
        rw [hrun]
        rfl
      rw [List.replicate_succ, Machine.outputs_cons, hstep, List.forall_mem_append]
      refine ⟨?_, ih hholds⟩
      show ∀ r ∈ [Round.mk l (socketClientsReceive isSet recvs l)], r.Idle clients
      rw [List.forall_mem_singleton]
      exact ⟨_, hrun, hholds, hidle⟩

end Spinning

/-- **The server serves its clients in every round of a run** exactly when in every round no peer of a marked
stream client has hung up.  The list may be any at the start, and clients may come in between. -/
theorem no_spin_iff {l : SList SocketClient} {clients : List (ℕ × SocketClient)} {es : List ServerEvent}
    (h : l.Holds clients) (hes : server.Admits FreshMemory (some l) es) :
    (∀ r ∈ server.outputs (some l) es, r.Ok) ↔ server.Admits NoneHungUp (some l) es :=
  server.forall_outputs_iff (fun _ e hs he => inOrder_step e hs he) (fun _ e hs => round_ok_iff e hs)
    ⟨l, clients, rfl, h⟩ hes

/-- One TCP client. -/
def oneClient : SList SocketClient := (SList.init ∅).insertHead 1 ⟨54, .stream⟩

theorem oneClient_holds : oneClient.Holds [(1, ⟨54, .stream⟩)] :=
  SList.insertHead_holds (SList.init_holds ∅) (by decide)

/-- A block of data, and then nothing. -/
def blockOfData : RecvScript where
  results := [⟨512, 0⟩, ⟨-1, ewouldblock⟩]
  stops := ⟨⟨-1, ewouldblock⟩, List.mem_cons_of_mem _ List.mem_cons_self, by decide⟩

/-- The rounds in which a block of data comes, after one more client. -/
def dataRun : List ServerEvent := [.accept 2 ⟨55, .dgram⟩, .receive (fun _ => true) fun _ => blockOfData]

theorem no_spin_iff_data :
    (server.outputs (some oneClient) dataRun).length = 1 ∧
      ∀ r ∈ server.outputs (some oneClient) dataRun, r.Ok := by
  have hfresh : 2 ∉ oneClient.nodes.keys := by decide
  have hopen : blockOfData.last.len ≠ 0 := by decide
  refine ⟨rfl, (no_spin_iff oneClient_holds ?_).mpr ?_⟩
  · exact ⟨hfresh, trivial, trivial⟩
  · exact ⟨trivial, fun _ _ _ _ _ _ => hopen, trivial⟩

/-- The peer has hung up. -/
def hungUp : RecvScript where
  results := [⟨0, 0⟩]
  stops := ⟨⟨0, 0⟩, List.mem_singleton_self _, by decide⟩

/-- **A client whose peer has hung up** is not served. -/
theorem hung_up_stays :
    ¬ ∀ r ∈ server.outputs (some oneClient) [.receive (fun _ => true) fun _ => hungUp], r.Ok := by
  intro h
  have hround : NoneHungUp (some oneClient) (.receive (fun _ => true) fun _ => hungUp) :=
    (round_ok_iff _ ⟨oneClient, _, rfl, oneClient_holds⟩).mp h
  exact hround _ oneClient_holds (1, ⟨54, .stream⟩) List.mem_cons_self rfl rfl rfl

end RtkdataFw.SocketServer
