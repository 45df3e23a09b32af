import Mathlib.Data.List.AList

/-!
# Singly linked lists in memory

The list macros of `sys/queue.h`, on nodes with an address each: a head, a next pointer in every node, and `none`
for the null pointer.  A step through a pointer with no node behind it is a fault, and so is a walk of more steps
than there are nodes; both are `none` of the operation.

* `Chain` — what a pointer leads to, and `Holds` for a whole list;
* `insertHead_holds`, `remove_holds`, `free_holds` — the operations, in terms of what is held;
* `foreachSafe_rule` — a loop whose body may remove the node that it is at visits each node of the list once.

Nothing here names a particular program.
-/

namespace RtkdataFw.Lib

variable {α σ : Type*}

/-- A node: its fields, and `SLIST_NEXT`. -/
structure SNode (α : Type*) where
  val : α
  next : Option ℕ

/-- The nodes that are allocated, by address. -/
abbrev SNodes (α : Type*) := AList fun _ : ℕ => SNode α

/-- `SLIST_HEAD` and the memory that it points into. -/
structure SList (α : Type*) where
  first : Option ℕ
  nodes : SNodes α

namespace SList

/-- What is behind a pointer. -/
def deref (nodes : SNodes α) : Option ℕ → Option (SNode α)
  | none => none
  | some p => nodes.lookup p

/-- `SLIST_INIT`. -/
def init (nodes : SNodes α) : SList α := ⟨none, nodes⟩

/-- `SLIST_INSERT_HEAD` of a new node. -/
def insertHead (l : SList α) (elm : ℕ) (val : α) : SList α :=
  ⟨some elm, l.nodes.insert elm ⟨val, l.first⟩⟩

/-- `while (SLIST_NEXT(curelm, field) != (elm)) curelm = SLIST_NEXT(curelm, field);`. -/
def findBefore (nodes : SNodes α) (elm : ℕ) : ℕ → Option ℕ → Option ℕ
  | 0, _ => none
  | fuel + 1, curelm =>
      (deref nodes curelm).bind fun n =>
        if n.next = some elm then curelm else findBefore nodes elm fuel n.next

/-- `SLIST_REMOVE_AFTER`. -/
def removeAfter (l : SList α) (curelm : ℕ) : Option (SList α) :=
  (deref l.nodes (some curelm)).bind fun n =>
    (deref l.nodes n.next).bind fun m =>
      some { l with nodes := l.nodes.insert curelm { n with next := m.next } }

/-- `SLIST_REMOVE_HEAD`. -/
def removeHead (l : SList α) : Option (SList α) :=
  (deref l.nodes l.first).bind fun n => some { l with first := n.next }

/-- `SLIST_REMOVE`. -/
def remove (l : SList α) (elm : ℕ) : Option (SList α) :=
  if l.first = some elm then l.removeHead
  else (findBefore l.nodes elm l.nodes.keys.length l.first).bind fun curelm => l.removeAfter curelm

/-- `free`. -/
def free (l : SList α) (elm : ℕ) : SList α := { l with nodes := l.nodes.erase elm }

/-- `SLIST_FOREACH_SAFE`: the next pointer is read before the body runs. -/
def foreachSafe (list : σ → SList α) (body : ℕ → σ → Option σ) : ℕ → Option ℕ → σ → Option σ
  | _, none, s => some s
  | 0, some _, _ => none
  | fuel + 1, some var, s =>
      (deref (list s).nodes (some var)).bind fun n =>
        (body var s).bind fun s => foreachSafe list body fuel n.next s

/-! ### What a pointer leads to -/

/-- The nodes from a pointer on, with their addresses. -/
inductive Chain (nodes : SNodes α) : Option ℕ → List (ℕ × α) → Prop where
  | nil : Chain nodes none []
  | cons {p : ℕ} {n : SNode α} {l : List (ℕ × α)} (hnode : nodes.lookup p = some n)
      (htail : Chain nodes n.next l) : Chain nodes (some p) ((p, n.val) :: l)

/-- The list is these nodes, in this order. -/
def Holds (l : SList α) (items : List (ℕ × α)) : Prop := Chain l.nodes l.first items

section Chains

variable {nodes nodes' : SNodes α} {p : Option ℕ} {a : ℕ} {v : α} {l l' : List (ℕ × α)}

/-- Where the chain of some nodes starts. -/
theorem Chain.start (h : Chain nodes p l) : p = l.head?.map Prod.fst := by
  cases h with
  | nil => rfl
  | cons hnode htail => rfl

theorem Chain.of_cons (h : Chain nodes p ((a, v) :: l)) :
    p = some a ∧ ∃ n, nodes.lookup a = some n ∧ n.val = v ∧ Chain nodes n.next l := by
  cases h with
  | cons hnode htail => exact ⟨rfl, _, hnode, rfl, htail⟩

/-- **A pointer leads to one list only.** -/
theorem Chain.unique (h : Chain nodes p l) (h' : Chain nodes p l') : l = l' := by
  induction h generalizing l' with
  | nil =>
      cases h' with
      | nil => rfl
  | cons hnode htail ih =>
      cases h' with
      | cons hnode' htail' =>
          have hsame := Option.some.inj (hnode.symm.trans hnode')
          subst hsame
          rw [ih htail']

/-- The chain of the rest. -/
theorem Chain.suffix {front : List (ℕ × α)} (h : Chain nodes p (front ++ l)) :
    Chain nodes (l.head?.map Prod.fst) l := by
  induction front generalizing p with
  | nil => exact h.start ▸ h
  | cons x front ih =>
      obtain ⟨-, n, -, -, htail⟩ := h.of_cons
      exact ih htail

/-- **No node comes twice**: from there the same list would follow again. -/
theorem Chain.nodup (h : Chain nodes p l) : (l.map Prod.fst).Nodup := by
  induction h with
  | nil => exact List.nodup_nil
  | @cons a n l hnode htail ih =>
      refine List.nodup_cons.mpr ⟨?_, ih⟩
      intro hmem
      obtain ⟨⟨b, w⟩, hb, rfl⟩ := List.mem_map.mp hmem
      obtain ⟨front, back, rfl⟩ := List.append_of_mem hb
      have hagain := (Chain.cons hnode htail).unique htail.suffix
      have hlen := congrArg List.length hagain
      rw [List.length_cons, List.length_append, List.length_cons] at hlen
      omega

/-- The first node is not one of the rest. -/
theorem Chain.ne_head {x y : ℕ × α} (h : Chain nodes p (x :: l)) (hy : y ∈ l) : y.1 ≠ x.1 := by
  have hnot : x.1 ∉ l.map Prod.fst := (List.nodup_cons.mp h.nodup).1
  have hmem : y.1 ∈ l.map Prod.fst := List.mem_map_of_mem hy
  intro heq
  exact hnot (heq ▸ hmem)

/-- Every node of a chain is allocated. -/
theorem Chain.mem_keys (h : Chain nodes p l) {x : ℕ × α} (hx : x ∈ l) : x.1 ∈ nodes.keys := by
  induction h with
  | nil => cases hx
  | cons hnode htail ih =>
      rcases List.mem_cons.mp hx with rfl | hx
      · exact AList.mem_keys.mp (AList.lookup_isSome.mp (Option.isSome_of_mem hnode))
      · exact ih hx

/-- **A chain is no longer than the memory.** -/
theorem Chain.length_le (h : Chain nodes p l) : l.length ≤ nodes.keys.length := by
  have hsub : l.map Prod.fst ⊆ nodes.keys := by
    intro b hb
    obtain ⟨x, hx, rfl⟩ := List.mem_map.mp hb
    exact h.mem_keys hx
  have hle := (List.subperm_of_subset h.nodup hsub).length_le
  rwa [List.length_map] at hle

/-- **Frame.**  A chain stays as long as its own nodes do. -/
theorem Chain.frame (h : Chain nodes p l) (hsame : ∀ x ∈ l, nodes'.lookup x.1 = nodes.lookup x.1) :
    Chain nodes' p l := by
  induction h with
  | nil => exact Chain.nil
  | cons hnode htail ih =>
      refine Chain.cons ((hsame _ List.mem_cons_self).trans hnode) (ih ?_)
      exact fun x hx => hsame x (List.mem_cons_of_mem _ hx)

end Chains

/-! ### The operations -/

section Operations

variable {nodes : SNodes α} {p : Option ℕ} {elm : ℕ} {v : α} {front back : List (ℕ × α)}

theorem init_holds (nodes : SNodes α) : (init nodes).Holds [] := Chain.nil

theorem insertHead_holds {l : SList α} {items : List (ℕ × α)} (h : l.Holds items)
    (hnew : elm ∉ l.nodes.keys) : (l.insertHead elm v).Holds ((elm, v) :: items) := by
  have htail : Chain (l.nodes.insert elm ⟨v, l.first⟩) l.first items := by
    refine Chain.frame h fun x hx => AList.lookup_insert_ne ?_
    rintro rfl
    exact hnew (Chain.mem_keys h hx)
  exact Chain.cons (n := ⟨v, l.first⟩) (AList.lookup_insert l.nodes) htail

/-- What stands before and after a node is at other addresses. -/
theorem Chain.ne_of_append (h : Chain nodes p (front ++ (elm, v) :: back)) {x : ℕ × α}
    (hx : x ∈ front ++ back) : x.1 ≠ elm := by
  have hnodup := h.nodup
  rw [List.map_append, List.map_cons] at hnodup
  have hnot := (List.nodup_cons.mp (List.nodup_middle.mp hnodup)).1
  rw [← List.map_append] at hnot
  have hmem : x.1 ∈ (front ++ back).map Prod.fst := List.mem_map_of_mem hx
  intro heq
  exact hnot (heq ▸ hmem)

theorem Chain.start_ne (h : Chain nodes p (front ++ (elm, v) :: back)) (hfront : front ≠ []) : p ≠ some elm := by
  cases front with
  | nil => exact absurd rfl hfront
  | cons x front =>
      obtain ⟨rfl, -⟩ := Chain.of_cons h
      intro heq
      exact h.ne_of_append (List.mem_cons_self) (Option.some.inj heq)

/-- **The search** stops at the node before. -/
theorem findBefore_eq {b : ℕ} {w : α} {fuel : ℕ}
    (h : Chain nodes p (front ++ (b, w) :: (elm, v) :: back)) (hfuel : front.length < fuel) :
    findBefore nodes elm fuel p = some b := by
  induction fuel generalizing p front with
  | zero => cases hfuel
  | succ fuel ih =>
      cases front with
      | nil =>
          obtain ⟨rfl, n, hnode, -, htail⟩ := Chain.of_cons h
          have hread : deref nodes (some b) = some n := hnode
          rw [findBefore, hread, Option.bind_some, if_pos htail.of_cons.1]
      | cons x front =>
          obtain ⟨rfl, n, hnode, -, htail⟩ := Chain.of_cons h
          have hread : deref nodes (some x.1) = some n := hnode
          have htail' : Chain nodes n.next (front ++ [(b, w)] ++ (elm, v) :: back) := by
            rwa [← List.append_cons]
          have hne : n.next ≠ some elm := htail'.start_ne (List.append_ne_nil_of_right_ne_nil _ (by simp))
          rw [findBefore, hread, Option.bind_some, if_neg hne]
          exact ih htail (Nat.lt_of_succ_lt_succ hfuel)

/-- The link around a node. -/
theorem Chain.relink {b : ℕ} {w : α} {n m : SNode α}
    (h : Chain nodes p (front ++ (b, w) :: (elm, v) :: back)) (hn : nodes.lookup b = some n)
    (hm : nodes.lookup elm = some m) :
    Chain (nodes.insert b { n with next := m.next }) p (front ++ (b, w) :: back) := by
  induction front generalizing p with
  | nil =>
      obtain ⟨rfl, n', hn', rfl, htail⟩ := Chain.of_cons h
      obtain ⟨-, m', hm', -, hback⟩ := htail.of_cons
      obtain rfl := Option.some.inj (hn.symm.trans hn')
      obtain rfl := Option.some.inj (hm.symm.trans hm')
      refine Chain.cons (n := { n with next := m.next }) (AList.lookup_insert nodes) ?_
      refine hback.frame fun x hx => AList.lookup_insert_ne ?_
      exact Chain.ne_head h (List.mem_cons_of_mem _ hx)
  | cons x front ih =>
      obtain ⟨rfl, k, hk, hval, htail⟩ := Chain.of_cons h
      have hother : x.1 ≠ b := (Chain.ne_head h List.mem_append_cons_self).symm
      have hsame : (nodes.insert b { n with next := m.next }).lookup x.1 = some k :=
        (AList.lookup_insert_ne hother).trans hk
      have hcons := Chain.cons hsame (ih htail)
      rw [hval] at hcons
      exact hcons

/-- **A removal** takes one node out of the list; the others stay where they are. -/
theorem remove_holds {l : SList α} (h : l.Holds (front ++ (elm, v) :: back)) :
    ∃ l', l.remove elm = some l' ∧ l'.Holds (front ++ back) := by
  rcases List.eq_nil_or_concat' front with rfl | ⟨front, x, rfl⟩
  · obtain ⟨hfirst, m, hm, -, hback⟩ := Chain.of_cons h
    refine ⟨{ l with first := m.next }, ?_, hback⟩
    have hread : deref l.nodes (some elm) = some m := hm
    rw [remove, if_pos hfirst, removeHead, hfirst, hread, Option.bind_some]
  · have hsplit : Chain l.nodes l.first (front ++ x :: (elm, v) :: back) := by
      rwa [List.append_cons]
    have hne : l.first ≠ some elm := Chain.start_ne h (by simp)
    obtain ⟨-, n, hn, -, htail⟩ := Chain.of_cons hsplit.suffix
    obtain ⟨hnext, m, hm, -, -⟩ := Chain.of_cons htail
    have hfuel : front.length < l.nodes.keys.length := by
      have hle := hsplit.length_le
      rw [List.length_append, List.length_cons] at hle
      omega
    have hreadN : deref l.nodes (some x.1) = some n := hn
    have hreadM : deref l.nodes n.next = some m := by
      rw [hnext]
      exact hm
    refine ⟨{ l with nodes := l.nodes.insert x.1 { n with next := m.next } }, ?_, ?_⟩
    · rw [remove, if_neg hne, findBefore_eq hsplit hfuel, Option.bind_some, removeAfter, hreadN,
        Option.bind_some, hreadM, Option.bind_some]
    · have hlinked := hsplit.relink hn hm
      rw [List.append_cons] at hlinked
      exact hlinked

/-- **A node that is in no list may be freed.** -/
theorem free_holds {l : SList α} {items : List (ℕ × α)} (h : l.Holds items) (helm : ∀ x ∈ items, x.1 ≠ elm) :
    (l.free elm).Holds items :=
  Chain.frame h fun x hx => AList.lookup_erase_ne (helm x hx)

theorem remove_free_holds {l : SList α} (h : l.Holds (front ++ (elm, v) :: back)) :
    ∃ l', l.remove elm = some l' ∧ (l'.free elm).Holds (front ++ back) := by
  obtain ⟨l', hremove, hholds⟩ := remove_holds h
  exact ⟨l', hremove, free_holds hholds fun x hx => Chain.ne_of_append h hx⟩

end Operations

/-! ### Loops -/

/-- **Loop rule.**  The invariant knows what the loop has kept and what it has not come to yet; the list is the one
and then the other.  The body may remove the node that it is at, and no other. -/
theorem foreachSafe_rule {list : σ → SList α} {body : ℕ → σ → Option σ}
    {I : List (ℕ × α) → List (ℕ × α) → σ → Prop}
    (hlist : ∀ kept todo s, I kept todo s → (list s).Holds (kept ++ todo))
    (hbody : ∀ kept x todo s, I kept (x :: todo) s → ∃ s' kept', body x.1 s = some s' ∧ I kept' todo s')
    {todo kept : List (ℕ × α)} {s : σ} (h : I kept todo s) {fuel : ℕ} (hfuel : todo.length ≤ fuel) :
    ∃ s' kept', foreachSafe list body fuel (todo.head?.map Prod.fst) s = some s' ∧ I kept' [] s' := by
  induction todo generalizing kept s fuel with
  | nil =>
      refine ⟨s, kept, ?_, h⟩
      cases fuel <;> rfl
  | cons x todo ih =>
      cases fuel with
      | zero => exact absurd hfuel (Nat.not_succ_le_zero _)
      | succ fuel =>
          obtain ⟨-, n, hn, -, htail⟩ := Chain.of_cons (hlist kept _ s h).suffix
          obtain ⟨s', kept', hrun, hnext⟩ := hbody kept x todo s h
          obtain ⟨s'', kept'', hrest, hdone⟩ := ih hnext (Nat.le_of_succ_le_succ hfuel)
          refine ⟨s'', kept'', ?_, hdone⟩
          have hread : deref (list s).nodes (some x.1) = some n := hn
          show foreachSafe list body (fuel + 1) (some x.1) s = some s''
          rw [foreachSafe, hread, Option.bind_some, hrun, Option.bind_some, htail.start]
          exact hrest

end SList

end RtkdataFw.Lib
