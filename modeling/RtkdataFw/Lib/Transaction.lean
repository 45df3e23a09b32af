import Mathlib.Data.List.Basic
import Mathlib.Logic.Function.Basic
import RtkdataFw.Lib.Machine

/-!
# Transactions under a recursive lock

Threads run programs over a state that they share with an environment.  A program takes and gives the lock, which
its holder may take again, and acts on the shared state in between; what an action gives back decides how the
program goes on.  The environment does not take the lock.

* `Prog`, `Prog.Transaction` — programs, and those that act under the lock only and are over when they give it;
* `threads` — the machine of all threads, one action at a time;
* `Runs`, `Serial` — one program from a state on, and programs one after the other, with the environment in
  between;
* `serializable` — whatever the threads interleave is serial, in the order in which they got the lock;
* `Ends`, `Runs.ends` — what a program does to a part of the state that the environment leaves alone.

Nothing here names a particular program.
-/

namespace RtkdataFw.Lib

/-- A program with actions `α`; `ρ a` is what action `a` gives back. -/
inductive Prog (α : Type) (ρ : α → Type) where
  | done
  | take (k : Prog α ρ)
  | give (k : Prog α ρ)
  | act (a : α) (k : ρ a → Prog α ρ)

namespace Prog

variable {α : Type} {ρ : α → Type}

/-- With the lock taken so many times, the program acts while it has it, gives it as often, and is over then. -/
def Inside : Prog α ρ → ℕ → Prop
  | .done, d => d = 0
  | .take k, d => 0 < d ∧ k.Inside (d + 1)
  | .give k, d => 0 < d ∧ k.Inside (d - 1)
  | .act _ k, d => 0 < d ∧ ∀ v, (k v).Inside d

/-- Nothing, or one stretch under the lock. -/
def Transaction : Prog α ρ → Prop
  | .done => True
  | .take k => k.Inside 1
  | _ => False

theorem inside_zero {p : Prog α ρ} (h : p.Inside 0) : p = .done := by
  cases p with
  | done => rfl
  | take k => exact absurd h.1 (Nat.lt_irrefl 0)
  | give k => exact absurd h.1 (Nat.lt_irrefl 0)
  | act a k => exact absurd h.1 (Nat.lt_irrefl 0)

end Prog

/-- The shared state `σ`: what an action does to it, gives back and shows, with an input from outside; and the
same for an event of the environment. -/
structure SharedState (α : Type) (ρ : α → Type) (σ ι ε ο : Type) where
  exec : (a : α) → σ → ι → σ × ρ a × List ο
  env : σ → ε → σ × List ο

/-- All threads: the holder of the lock with how often it has taken it, and what each has been asked for and has
still to do. -/
structure Threads (τ κ α : Type) (ρ : α → Type) (σ : Type) where
  shared : σ
  lock : Option (τ × ℕ)
  todo : τ → Option (κ × Prog α ρ)

inductive ThreadEvent (τ κ ι ε : Type) where
  /-- A thread that has nothing to do is asked for something. -/
  | start (t : τ) (r : κ)
  | step (t : τ) (i : ι)
  | env (e : ε)

inductive ThreadObs (τ κ ο : Type) where
  /-- A thread gets the lock for what it has been asked for. -/
  | began (t : τ) (r : κ)
  | did (t : τ) (o : ο)
  | other (o : ο)
  deriving DecidableEq

variable {τ κ α : Type} {ρ : α → Type} {σ ι ε ο : Type}
variable (sh : SharedState α ρ σ ι ε ο) (code : κ → Prog α ρ)

/-! ### One thread alone -/

/-- Thread `t` comes from `p` to `p'`, with the environment in between. -/
inductive Runs (t : τ) : Prog α ρ → σ → List (ThreadObs τ κ ο) → Prog α ρ → σ → Prop where
  | refl (p : Prog α ρ) (s : σ) : Runs t p s [] p s
  | take {k p : Prog α ρ} {s s' : σ} {os : List (ThreadObs τ κ ο)} :
      Runs t k s os p s' → Runs t (.take k) s os p s'
  | give {k p : Prog α ρ} {s s' : σ} {os : List (ThreadObs τ κ ο)} :
      Runs t k s os p s' → Runs t (.give k) s os p s'
  | act {a : α} {k : ρ a → Prog α ρ} {p : Prog α ρ} {s s' : σ} {os : List (ThreadObs τ κ ο)} (i : ι) :
      Runs t (k (sh.exec a s i).2.1) (sh.exec a s i).1 os p s' →
        Runs t (.act a k) s ((sh.exec a s i).2.2.map (.did t) ++ os) p s'
  | env {p p' : Prog α ρ} {s s' : σ} {os : List (ThreadObs τ κ ο)} (e : ε) :
      Runs t p (sh.env s e).1 os p' s' → Runs t p s ((sh.env s e).2.map .other ++ os) p' s'

/-- Programs one after the other, each from the lock to its end, with the environment in between: who ran what. -/
inductive Serial : σ → List (τ × κ) → List (ThreadObs τ κ ο) → σ → Prop where
  | nil (s : σ) : Serial s [] [] s
  | env {s s' : σ} {cs : List (τ × κ)} {os : List (ThreadObs τ κ ο)} (e : ε) :
      Serial s cs os s' → Serial s cs (os ++ (sh.env s' e).2.map .other) (sh.env s' e).1
  | call {s s₁ s' : σ} {cs : List (τ × κ)} {os os' : List (ThreadObs τ κ ο)} {t : τ} {r : κ} {k : Prog α ρ} :
      Serial s cs os s₁ → code r = .take k → Runs sh t k s₁ os' .done s' →
        Serial s (cs ++ [(t, r)]) (os ++ .began t r :: os') s'

variable {sh}

theorem Runs.trans {t : τ} {p q w : Prog α ρ} {s s₁ s' : σ} {os os' : List (ThreadObs τ κ ο)}
    (h : Runs sh t p s os q s₁) (h' : Runs sh t q s₁ os' w s') : Runs sh t p s (os ++ os') w s' := by
  induction h with
  | refl => exact h'
  | take _ ih => exact .take (ih h')
  | give _ ih => exact .give (ih h')
  | act i _ ih =>
      rw [List.append_assoc]
      exact .act i (ih h')
  | env e _ ih =>
      rw [List.append_assoc]
      exact .env e (ih h')

theorem Runs.snocEnv {t : τ} {p q : Prog α ρ} {s s₁ : σ} {os : List (ThreadObs τ κ ο)}
    (h : Runs sh t p s os q s₁) (e : ε) :
    Runs sh t p s (os ++ (sh.env s₁ e).2.map .other) q (sh.env s₁ e).1 := by
  have hone : Runs sh t q s₁ ((sh.env s₁ e).2.map (.other (κ := κ)) ++ []) q (sh.env s₁ e).1 := .env e (.refl _ _)
  rw [List.append_nil] at hone
  exact h.trans hone

theorem Runs.snocAct {t : τ} {p : Prog α ρ} {a : α} {k : ρ a → Prog α ρ} {s s₁ : σ} {os : List (ThreadObs τ κ ο)}
    (h : Runs sh t p s os (.act a k) s₁) (i : ι) :
    Runs sh t p s (os ++ (sh.exec a s₁ i).2.2.map (.did t)) (k (sh.exec a s₁ i).2.1) (sh.exec a s₁ i).1 := by
  have hone : Runs sh t (.act a k) s₁ ((sh.exec a s₁ i).2.2.map (.did (κ := κ) t) ++ []) (k (sh.exec a s₁ i).2.1)
      (sh.exec a s₁ i).1 := .act i (.refl _ _)
  rw [List.append_nil] at hone
  exact h.trans hone

/-- A step that only moves the lock. -/
theorem Runs.snocTake {t : τ} {p k : Prog α ρ} {s s₁ : σ} {os : List (ThreadObs τ κ ο)}
    (h : Runs sh t p s os (.take k) s₁) : Runs sh t p s os k s₁ := by
  have hone := h.trans (.take (.refl k s₁))
  rwa [List.append_nil] at hone

theorem Runs.snocGive {t : τ} {p k : Prog α ρ} {s s₁ : σ} {os : List (ThreadObs τ κ ο)}
    (h : Runs sh t p s os (.give k) s₁) : Runs sh t p s os k s₁ := by
  have hone := h.trans (.give (.refl k s₁))
  rwa [List.append_nil] at hone

/-! ### All threads -/

variable [DecidableEq τ] (sh)

namespace Threads

variable (s : Threads τ κ α ρ σ)

/-- Thread `t` goes on with `p`. -/
def goOn (t : τ) (r : κ) (p : Prog α ρ) : Threads τ κ α ρ σ :=
  { s with todo := Function.update s.todo t (some (r, p)) }

/-- The lock after its holder has given it once. -/
def given (t : τ) : Option (τ × ℕ) :=
  match s.lock with
  | some (u, d) => if u = t then (if d ≤ 1 then none else some (t, d - 1)) else s.lock
  | none => none

/-- One step of a thread.  It waits while another has the lock that it is to take. -/
def stepThread (t : τ) (i : ι) : Threads τ κ α ρ σ × List (ThreadObs τ κ ο) :=
  match s.todo t with
  | none => (s, [])
  | some (_, .done) => ({ s with todo := Function.update s.todo t none }, [])
  | some (r, .take k) =>
      match s.lock with
      | none => ({ s.goOn t r k with lock := some (t, 1) }, [.began t r])
      | some (u, d) => if u = t then ({ s.goOn t r k with lock := some (t, d + 1) }, []) else (s, [])
  | some (r, .give k) => ({ s.goOn t r k with lock := s.given t }, [])
  | some (r, .act a k) =>
      let next := sh.exec a s.shared i
      ({ s.goOn t r (k next.2.1) with shared := next.1 }, next.2.2.map (.did t))

def next : ThreadEvent τ κ ι ε → Threads τ κ α ρ σ × List (ThreadObs τ κ ο)
  | .start t r =>
      match s.todo t with
      | none => (s.goOn t r (code r), [])
      | some _ => (s, [])
  | .step t i => s.stepThread sh t i
  | .env e => ({ s with shared := (sh.env s.shared e).1 }, (sh.env s.shared e).2.map .other)

end Threads

def threads : Machine (Threads τ κ α ρ σ) (ThreadEvent τ κ ι ε) (ThreadObs τ κ ο) where
  step s e := (s.next sh code e).1
  out s e := (s.next sh code e).2

/-- Nothing is to be done, and nobody has the lock. -/
def threadsInit (s₀ : σ) : Threads τ κ α ρ σ := ⟨s₀, none, fun _ => none⟩


variable {sh code} {s₀ : σ} {s : Threads τ κ α ρ σ} {os : List (ThreadObs τ κ ο)}

/-- Thread `t` has the lock for `r`: what came before is serial, and `t` has come from behind its first `take` to
where it is. -/
structure Holding (sh : SharedState α ρ σ ι ε ο) (code : κ → Prog α ρ) (s₀ : σ) (s : Threads τ κ α ρ σ)
    (os : List (ThreadObs τ κ ο)) (t : τ) (d : ℕ) (r : κ) (p : Prog α ρ) : Prop where
  todo : s.todo t = some (r, p)
  inside : p.Inside d
  pos : 0 < d
  serial : ∃ cs before s₁ k after, Serial sh code s₀ cs before s₁ ∧ code r = .take k ∧
    Runs sh t k s₁ after p s.shared ∧ os = before ++ .began t r :: after

/-- The lock, the programs and what was put out so far. -/
structure ThreadsOk (sh : SharedState α ρ σ ι ε ο) (code : κ → Prog α ρ) (s₀ : σ) (s : Threads τ κ α ρ σ)
    (os : List (ThreadObs τ κ ο)) : Prop where
  waits : ∀ t, (∀ d, s.lock ≠ some (t, d)) → ∀ r p, s.todo t = some (r, p) → p = .done ∨ p = code r
  free : s.lock = none → ∃ cs, Serial sh code s₀ cs os s.shared
  held : ∀ t d, s.lock = some (t, d) → ∃ r p, Holding sh code s₀ s os t d r p

omit [DecidableEq τ] in
theorem threadsOk_init : ThreadsOk sh code s₀ (threadsInit s₀ : Threads τ κ α ρ σ) [] where
  waits _ _ _ _ h := by cases h
  free _ := ⟨[], .nil s₀⟩
  held _ _ h := by cases h

omit [DecidableEq τ] in
/-- A thread that acts, or gives the lock, has it. -/
theorem ThreadsOk.holds (h : ThreadsOk sh code s₀ s os) (hcode : ∀ r, (code r).Transaction) {t : τ} {r : κ}
    {p : Prog α ρ} (htodo : s.todo t = some (r, p)) (hdone : p ≠ .done) (htake : ∀ k, p ≠ .take k) :
    ∃ d, s.lock = some (t, d) ∧ Holding sh code s₀ s os t d r p := by
  by_cases hlock : ∀ d, s.lock ≠ some (t, d)
  · exfalso
    have hp : p = code r := (h.waits t hlock r p htodo).resolve_left hdone
    have htrans := hcode r
    rw [← hp] at htrans
    cases p with
    | done => exact hdone rfl
    | take k => exact htake k rfl
    | give k => exact htrans
    | act a k => exact htrans
  · obtain ⟨d, hlock⟩ := not_forall_not.mp hlock
    obtain ⟨r', p', hhold⟩ := h.held t d hlock
    obtain ⟨rfl, rfl⟩ := Prod.mk.inj (Option.some.inj (hhold.todo.symm.trans htodo))
    exact ⟨d, hlock, hhold⟩

/-- Other threads than `t` go on as they were, when `t` neither was kept from the lock nor leaves it to another. -/
theorem waits_goOn {lock : Option (τ × ℕ)} {t : τ} {r : κ} {p : Prog α ρ}
    (h : ∀ u, (∀ d, s.lock ≠ some (u, d)) → ∀ r p, s.todo u = some (r, p) → p = .done ∨ p = code r)
    (hothers : ∀ u, u ≠ t → (∀ d, lock ≠ some (u, d)) → ∀ d, s.lock ≠ some (u, d))
    (hself : (∀ d, lock ≠ some (t, d)) → p = .done ∨ p = code r) (u : τ) (hu : ∀ d, lock ≠ some (u, d)) (r' : κ)
    (p' : Prog α ρ) (htodo : (s.goOn t r p).todo u = some (r', p')) : p' = .done ∨ p' = code r' := by
  by_cases hut : u = t
  · subst hut
    have hnew : (s.goOn u r p).todo u = some (r, p) := Function.update_self _ _ _
    obtain ⟨rfl, rfl⟩ := Prod.mk.inj (Option.some.inj (hnew.symm.trans htodo))
    exact hself hu
  · have hold : (s.goOn t r p).todo u = s.todo u := Function.update_of_ne hut _ _
    exact h u (hothers u hut hu) r' p' (hold.symm.trans htodo)

theorem goOn_self (t : τ) (r : κ) (p : Prog α ρ) : (s.goOn t r p).todo t = some (r, p) :=
  Function.update_self _ _ _

/-- **The lock is taken.** -/
theorem ThreadsOk.take (h : ThreadsOk sh code s₀ s os) {t : τ} {r : κ} {k : Prog α ρ}
    (hcode : ∀ r, (code r).Transaction) (htodo : s.todo t = some (r, .take k)) (hlock : s.lock = none) :
    ThreadsOk sh code s₀ { s.goOn t r k with lock := some (t, 1) } (os ++ [.began t r]) where
  waits := waits_goOn h.waits (fun u _ _ d => by rw [hlock]; simp) (fun hno => absurd rfl (hno 1))
  free hnone := by cases hnone
  held u d heq := by
    obtain ⟨rfl, rfl⟩ := Prod.mk.inj (Option.some.inj heq)
    have hp : .take k = code r :=
      (h.waits t (fun d => by rw [hlock]; simp) r _ htodo).resolve_left (fun hdone => by cases hdone)
    obtain ⟨cs, hserial⟩ := h.free hlock
    have hinside : (.take k : Prog α ρ).Transaction := hp ▸ hcode r
    exact ⟨r, k, goOn_self t r k, hinside, Nat.one_pos, cs, os, s.shared, k, [], hserial, hp.symm, .refl _ _, rfl⟩

omit [DecidableEq τ] in
/-- What the holder does goes behind what it has done. -/
theorem Holding.move (h : Holding sh code s₀ s os t d r p) {s' : Threads τ κ α ρ σ} {p' : Prog α ρ} {d' : ℕ}
    {os' : List (ThreadObs τ κ ο)} (htodo : s'.todo t = some (r, p')) (hinside : p'.Inside d') (hpos : 0 < d')
    (hruns : ∀ s₁ k after, Runs sh t k s₁ after p s.shared → Runs sh t k s₁ (after ++ os') p' s'.shared) :
    Holding sh code s₀ s' (os ++ os') t d' r p' := by
  obtain ⟨cs, before, s₁, k, after, hserial, hcode, hsofar, hos⟩ := h.serial
  refine ⟨htodo, hinside, hpos, cs, before, s₁, k, after ++ os', hserial, hcode, hruns _ _ _ hsofar, ?_⟩
  rw [hos, List.append_assoc]
  rfl

omit [DecidableEq τ] in
/-- The environment moves the shared state alone. -/
theorem ThreadsOk.env (h : ThreadsOk sh code s₀ s os) (e : ε) :
    ThreadsOk sh code s₀ { s with shared := (sh.env s.shared e).1 } (os ++ (sh.env s.shared e).2.map .other) where
  waits := h.waits
  free hnone := by
    obtain ⟨cs, hserial⟩ := h.free hnone
    exact ⟨cs, .env e hserial⟩
  held t d hlock := by
    obtain ⟨r, p, hhold⟩ := h.held t d hlock
    exact ⟨r, p, hhold.move hhold.todo hhold.inside hhold.pos fun _ _ _ hruns => hruns.snocEnv e⟩

/-- A thread is asked for something. -/
theorem ThreadsOk.start (h : ThreadsOk sh code s₀ s os) {t : τ} {r : κ} (htodo : s.todo t = none) :
    ThreadsOk sh code s₀ (s.goOn t r (code r)) os where
  waits := waits_goOn h.waits (fun _ _ hu => hu) (fun _ => .inr rfl)
  free := h.free
  held u d hlock := by
    obtain ⟨r', p, hhold⟩ := h.held u d hlock
    have hut : u ≠ t := by
      rintro rfl
      rw [hhold.todo] at htodo
      cases htodo
    exact ⟨r', p, (Function.update_of_ne hut _ _).trans hhold.todo, hhold.inside, hhold.pos, hhold.serial⟩

/-- A thread is done. -/
theorem ThreadsOk.finish (h : ThreadsOk sh code s₀ s os) {t : τ} {r : κ} (htodo : s.todo t = some (r, .done)) :
    ThreadsOk sh code s₀ { s with todo := Function.update s.todo t none } os where
  waits u hu r' p' hp := by
    have hut : u ≠ t := by
      rintro rfl
      have hnone : Function.update s.todo u none u = none := Function.update_self _ _ _
      cases hnone.symm.trans hp
    exact h.waits u hu r' p' ((Function.update_of_ne hut _ _).symm.trans hp)
  free := h.free
  held u d hlock := by
    obtain ⟨r', p, hhold⟩ := h.held u d hlock
    have hut : u ≠ t := by
      rintro rfl
      obtain ⟨rfl, rfl⟩ := Prod.mk.inj (Option.some.inj (hhold.todo.symm.trans htodo))
      exact absurd hhold.inside (Nat.pos_iff_ne_zero.mp hhold.pos)
    exact ⟨r', p, (Function.update_of_ne hut _ _).trans hhold.todo, hhold.inside, hhold.pos, hhold.serial⟩

/-- The holder takes the lock once more. -/
theorem ThreadsOk.takeAgain (h : ThreadsOk sh code s₀ s os) {t : τ} {r : κ} {k : Prog α ρ} {d : ℕ}
    (htodo : s.todo t = some (r, .take k)) (hlock : s.lock = some (t, d)) :
    ThreadsOk sh code s₀ { s.goOn t r k with lock := some (t, d + 1) } (os ++ []) where
  waits := waits_goOn h.waits
    (fun u hut _ d' heq => hut (Prod.mk.inj (Option.some.inj (heq.symm.trans hlock))).1)
    (fun hno => absurd rfl (hno (d + 1)))
  free hnone := by cases hnone
  held u d' heq := by
    obtain ⟨rfl, rfl⟩ := Prod.mk.inj (Option.some.inj heq)
    obtain ⟨r', p, hhold⟩ := h.held t d hlock
    obtain ⟨rfl, rfl⟩ := Prod.mk.inj (Option.some.inj (hhold.todo.symm.trans htodo))
    refine ⟨r', k, hhold.move (goOn_self t r' k) hhold.inside.2 (Nat.succ_pos d) fun _ _ _ hruns => ?_⟩
    rw [List.append_nil]
    exact hruns.snocTake

/-- The holder acts. -/
theorem ThreadsOk.act (h : ThreadsOk sh code s₀ s os) {t : τ} {d : ℕ} {r : κ} {a : α} {k : ρ a → Prog α ρ}
    (hlock : s.lock = some (t, d)) (hhold : Holding sh code s₀ s os t d r (.act a k)) (i : ι) :
    ThreadsOk sh code s₀
      { s.goOn t r (k (sh.exec a s.shared i).2.1) with shared := (sh.exec a s.shared i).1 }
      (os ++ (sh.exec a s.shared i).2.2.map (.did t)) where
  waits := waits_goOn h.waits (fun _ _ hu => hu) (fun hno => absurd hlock (hno d))
  free hnone := by cases hnone.symm.trans hlock
  held u d' heq := by
    obtain ⟨rfl, rfl⟩ := Prod.mk.inj (Option.some.inj (hlock.symm.trans heq))
    exact ⟨r, _, hhold.move (goOn_self t r _) (hhold.inside.2 _) hhold.pos fun _ _ _ hruns => hruns.snocAct i⟩

/-- The holder gives the lock, once or for good. -/
theorem ThreadsOk.give (h : ThreadsOk sh code s₀ s os) {t : τ} {d : ℕ} {r : κ} {k : Prog α ρ}
    (hlock : s.lock = some (t, d)) (hhold : Holding sh code s₀ s os t d r (.give k)) :
    ThreadsOk sh code s₀ { s.goOn t r k with lock := s.given t } (os ++ []) := by
  have hothers : ∀ u, u ≠ t → ∀ d', s.lock ≠ some (u, d') := fun u hut d' heq =>
    hut (Prod.mk.inj (Option.some.inj (heq.symm.trans hlock))).1
  obtain ⟨hpos, hinside⟩ := hhold.inside
  by_cases hlast : d ≤ 1
  · have hgiven : s.given t = none := by
      rw [Threads.given, hlock]
      dsimp only
      rw [if_pos rfl, if_pos hlast]
    have hzero : d - 1 = 0 := Nat.sub_eq_zero_of_le hlast
    rw [hzero] at hinside
    have hdone := Prog.inside_zero hinside
    rw [hgiven, List.append_nil]
    refine ⟨waits_goOn h.waits (fun u hut _ => hothers u hut) (fun _ => .inl hdone), fun _ => ?_,
      fun _ _ heq => by cases heq⟩
    obtain ⟨cs, before, s₁, k', after, hserial, hcode, hruns, hos⟩ := hhold.serial
    have hruns' := hruns.snocGive
    rw [hdone] at hruns'
    rw [hos]
    exact ⟨_, .call hserial hcode hruns'⟩
  · have hgiven : s.given t = some (t, d - 1) := by
      rw [Threads.given, hlock]
      dsimp only
      rw [if_pos rfl, if_neg hlast]
    rw [hgiven]
    refine ⟨waits_goOn h.waits (fun u hut _ => hothers u hut) (fun hno => absurd rfl (hno (d - 1))),
      fun hnone => (by cases hnone), fun u d' heq => ?_⟩
    obtain ⟨rfl, rfl⟩ := Prod.mk.inj (Option.some.inj heq)
    refine ⟨r, k, hhold.move (goOn_self t r k) hinside (by omega) fun _ _ _ hruns => ?_⟩
    rw [List.append_nil]
    exact hruns.snocGive

/-- **One step of a thread.** -/
theorem ThreadsOk.stepThread (h : ThreadsOk sh code s₀ s os) (hcode : ∀ r, (code r).Transaction) (t : τ) (i : ι) :
    ThreadsOk sh code s₀ (s.stepThread sh t i).1 (os ++ (s.stepThread sh t i).2) := by
  have hsame : ThreadsOk sh code s₀ s (os ++ []) := by rwa [List.append_nil]
  cases htodo : s.todo t with
  | none =>
      simp only [Threads.stepThread, htodo]
      exact hsame
  | some todo =>
      obtain ⟨r, p⟩ := todo
      cases p with
      | done =>
          simp only [Threads.stepThread, htodo, List.append_nil]
          exact h.finish htodo
      | take k =>
          cases hlock : s.lock with
          | none =>
              simp only [Threads.stepThread, htodo, hlock]
              exact h.take hcode htodo hlock
          | some holder =>
              obtain ⟨u, d⟩ := holder
              simp only [Threads.stepThread, htodo, hlock]
              split
              · rename_i hut
                subst hut
                exact h.takeAgain htodo hlock
              · exact hsame
      | give k =>
          obtain ⟨d, hlock, hhold⟩ := h.holds hcode htodo (by simp) (by simp)
          simp only [Threads.stepThread, htodo]
          exact h.give hlock hhold
      | act a k =>
          obtain ⟨d, hlock, hhold⟩ := h.holds hcode htodo (by simp) (by simp)
          simp only [Threads.stepThread, htodo]
          exact h.act hlock hhold i

/-- **One event.** -/
theorem threads_step (h : ThreadsOk sh code s₀ s os) (hcode : ∀ r, (code r).Transaction)
    (e : ThreadEvent τ κ ι ε) :
    ThreadsOk sh code s₀ ((threads sh code).step s e) (os ++ (threads sh code).out s e) := by
  cases e with
  | start t r =>
      show ThreadsOk sh code s₀ (s.next sh code (.start t r)).1 (os ++ (s.next sh code (.start t r)).2)
      cases htodo : s.todo t with
      | none =>
          simp only [Threads.next, htodo, List.append_nil]
          exact h.start htodo
      | some _ =>
          simp only [Threads.next, htodo, List.append_nil]
          exact h
  | step t i => exact h.stepThread hcode t i
  | env e => exact h.env e

/-- **Serializability.**  Whatever the threads and the environment interleave: when nobody has the lock, they have
done what the same programs do one after the other, in the order in which they got it.  Otherwise that holds up to
where the holder began, and it alone has acted since. -/
theorem serializable (hcode : ∀ r, (code r).Transaction) (es : List (ThreadEvent τ κ ι ε)) :
    ThreadsOk sh code s₀ ((threads sh code).run (threadsInit s₀) es)
      ((threads sh code).outputs (threadsInit s₀) es) :=
  (threads sh code).history_nil (P := ThreadsOk sh code s₀) (fun _ _ e h _ => threads_step h hcode e)
    threadsOk_init ((threads sh code).admits_true _ es)

/-! ### What was begun, and who acted -/

/-- Who got the lock for what, in order. -/
def begun (os : List (ThreadObs τ κ ο)) : List (τ × κ) :=
  os.filterMap fun o =>
    match o with
    | .began t r => some (t, r)
    | _ => none

/-- An observation of thread `t` or of the environment. -/
def ThreadObs.OfThread (t : τ) : ThreadObs τ κ ο → Prop
  | .began _ _ => False
  | .did u _ => u = t
  | .other _ => True

omit [DecidableEq τ] in
theorem Runs.ofThread {t : τ} {p q : Prog α ρ} {s s' : σ} {os : List (ThreadObs τ κ ο)}
    (h : Runs sh t p s os q s') : ∀ o ∈ os, o.OfThread t := by
  induction h with
  | refl => exact List.forall_mem_nil _
  | take _ ih => exact ih
  | give _ ih => exact ih
  | act i _ ih =>
      refine List.forall_mem_append.mpr ⟨fun o ho => ?_, ih⟩
      obtain ⟨x, _, rfl⟩ := List.mem_map.mp ho
      rfl
  | env e _ ih =>
      refine List.forall_mem_append.mpr ⟨fun o ho => ?_, ih⟩
      obtain ⟨x, _, rfl⟩ := List.mem_map.mp ho
      trivial

omit [DecidableEq τ] in
theorem begun_ofThread {t : τ} {os : List (ThreadObs τ κ ο)} (h : ∀ o ∈ os, o.OfThread t) : begun os = [] := by
  refine List.filterMap_eq_nil_iff.mpr fun o ho => ?_
  have hown := h o ho
  cases o with
  | began _ _ => exact hown.elim
  | did _ _ => rfl
  | other _ => rfl

omit [DecidableEq τ] in
theorem begun_append (os os' : List (ThreadObs τ κ ο)) : begun (os ++ os') = begun os ++ begun os' :=
  List.filterMap_append

omit [DecidableEq τ] in
theorem begun_other (os : List ο) : begun (os.map (ThreadObs.other (τ := τ) (κ := κ))) = [] := by
  refine List.filterMap_eq_nil_iff.mpr fun o ho => ?_
  obtain ⟨x, _, rfl⟩ := List.mem_map.mp ho
  rfl

omit [DecidableEq τ] in
theorem Serial.begun_eq {s s' : σ} {cs : List (τ × κ)} {os : List (ThreadObs τ κ ο)}
    (h : Serial sh code s cs os s') : begun os = cs := by
  induction h with
  | nil => rfl
  | env e _ ih =>
      rw [begun_append, begun_other, List.append_nil]
      exact ih
  | call _ _ hruns ih =>
      rw [begun_append, ih]
      exact congrArg (fun rest => _ ++ _ :: rest) (begun_ofThread hruns.ofThread)

/-! ### A part of the shared state -/

section Part

variable {γ ℓ : Type} (act : (a : α) → γ → ρ a → List ℓ → γ → Prop)

/-- The program comes to its end with such values given back, and shows this. -/
inductive Ends : Prog α ρ → γ → List ℓ → γ → Prop where
  | done (g : γ) : Ends .done g [] g
  | take {k : Prog α ρ} {g g' : γ} {l : List ℓ} : Ends k g l g' → Ends (.take k) g l g'
  | give {k : Prog α ρ} {g g' : γ} {l : List ℓ} : Ends k g l g' → Ends (.give k) g l g'
  | act {a : α} {k : ρ a → Prog α ρ} {g g₁ g' : γ} {v : ρ a} {l l' : List ℓ} :
      act a g v l g₁ → Ends (k v) g₁ l' g' → Ends (.act a k) g (l ++ l') g'

variable {act}

omit [DecidableEq τ] in
/-- **A run seen on a part**: what the environment does not touch is moved by the program alone. -/
theorem Runs.ends {t : τ} {part : σ → γ} {show' : ThreadObs τ κ ο → List ℓ}
    (hexec : ∀ a s i, act a (part s) (sh.exec a s i).2.1 (((sh.exec a s i).2.2.map (.did t)).flatMap show')
      (part (sh.exec a s i).1))
    (henv : ∀ s e, part (sh.env s e).1 = part s ∧ ((sh.env s e).2.map .other).flatMap show' = [])
    {p q : Prog α ρ} {s s' : σ} {os : List (ThreadObs τ κ ο)} (h : Runs sh t p s os q s') (hq : q = .done) :
    Ends act p (part s) (os.flatMap show') (part s') := by
  induction h with
  | refl p s =>
      subst hq
      exact .done _
  | take _ ih => exact .take (ih hq)
  | give _ ih => exact .give (ih hq)
  | act i _ ih =>
      rw [List.flatMap_append]
      exact .act (hexec _ _ i) (ih hq)
  | env e _ ih =>
      obtain ⟨hpart, hshow⟩ := henv _ e
      rw [List.flatMap_append, hshow, List.nil_append, ← hpart]
      exact ih hq

end Part

end RtkdataFw.Lib
