import Mathlib.Data.List.Basic

/-!
# Event machines: runs, traces and the invariant rules

A deterministic machine takes one event at a time: `step` moves the state on and `out` puts out the
observations of that event.  Which events an environment may offer in which state is not part of the
machine; it is a separate predicate, and `Admits` says that a whole run respects it.

* `run_append`, `outputs_append`, `admits_append` — a run over `es ++ fs` is the run over `fs` from
  where `es` ended;
* `invariant` — what one admitted event preserves, every admitted run preserves;
* `history` — the same for a predicate that ties the state to everything put out so far;
* `forall_outputs` — an invariant that makes every observation of one event good makes every
  observation of a run good;
* `forall_outputs_iff` — when the good observations are exactly those of allowed events;
* `invariant_iff` — when the allowed events are exactly those that preserve an invariant;
* `length_outputs_le` — a measure that pays for every observation bounds their number;
* `countP_outputs_le` — the same for one kind of observations, where those of another kind pay in.

Nothing here names a particular program.
-/

namespace RtkdataFw.Lib

/-- A deterministic machine with observations. -/
structure Machine (σ ε ο : Type*) where
  step : σ → ε → σ
  out : σ → ε → List ο

namespace Machine

variable {σ ε ο : Type*} (M : Machine σ ε ο)

/-- The state after a list of events. -/
def run : σ → List ε → σ
  | s, [] => s
  | s, e :: es => run (M.step s e) es

/-- Everything put out along a list of events, in order. -/
def outputs : σ → List ε → List ο
  | _, [] => []
  | s, e :: es => M.out s e ++ outputs (M.step s e) es

/-- Every event of the run is allowed in the state it meets. -/
def Admits (ok : σ → ε → Prop) : σ → List ε → Prop
  | _, [] => True
  | s, e :: es => ok s e ∧ Admits ok (M.step s e) es

instance decidableAdmits (ok : σ → ε → Prop) [∀ s e, Decidable (ok s e)] :
    (s : σ) → (es : List ε) → Decidable (M.Admits ok s es)
  | _, [] => isTrue trivial
  | s, e :: es =>
      have := decidableAdmits ok (M.step s e) es
      inferInstanceAs (Decidable (ok s e ∧ M.Admits ok (M.step s e) es))

@[simp] theorem run_nil (s : σ) : M.run s [] = s := rfl

@[simp] theorem run_cons (s : σ) (e : ε) (es : List ε) :
    M.run s (e :: es) = M.run (M.step s e) es := rfl

@[simp] theorem outputs_nil (s : σ) : M.outputs s [] = [] := rfl

@[simp] theorem outputs_cons (s : σ) (e : ε) (es : List ε) :
    M.outputs s (e :: es) = M.out s e ++ M.outputs (M.step s e) es := rfl

theorem run_append (s : σ) (es fs : List ε) :
    M.run s (es ++ fs) = M.run (M.run s es) fs := by
  induction es generalizing s with
  | nil => rfl
  | cons e es ih => exact ih (M.step s e)

theorem outputs_append (s : σ) (es fs : List ε) :
    M.outputs s (es ++ fs) = M.outputs s es ++ M.outputs (M.run s es) fs := by
  induction es generalizing s with
  | nil => rfl
  | cons e es ih => simp only [List.cons_append, outputs_cons, run_cons, ih, List.append_assoc]

theorem admits_append (ok : σ → ε → Prop) (s : σ) (es fs : List ε) :
    M.Admits ok s (es ++ fs) ↔ M.Admits ok s es ∧ M.Admits ok (M.run s es) fs := by
  induction es generalizing s with
  | nil => simp [Admits]
  | cons e es ih => simp only [List.cons_append, Admits, run_cons, ih, and_assoc]

/-- A condition on the events alone can be read into what is allowed. -/
theorem admits_and {ok : σ → ε → Prop} {q : ε → Prop} {s : σ} {es : List ε}
    (hes : M.Admits ok s es) (hq : ∀ e ∈ es, q e) : M.Admits (fun s e => ok s e ∧ q e) s es := by
  induction es generalizing s with
  | nil => trivial
  | cons e es ih =>
      exact ⟨⟨hes.1, hq e List.mem_cons_self⟩,
        ih hes.2 fun e' he' => hq e' (List.mem_cons_of_mem _ he')⟩

/-- **Invariant rule.**  What every allowed event preserves holds after every allowed run. -/
theorem invariant {ok : σ → ε → Prop} {I : σ → Prop}
    (hstep : ∀ s e, I s → ok s e → I (M.step s e)) {s : σ} {es : List ε}
    (hs : I s) (hes : M.Admits ok s es) : I (M.run s es) := by
  induction es generalizing s with
  | nil => exact hs
  | cons e es ih => exact ih (hstep s e hs hes.1) hes.2

/-- Under an invariant of the allowed runs, what is allowed may be said another way. -/
theorem admits_of_invariant {ok ok' : σ → ε → Prop} {I : σ → Prop}
    (hstep : ∀ s e, I s → ok s e → I (M.step s e)) (himp : ∀ s e, I s → ok s e → ok' s e) {s : σ}
    {es : List ε} (hs : I s) (hes : M.Admits ok s es) : M.Admits ok' s es := by
  induction es generalizing s with
  | nil => trivial
  | cons e es ih => exact ⟨himp s e hs hes.1, ih (hstep s e hs hes.1) hes.2⟩

/-- **History rule.**  The predicate may also speak of everything put out so far. -/
theorem history {ok : σ → ε → Prop} {P : σ → List ο → Prop}
    (hstep : ∀ s os e, P s os → ok s e → P (M.step s e) (os ++ M.out s e))
    {s : σ} {os : List ο} {es : List ε} (hs : P s os) (hes : M.Admits ok s es) :
    P (M.run s es) (os ++ M.outputs s es) := by
  induction es generalizing s os with
  | nil => simpa using hs
  | cons e es ih =>
      have := ih (hstep s os e hs hes.1) hes.2
      simpa only [run_cons, outputs_cons, List.append_assoc] using this

/-- The history rule from an empty history. -/
theorem history_nil {ok : σ → ε → Prop} {P : σ → List ο → Prop}
    (hstep : ∀ s os e, P s os → ok s e → P (M.step s e) (os ++ M.out s e))
    {s : σ} {es : List ε} (hs : P s []) (hes : M.Admits ok s es) :
    P (M.run s es) (M.outputs s es) := by
  have hall := M.history hstep hs hes
  rwa [List.nil_append] at hall

/-- An invariant under which one event only puts out good observations: the whole run does. -/
theorem forall_outputs {ok : σ → ε → Prop} {I : σ → Prop} {Q : ο → Prop}
    (hstep : ∀ s e, I s → ok s e → I (M.step s e))
    (hout : ∀ s e, I s → ok s e → ∀ o ∈ M.out s e, Q o) {s : σ} {es : List ε}
    (hs : I s) (hes : M.Admits ok s es) : ∀ o ∈ M.outputs s es, Q o := by
  induction es generalizing s with
  | nil => intro o ho; simp at ho
  | cons e es ih =>
      intro o ho
      rcases List.mem_append.mp ho with ho | ho
      · exact hout s e hs hes.1 o ho
      · exact ih (hstep s e hs hes.1) hes.2 o ho

/-- **Exact output rule.**  When the observations of one event are good exactly if it is `allowed`, those of a run
are good exactly if all its events are. -/
theorem forall_outputs_iff {ok allowed : σ → ε → Prop} {I : σ → Prop} {Q : ο → Prop}
    (hstep : ∀ s e, I s → ok s e → I (M.step s e))
    (hout : ∀ s e, I s → ((∀ o ∈ M.out s e, Q o) ↔ allowed s e)) {s : σ} {es : List ε}
    (hs : I s) (hes : M.Admits ok s es) : (∀ o ∈ M.outputs s es, Q o) ↔ M.Admits allowed s es := by
  induction es generalizing s with
  | nil => exact iff_of_true (List.forall_mem_nil _) trivial
  | cons e es ih =>
      have hrest := ih (hstep s e hs hes.1) hes.2
      rw [outputs_cons, List.forall_mem_append]
      exact and_congr (hout s e hs) hrest

/-- **Exact invariant rule.**  When an event keeps the invariant exactly if it is allowed, the runs that
keep it throughout are exactly the allowed ones. -/
theorem invariant_iff {ok : σ → ε → Prop} {I : σ → Prop}
    (hstep : ∀ s e, I s → (I (M.step s e) ↔ ok s e)) {s : σ} (hs : I s) (es : List ε) :
    (∀ fs, fs <+: es → I (M.run s fs)) ↔ M.Admits ok s es := by
  induction es generalizing s with
  | nil =>
      refine iff_of_true ?_ trivial
      intro fs hfs
      rw [List.prefix_nil.mp hfs]
      exact hs
  | cons e es ih =>
      constructor
      · intro h
        have hnext : I (M.step s e) := h [e] ⟨es, rfl⟩
        exact ⟨(hstep s e hs).mp hnext,
          (ih hnext).mp fun fs hfs => h (e :: fs) (List.cons_prefix_cons.mpr ⟨rfl, hfs⟩)⟩
      · intro h fs hfs
        obtain ⟨he, hes⟩ := h
        cases fs with
        | nil => exact hs
        | cons f fs =>
            obtain ⟨rfl, htail⟩ := List.cons_prefix_cons.mp hfs
            exact (ih ((hstep s f hs).mpr he)).mpr hes fs htail

/-- **Budget rule.**  What every allowed event puts out is paid for by a measure of the state. -/
theorem length_outputs_le {ok : σ → ε → Prop} (μ : σ → ℕ)
    (hstep : ∀ s e, ok s e → (M.out s e).length + μ (M.step s e) ≤ μ s) {s : σ} {es : List ε}
    (hes : M.Admits ok s es) : (M.outputs s es).length ≤ μ s := by
  induction es generalizing s with
  | nil => exact Nat.zero_le _
  | cons e es ih =>
      have hhead := hstep s e hes.1
      have htail := ih hes.2
      rw [outputs_cons, List.length_append]
      omega

/-- **Ledger rule.**  The observations of one kind are paid for by a measure of the state, into which each
observation of another kind pays `c`. -/
theorem countP_outputs_le {ok : σ → ε → Prop} {I : σ → Prop} (μ : σ → ℕ) (p q : ο → Bool) (c : ℕ)
    (hinv : ∀ s e, I s → ok s e → I (M.step s e))
    (hstep : ∀ s e, I s → ok s e →
      (M.out s e).countP p + μ (M.step s e) ≤ μ s + c * (M.out s e).countP q)
    {s : σ} {es : List ε} (hs : I s) (hes : M.Admits ok s es) :
    (M.outputs s es).countP p ≤ μ s + c * (M.outputs s es).countP q := by
  induction es generalizing s with
  | nil => exact Nat.zero_le _
  | cons e es ih =>
      have hhead := hstep s e hs hes.1
      have htail := ih (hinv s e hs hes.1) hes.2
      rw [outputs_cons, List.countP_append, List.countP_append, Nat.mul_add]
      omega

/-- Every run is allowed when nothing is forbidden. -/
theorem admits_true (s : σ) (es : List ε) : M.Admits (fun _ _ => True) s es := by
  induction es generalizing s with
  | nil => trivial
  | cons e es ih => exact ⟨trivial, ih (M.step s e)⟩

/-- What holds of every event may be asked of every event. -/
theorem admits_of_forall {P : ε → Prop} {s : σ} {es : List ε} (h : ∀ e ∈ es, P e) :
    M.Admits (fun _ e => P e) s es := by
  induction es generalizing s with
  | nil => trivial
  | cons e es ih => exact ⟨h e List.mem_cons_self, ih fun f hf => h f (List.mem_cons_of_mem e hf)⟩

end Machine

end RtkdataFw.Lib
