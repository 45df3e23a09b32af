import Mathlib.Data.List.Induction
import Mathlib.Tactic.Common

/-!
# What happened last in a log

`Since x R Q` says of a log that `x` happened in it, after a beginning with `R`, and that everything since
then is `Q`.

* `since_concat` — how it goes on with the next event;
* `fold_iff_since` — a state bit that is set by `x`, and kept by the events in `Q`, is this property of the
  log;
* `InPlace` — every entry fits what came before it, and `inPlace_append` — how that is checked piece by piece;
* `Latest` — a stamp is the last time of its kind; `Latest.quiet_iff` reads silence off it, and
  `Latest.extend` moves it on.
-/

namespace RtkdataFw.Lib

variable {α σ : Type*}

def Since (x : α) (R : List α → Prop) (Q : α → Prop) (log : List α) : Prop :=
  ∃ pre post, log = pre ++ x :: post ∧ R pre ∧ ∀ e ∈ post, Q e

theorem not_since_nil (x : α) (R : List α → Prop) (Q : α → Prop) : ¬ Since x R Q [] := by
  intro h
  obtain ⟨pre, post, heq, -⟩ := h
  exact absurd heq.symm (by simp)

theorem since_concat {x : α} {R : List α → Prop} {Q : α → Prop} (log : List α) (e : α) :
    Since x R Q (log ++ [e]) ↔ e = x ∧ R log ∨ Q e ∧ Since x R Q log := by
  constructor
  · intro h
    obtain ⟨pre, post, heq, hR, hQ⟩ := h
    rcases List.eq_nil_or_concat post with rfl | ⟨post', last, rfl⟩
    · obtain ⟨rfl, hlast⟩ := List.append_inj' heq rfl
      cases hlast
      exact .inl ⟨rfl, hR⟩
    · have hsplit : log ++ [e] = (pre ++ x :: post') ++ [last] := by
        rw [heq, List.concat_eq_append, List.append_assoc, List.cons_append]
      obtain ⟨rfl, hlast⟩ := List.append_inj' hsplit rfl
      cases hlast
      exact .inr ⟨hQ e (by simp), pre, post', rfl, hR, fun f hf => hQ f (by simp [hf])⟩
  · intro h
    rcases h with ⟨rfl, hR⟩ | ⟨hQe, pre, post, rfl, hR, hQ⟩
    · exact ⟨log, [], rfl, hR, List.forall_mem_nil _⟩
    · refine ⟨pre, post ++ [e], by simp, hR, ?_⟩
      intro f hf
      rcases List.mem_append.mp hf with hf | hf
      · exact hQ f hf
      · rw [List.mem_singleton.mp hf]
        exact hQe

theorem Since.append {x : α} {R : List α → Prop} {Q : α → Prop} {log more : List α} (h : Since x R Q log)
    (hmore : ∀ e ∈ more, Q e) : Since x R Q (log ++ more) := by
  obtain ⟨pre, post, rfl, hR, hQ⟩ := h
  refine ⟨pre, post ++ more, by simp, hR, ?_⟩
  intro e he
  exact (List.mem_append.mp he).elim (hQ e) (hmore e)

/-- **The rule for a bit of a folded state.** -/
theorem fold_iff_since {step : σ → α → σ} {init : σ} {P : σ → Prop} {x : α} {R : List α → Prop}
    {Q : α → Prop} (hinit : ¬ P init)
    (hstep : ∀ log e, P (step (log.foldl step init) e) ↔
      e = x ∧ R log ∨ Q e ∧ P (log.foldl step init)) (log : List α) :
    P (log.foldl step init) ↔ Since x R Q log := by
  induction log using List.reverseRecOn with
  | nil => exact iff_of_false hinit (not_since_nil x R Q)
  | append_singleton log e ih => rw [List.foldl_append, List.foldl_cons, List.foldl_nil, hstep, ih, since_concat]

/-! ### Entries in their place -/

/-- Every entry of the log fits what came before it. -/
def InPlace (Q : List α → α → Prop) (log : List α) : Prop :=
  ∀ pre e post, log = pre ++ e :: post → Q pre e

theorem inPlace_nil (Q : List α → α → Prop) : InPlace Q [] := by
  intro pre e post heq
  exact absurd heq.symm (by simp)

/-- **A log and what is added to it.** -/
theorem inPlace_append {Q : List α → α → Prop} (log more : List α) :
    InPlace Q (log ++ more) ↔ InPlace Q log ∧ InPlace (fun pre e => Q (log ++ pre) e) more := by
  constructor
  · intro h
    refine ⟨?_, ?_⟩
    · intro pre e post heq
      exact h pre e (post ++ more) (by rw [heq, List.append_assoc, List.cons_append])
    · intro pre e post heq
      exact h (log ++ pre) e post (by rw [heq, List.append_assoc])
  · rintro ⟨hlog, hmore⟩ pre e post heq
    rcases List.append_eq_append_iff.mp heq with ⟨rest, rfl, hrest⟩ | ⟨rest, rfl, hrest⟩
    · exact hmore rest e post hrest
    · cases rest with
      | nil =>
          have hfirst := hmore [] e post hrest.symm
          rw [List.append_nil, List.append_nil] at hfirst
          exact hfirst
      | cons f rest =>
          rw [List.cons_append] at hrest
          cases hrest
          exact hlog pre e rest rfl

/-- Entries that fit wherever they stand. -/
theorem inPlace_of_forall {Q : List α → α → Prop} {log : List α} (h : ∀ e ∈ log, ∀ pre, Q pre e) :
    InPlace Q log := by
  intro pre e post heq
  exact h e (by simp [heq]) pre

theorem inPlace_singleton {Q : List α → α → Prop} {e : α} (h : Q [] e) : InPlace Q [e] := by
  intro pre f post heq
  cases pre with
  | nil =>
      cases heq
      exact h
  | cons g pre => exact absurd heq (by simp)

/-! ### The last time -/

/-- The stamp `v` is the last of the times `P`, none of them in the future; it is 0 when there is none. -/
structure Latest (P : ℕ → Prop) (v now : ℕ) : Prop where
  max : ∀ t, P t → t ≤ v
  mem : v = 0 ∨ P v
  le : v ≤ now

/-- The stamp is as old as `d` exactly when every time is, once the clock itself is. -/
theorem Latest.quiet_iff {P : ℕ → Prop} {v now d : ℕ} (h : Latest P v now) (hd : d ≤ now) :
    v + d ≤ now ↔ ∀ t, P t → t + d ≤ now := by
  constructor
  · intro hv t ht
    have hle := h.max t ht
    omega
  · intro hall
    rcases h.mem with hzero | hmem
    · omega
    · exact hall v hmem

theorem Latest.mono {P : ℕ → Prop} {v now now' : ℕ} (h : Latest P v now) (hnow : now ≤ now') :
    Latest P v now' :=
  ⟨h.max, h.mem, Nat.le_trans h.le hnow⟩

theorem Latest.congr {P Q : ℕ → Prop} {v now : ℕ} (h : Latest P v now) (hQ : ∀ t, Q t ↔ P t) :
    Latest Q v now := by
  have heq : Q = P := funext fun t => propext (hQ t)
  rw [heq]
  exact h

/-- The present joins the times when `g` holds. -/
theorem Latest.extend {P Q : ℕ → Prop} {g : Prop} [Decidable g] {v now : ℕ} (h : Latest P v now)
    (hQ : ∀ t, Q t ↔ P t ∨ g ∧ t = now) : Latest Q (if g then now else v) now := by
  by_cases hg : g
  · rw [if_pos hg]
    refine ⟨?_, .inr ((hQ now).mpr (.inr ⟨hg, rfl⟩)), Nat.le_refl now⟩
    intro t ht
    rcases (hQ t).mp ht with hold | ⟨-, rfl⟩
    · exact Nat.le_trans (h.max t hold) h.le
    · exact Nat.le_refl t
  · rw [if_neg hg]
    refine ⟨?_, ?_, h.le⟩
    · intro t ht
      rcases (hQ t).mp ht with hold | ⟨htrue, -⟩
      · exact h.max t hold
      · exact absurd htrue hg
    · rcases h.mem with hzero | hmem
      · exact .inl hzero
      · exact .inr ((hQ v).mpr (.inl hmem))

end RtkdataFw.Lib
