import Mathlib.Data.List.Basic
import Mathlib.Tactic.Common

/-!
# Stores that are written behind

Writes to a store are seen at once, but reach the medium later, in the order they were made, and for certain only
with a commit.  A power cut keeps any number of the writes since the last commit, oldest first.

* `Always` — what holds whatever a cut leaves;
* `always_write`, `Always.commit`, `Always.cut` — how the operations treat it.
-/

namespace RtkdataFw.Lib

/-- What is on the medium for certain, and the writes since then. -/
structure Journal (σ ω : Type*) where
  durable : σ
  pending : List ω

namespace Journal

variable {σ ω : Type*} (apply : σ → ω → σ)

/-- What a reader sees. -/
def now (j : Journal σ ω) : σ := j.pending.foldl apply j.durable

def write (j : Journal σ ω) (w : ω) : Journal σ ω := { j with pending := j.pending ++ [w] }

def commit (j : Journal σ ω) : Journal σ ω := ⟨j.now apply, []⟩

/-- A power cut that keeps so many of the pending writes. -/
def cut (j : Journal σ ω) (kept : ℕ) : Journal σ ω := ⟨(j.pending.take kept).foldl apply j.durable, []⟩

/-- It holds of what a reader sees, and of everything that a cut can leave. -/
def Always (P : σ → Prop) (j : Journal σ ω) : Prop := ∀ kept, P ((j.pending.take kept).foldl apply j.durable)

variable {apply} {P Q : σ → Prop} {j : Journal σ ω}

@[simp] theorem now_write (j : Journal σ ω) (w : ω) : (j.write w).now apply = apply (j.now apply) w :=
  List.foldl_append

@[simp] theorem now_commit (j : Journal σ ω) : (j.commit apply).now apply = j.now apply := rfl

theorem Always.now (h : Always apply P j) : P (j.now apply) := by
  have hall := h j.pending.length
  rwa [List.take_length] at hall

theorem Always.imp (h : Always apply P j) (hPQ : ∀ s, P s → Q s) : Always apply Q j := fun kept => hPQ _ (h kept)

/-- A clean journal has one state only. -/
theorem always_clean (s : σ) : Always apply P (⟨s, []⟩ : Journal σ ω) ↔ P s := by
  constructor
  · exact fun h => h 0
  · intro h kept
    rw [List.take_nil]
    exact h

/-- **A write** adds one state. -/
theorem always_write (w : ω) : Always apply P (j.write w) ↔ Always apply P j ∧ P (apply (j.now apply) w) := by
  constructor
  · intro h
    refine ⟨?_, ?_⟩
    · intro kept
      have hkept := h (min kept j.pending.length)
      rw [write, List.take_append_of_le_length (Nat.min_le_right _ _), ← List.take_take, List.take_length] at hkept
      exact hkept
    · have hnow := h.now
      rwa [now_write] at hnow
  · rintro ⟨hold, hnew⟩ kept
    rcases Nat.lt_or_ge j.pending.length kept with hlt | hge
    · have hall : (j.pending ++ [w]).take kept = j.pending ++ [w] := by
        apply List.take_of_length_le
        rw [List.length_append, List.length_singleton]
        omega
      show P (((j.pending ++ [w]).take kept).foldl apply j.durable)
      rw [hall, List.foldl_append]
      exact hnew
    · show P (((j.pending ++ [w]).take kept).foldl apply j.durable)
      rw [List.take_append_of_le_length hge]
      exact hold kept

theorem Always.commit (h : Always apply P j) : Always apply P (j.commit apply) := (always_clean _).mpr h.now

theorem Always.cut (h : Always apply P j) (kept : ℕ) : Always apply P (j.cut apply kept) :=
  (always_clean _).mpr (h kept)

end Journal

end RtkdataFw.Lib
