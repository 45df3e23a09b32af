import Mathlib.Data.List.Basic

/-!
# Rounds that pay off what is due

A caller repeats a round until it reports that it is idle.  Each round puts out events, some of which are
payments; `due` is what a state still has to pay.

* `rounds` — so many rounds in a row, with all they put out;
* `rounds_pay` — when a busy round pays the front of what is due and an idle one finds nothing due, the rounds
  are idle at last, and then exactly what was due is paid.
-/

namespace RtkdataFw.Lib

variable {σ ρ ε β : Type*}

/-- `n` rounds from state `s` on, the first of them number `k`: what they report, the state, what they put out. -/
def rounds (round : ℕ → σ → ρ × σ × List ε) : ℕ → ℕ → σ → List ρ × σ × List ε
  | _, 0, s => ([], s, [])
  | k, n + 1, s =>
      let r := round k s
      let q := rounds round (k + 1) n r.2.1
      (r.1 :: q.1, q.2.1, r.2.2 ++ q.2.2)

/-- A round is idle, with nothing due, or pays the front of what is due. -/
structure Pays (round : ℕ → σ → ρ × σ × List ε) (busy idle : ρ) (I Done : σ → Prop) (due : σ → List β)
    (paid : List ε → List β) : Prop where
  append : ∀ evs fs, paid (evs ++ fs) = paid evs ++ paid fs
  step : ∀ k s, I s →
    (due s = [] ∧ (round k s).1 = idle ∧ Done (round k s).2.1 ∧ paid (round k s).2.2 = []) ∨
      ((round k s).1 = busy ∧ I (round k s).2.1 ∧ paid (round k s).2.2 ≠ [] ∧
        paid (round k s).2.2 ++ due (round k s).2.1 = due s)

/-- **The rounds end, with everything paid.** -/
theorem rounds_pay {round : ℕ → σ → ρ × σ × List ε} {busy idle : ρ} {I Done : σ → Prop} {due : σ → List β}
    {paid : List ε → List β} (h : Pays round busy idle I Done due paid) (k : ℕ) {s : σ} (hs : I s) :
    ∃ n, (rounds round k (n + 1) s).1 = List.replicate n busy ++ [idle] ∧
      Done (rounds round k (n + 1) s).2.1 ∧ paid (rounds round k (n + 1) s).2.2 = due s := by
  induction hlen : (due s).length using Nat.strongRecOn generalizing k s with
  | ind len ih =>
      rcases h.step k s hs with ⟨hdue, hidle, hdone, hpaid⟩ | ⟨hbusy, hnext, hsome, hrest⟩
      · refine ⟨0, ?_, hdone, ?_⟩
        · show [(round k s).1] = [idle]
          rw [hidle]
        · show paid ((round k s).2.2 ++ []) = due s
          rw [List.append_nil, hpaid, hdue]
      · have hless : (due (round k s).2.1).length < len := by
          have hpos := List.length_pos_of_ne_nil hsome
          rw [← hlen, ← hrest, List.length_append]
          omega
        obtain ⟨n, hreports, hdone, hpaid⟩ := ih _ hless (k + 1) hnext rfl
        refine ⟨n + 1, ?_, hdone, ?_⟩
        · show (round k s).1 :: (rounds round (k + 1) (n + 1) (round k s).2.1).1 = _
          rw [hreports, hbusy]
          rfl
        · show paid ((round k s).2.2 ++ (rounds round (k + 1) (n + 1) (round k s).2.1).2.2) = due s
          rw [h.append, hpaid, hrest]

end RtkdataFw.Lib
