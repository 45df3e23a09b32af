import Mathlib.Data.List.Basic
import Mathlib.Data.List.Pairwise
import Mathlib.Tactic.Common

/-!
# Resynchronising scanners

A framing looks at the front of a stream and says one of three things: wait for more, the first
symbol starts no frame, or the first `n` symbols are a frame.  The scanner drops symbols that start no
frame one at a time, cuts frames out whole, and stops when the framing has to wait.

* `scan_bytes` — the tokens and the unread rest are the stream, every symbol in exactly one place;
* `scan_append` — scanning a stream in pieces is scanning it whole: what was unread is carried on;
* `place` and `scan_place_sound`, `place_pairwise` — the frames with the positions they were cut from:
  contiguous pieces of the stream, disjoint and in stream order;
* `scan_finds` — if a frame starts at position `k`, then it is cut out, unless a frame cut out before
  `k` runs over it, as soon as the stream is long enough for the frame and for the framing to have
  given up every wait that began before `k`;
* `scan_frames` — a stream that is nothing but frames is cut into just these.
-/

namespace RtkdataFw.Lib.Resync

variable {α ρ : Type*}

/-- What a framing says about the front of a stream. -/
inductive Verdict (ρ : Type*) where
  | wait
  | skip (r : ρ)
  | frame (n : ℕ)
  deriving DecidableEq

/-- A framing: its verdicts rest on the symbols seen and are never revised. -/
structure Framing (α ρ : Type*) where
  judge : List α → Verdict ρ
  judge_nil : judge [] = .wait
  stable : ∀ l m, judge l ≠ .wait → judge (l ++ m) = judge l
  frame_bound : ∀ l n, judge l = .frame n → 0 < n ∧ n ≤ l.length
  frame_take : ∀ l n, judge l = .frame n → judge (l.take n) = .frame n

/-- A piece of the scanned stream. -/
inductive Token (α ρ : Type*) where
  | junk (r : ρ) (a : α)
  | frame (f : List α)
  deriving DecidableEq

def Token.bytes : Token α ρ → List α
  | .junk _ a => [a]
  | .frame f => f

variable (F : Framing α ρ)

/-- The tokens at the front of the stream and the rest the framing has to wait on. -/
def scan (l : List α) : List (Token α ρ) × List α :=
  match h : F.judge l with
  | .wait => ([], l)
  | .skip r =>
      match l with
      | [] => ([], [])
      | a :: t => (.junk r a :: (scan t).1, (scan t).2)
  | .frame n =>
      have _hb := F.frame_bound l n h
      (.frame (l.take n) :: (scan (l.drop n)).1, (scan (l.drop n)).2)
termination_by l.length
decreasing_by
  all_goals first
    | exact Nat.lt_succ_self _
    | (rw [List.length_drop]
       omega)

theorem scan_of_wait {l : List α} (h : F.judge l = .wait) : scan F l = ([], l) := by
  rw [scan]
  split <;> simp_all

theorem scan_of_skip {r : ρ} {a : α} {t : List α} (h : F.judge (a :: t) = .skip r) :
    scan F (a :: t) = (.junk r a :: (scan F t).1, (scan F t).2) := by
  rw [scan]
  split <;> simp_all

theorem scan_of_frame {l : List α} {n : ℕ} (h : F.judge l = .frame n) :
    scan F l = (.frame (l.take n) :: (scan F (l.drop n)).1, (scan F (l.drop n)).2) := by
  rw [scan]
  split <;> simp_all

/-- **The scanner's induction.**  One case for each verdict. -/
theorem scan_induct {motive : List α → Prop}
    (wait : ∀ l, F.judge l = .wait → motive l)
    (skip : ∀ r a t, F.judge (a :: t) = .skip r → motive t → motive (a :: t))
    (frame : ∀ l n, F.judge l = .frame n → motive (l.drop n) → motive l) (l : List α) :
    motive l := by
  induction hlen : l.length using Nat.strongRecOn generalizing l with
  | ind m ih =>
    subst hlen
    cases hj : F.judge l with
    | wait => exact wait l hj
    | skip r =>
        cases l with
        | nil => rw [F.judge_nil] at hj; cases hj
        | cons a t => exact skip r a t hj (ih t.length (by simp) t rfl)
    | frame n =>
        have hb := F.frame_bound l n hj
        refine frame l n hj (ih (l.drop n).length ?_ (l.drop n) rfl)
        rw [List.length_drop]
        omega

/-! ### Every symbol in one place -/

theorem scan_bytes (l : List α) : ((scan F l).1.flatMap Token.bytes) ++ (scan F l).2 = l := by
  induction l using scan_induct F with
  | wait l h => simp [scan_of_wait F h]
  | skip r a t h ih => simpa [scan_of_skip F h, Token.bytes] using ih
  | frame l n h ih =>
      simp only [scan_of_frame F h, List.flatMap_cons, Token.bytes, List.append_assoc, ih]
      exact List.take_append_drop n l

theorem judge_rest (l : List α) : F.judge (scan F l).2 = .wait := by
  induction l using scan_induct F with
  | wait l h => simpa [scan_of_wait F h] using h
  | skip r a t h ih => simpa [scan_of_skip F h] using ih
  | frame l n h ih => simpa [scan_of_frame F h] using ih

/-- The unread rest is a suffix of the stream. -/
theorem rest_suffix (l : List α) : (scan F l).2 <:+ l := ⟨_, scan_bytes F l⟩

/-- Every frame cut out is one the framing accepts as it stands. -/
theorem judge_of_mem {l f : List α} (hf : Token.frame f ∈ (scan F l).1) :
    F.judge f = .frame f.length := by
  induction l using scan_induct F with
  | wait l h => simp [scan_of_wait F h] at hf
  | skip r a t h ih =>
      rw [scan_of_skip F h] at hf
      simp only [List.mem_cons, reduceCtorEq, false_or] at hf
      exact ih hf
  | frame l n h ih =>
      rw [scan_of_frame F h] at hf
      rcases List.mem_cons.mp hf with hf | hf
      · cases hf
        rw [List.length_take, Nat.min_eq_left (F.frame_bound l n h).2]
        exact F.frame_take l n h
      · exact ih hf

/-! ### Scanning in pieces -/

/-- **Chunking is invisible.**  The scan of a longer stream goes on from the unread rest. -/
theorem scan_append (l m : List α) :
    scan F (l ++ m) =
      ((scan F l).1 ++ (scan F ((scan F l).2 ++ m)).1, (scan F ((scan F l).2 ++ m)).2) := by
  induction l using scan_induct F with
  | wait l h => simp [scan_of_wait F h]
  | skip r a t h ih =>
      have h' : F.judge (a :: (t ++ m)) = .skip r := by
        have := F.stable (a :: t) m (by rw [h]; simp)
        rwa [h, List.cons_append] at this
      rw [List.cons_append, scan_of_skip F h', ih, scan_of_skip F h]
      rfl
  | frame l n h ih =>
      have hb := F.frame_bound l n h
      have h' : F.judge (l ++ m) = .frame n := by rw [F.stable l m (by rw [h]; simp), h]
      rw [scan_of_frame F h', List.drop_append_of_le_length hb.2,
        List.take_append_of_le_length hb.2, ih, scan_of_frame F h]
      rfl

/-! ### Frames with their places -/

/-- The frames among the tokens, each with the position of its first symbol, counting from `off`. -/
def place : ℕ → List (Token α ρ) → List (ℕ × List α)
  | _, [] => []
  | off, .junk _ _ :: ts => place (off + 1) ts
  | off, .frame f :: ts => (off, f) :: place (off + f.length) ts

/-- How many symbols the tokens take up. -/
def width (ts : List (Token α ρ)) : ℕ := (ts.flatMap Token.bytes).length

@[simp] theorem width_nil : width ([] : List (Token α ρ)) = 0 := rfl

@[simp] theorem width_cons (t : Token α ρ) (ts : List (Token α ρ)) :
    width (t :: ts) = t.bytes.length + width ts := by
  simp [width]

theorem place_append (off : ℕ) (ts us : List (Token α ρ)) :
    place off (ts ++ us) = place off ts ++ place (off + width ts) us := by
  induction ts generalizing off with
  | nil => simp [place]
  | cons t ts ih =>
      cases t with
      | junk r a =>
          simp only [List.cons_append, place, ih, width_cons, Token.bytes, List.length_singleton,
            Nat.add_assoc]
      | frame f =>
          simp only [List.cons_append, place, ih, width_cons, Token.bytes, Nat.add_assoc]

theorem le_of_mem_place {off : ℕ} {ts : List (Token α ρ)} {p : ℕ × List α}
    (hp : p ∈ place off ts) : off ≤ p.1 ∧ p.1 + p.2.length ≤ off + width ts := by
  induction ts generalizing off with
  | nil => simp [place] at hp
  | cons t ts ih =>
      cases t with
      | junk r a =>
          have := ih hp
          simp only [width_cons, Token.bytes, List.length_singleton]
          omega
      | frame f =>
          simp only [width_cons, Token.bytes]
          rcases List.mem_cons.mp hp with rfl | hp
          · simp
          · have := ih hp
            omega

/-- **Disjoint and in stream order.** -/
theorem place_pairwise (off : ℕ) (ts : List (Token α ρ)) :
    (place off ts).Pairwise fun p q => p.1 + p.2.length ≤ q.1 := by
  induction ts generalizing off with
  | nil => exact List.Pairwise.nil
  | cons t ts ih =>
      cases t with
      | junk r a => exact ih (off + 1)
      | frame f =>
          refine List.Pairwise.cons ?_ (ih (off + f.length))
          intro q hq
          exact (le_of_mem_place hq).1

/-- **Contiguous pieces.**  A placed frame is what the tokens' symbols hold at its place. -/
theorem place_sound {off : ℕ} {ts : List (Token α ρ)} {p : ℕ × List α} (hp : p ∈ place off ts) :
    ((ts.flatMap Token.bytes).drop (p.1 - off)).take p.2.length = p.2 := by
  induction ts generalizing off with
  | nil => simp [place] at hp
  | cons t ts ih =>
      cases t with
      | junk r a =>
          have hp' : p ∈ place (off + 1) ts := hp
          have hle := (le_of_mem_place hp').1
          have := ih hp'
          rw [List.flatMap_cons, Token.bytes, show p.1 - off = (p.1 - (off + 1)) + 1 by omega]
          simpa using this
      | frame f =>
          rcases List.mem_cons.mp hp with rfl | hp
          · simp [Token.bytes]
          · have hle := (le_of_mem_place hp).1
            have := ih hp
            rw [List.flatMap_cons, Token.bytes,
              show p.1 - off = f.length + (p.1 - (off + f.length)) by omega,
              List.drop_length_add_append]
            exact this

/-- A placed frame is one of the tokens. -/
theorem mem_of_mem_place {off : ℕ} {ts : List (Token α ρ)} {p : ℕ × List α}
    (hp : p ∈ place off ts) : Token.frame p.2 ∈ ts := by
  induction ts generalizing off with
  | nil => simp [place] at hp
  | cons t ts ih =>
      cases t with
      | junk r a => exact List.mem_cons_of_mem _ (ih hp)
      | frame f =>
          rcases List.mem_cons.mp hp with rfl | hp
          · exact List.mem_cons_self
          · exact List.mem_cons_of_mem _ (ih hp)

/-- The tokens and the rest are as long as the stream. -/
theorem width_scan (l : List α) : width (scan F l).1 + (scan F l).2.length = l.length := by
  rw [width, ← List.length_append, scan_bytes]

/-- The placed frames of a scan stand in the stream, counting from `off`. -/
theorem scan_place_sound_from {l : List α} {off : ℕ} {p : ℕ × List α}
    (hp : p ∈ place off (scan F l).1) : (l.drop (p.1 - off)).take p.2.length = p.2 := by
  obtain ⟨hstart, hend⟩ := le_of_mem_place hp
  have hpiece := place_sound hp
  rw [width] at hend
  conv_lhs => rw [← scan_bytes F l]
  rw [List.drop_append_of_le_length (by omega),
    List.take_append_of_le_length (by rw [List.length_drop]; omega), hpiece]

/-- The placed frames of a scan stand in the stream. -/
theorem scan_place_sound {l : List α} {p : ℕ × List α} (hp : p ∈ place 0 (scan F l).1) :
    (l.drop p.1).take p.2.length = p.2 := scan_place_sound_from F hp

/-! ### Nothing is lost -/

/-- The scanner is at position `k` of the stream at some moment, or a frame it cut out runs over
`k`. -/
theorem scan_reaches (l : List α) (k : ℕ) (hk : k ≤ width (scan F l).1) (off : ℕ) :
    (∃ p ∈ place off (scan F l).1, p.1 < off + k ∧ off + k < p.1 + p.2.length) ∨
      ∃ ts, (scan F l).1 = ts ++ (scan F (l.drop k)).1 ∧ width ts = k := by
  induction l using scan_induct F generalizing k off with
  | wait l h =>
      right
      rw [scan_of_wait F h, width_nil, Nat.le_zero] at hk
      subst hk
      exact ⟨[], by simp, rfl⟩
  | skip r a t h ih =>
      rw [scan_of_skip F h] at hk ⊢
      cases k with
      | zero => exact .inr ⟨[], by simp [scan_of_skip F h], rfl⟩
      | succ k =>
          simp only [width_cons, Token.bytes, List.length_singleton] at hk
          rcases ih k (by omega) (off + 1) with ⟨p, hp, hlt⟩ | ⟨ts, hts, hw⟩
          · exact .inl ⟨p, hp, by omega⟩
          · refine .inr ⟨.junk r a :: ts, by simp [hts], ?_⟩
            rw [width_cons, hw, Token.bytes, List.length_singleton, Nat.add_comm]
  | frame l n h ih =>
      have hb := F.frame_bound l n h
      have hlen : (l.take n).length = n := by rw [List.length_take, Nat.min_eq_left hb.2]
      rw [scan_of_frame F h] at hk ⊢
      rcases Nat.eq_zero_or_pos k with rfl | hpos
      · exact .inr ⟨[], by simp [scan_of_frame F h], rfl⟩
      · rcases Nat.lt_or_ge k n with hlt | hge
        · exact .inl ⟨(off, l.take n), List.mem_cons_self, by simp only [hlen]; omega⟩
        · simp only [width_cons, Token.bytes, hlen] at hk
          rcases ih (k - n) (by omega) (off + n) with ⟨p, hp, hlt⟩ | ⟨ts, hts, hw⟩
          · refine .inl ⟨p, ?_, by omega⟩
            simp only [place, hlen]
            exact List.mem_cons_of_mem _ hp
          · refine .inr ⟨.frame (l.take n) :: ts, ?_, ?_⟩
            · rw [List.drop_drop, show n + (k - n) = k by omega] at hts
              rw [List.cons_append, ← hts]
            · rw [width_cons, hw, Token.bytes, hlen]
              omega

/-- **No frame is lost, and the delay is bounded.**  When the framing never waits on `N` symbols or
more, a frame at position `k` of the stream is cut out, or a frame cut out before it runs over `k`,
once the stream holds the frame and `N - 1` symbols from `k` on. -/
theorem scan_finds {N : ℕ} (hN : ∀ l, F.judge l = .wait → l.length < N) (l : List α) {k n : ℕ}
    (hframe : F.judge ((l.drop k).take n) = .frame n) (hlen : k + N ≤ l.length + 1) :
    (∃ p ∈ place 0 (scan F l).1, p.1 < k ∧ k < p.1 + p.2.length) ∨
      (k, (l.drop k).take n) ∈ place 0 (scan F l).1 := by
  have hwidth := width_scan F l
  have hrest := hN _ (judge_rest F l)
  rcases scan_reaches F l k (by omega) 0 with ⟨p, hp, hlt⟩ | ⟨ts, hts, hw⟩
  · exact .inl ⟨p, hp, by omega⟩
  · right
    have hj : F.judge (l.drop k) = .frame n := by
      rw [← List.take_append_drop n (l.drop k), F.stable _ _ (by rw [hframe]; simp), hframe]
    rw [hts, place_append, Nat.zero_add, hw, scan_of_frame F hj]
    exact List.mem_append_right _ List.mem_cons_self

/-! ### Streams of frames -/

/-- **Frames back to back** are cut out as they were put together, with nothing left over. -/
theorem scan_frames {fs : List (List α)} (hfs : ∀ f ∈ fs, F.judge f = .frame f.length) :
    scan F fs.flatten = (fs.map Token.frame, []) := by
  induction fs with
  | nil => exact scan_of_wait F F.judge_nil
  | cons f fs ih =>
      have hf := hfs f List.mem_cons_self
      have hjudge : F.judge (f ++ fs.flatten) = .frame f.length := by
        rw [F.stable f fs.flatten (by rw [hf]; simp), hf]
      rw [List.flatten_cons, scan_of_frame F hjudge, List.take_left, List.drop_left,
        ih fun g hg => hfs g (List.mem_cons_of_mem _ hg)]
      rfl

theorem map_snd_place_frames (off : ℕ) (fs : List (List α)) :
    (place off (fs.map Token.frame : List (Token α ρ))).map Prod.snd = fs := by
  induction fs generalizing off with
  | nil => rfl
  | cons f fs ih => exact congrArg (f :: ·) (ih (off + f.length))

end RtkdataFw.Lib.Resync
