import RtkdataFw.Lib.Machine
import Mathlib.Data.Int.Notation
import Mathlib.Data.List.GetD

/-!
# The back-off of `retry.c`

`retryDelay` and `retryReset` are the calls on a handle, `none` when `retry_init` had no memory for one; a
`RetryCall` says what was chosen, which entry of the table was read, and what was returned.

* `phaseDelay` — the delay as a function of the attempts: the instant first try, the short phase, the table;
* `phaseDelay_mono` — it never shrinks with the attempts, and `phaseDelay_last` — where it ends;
* `outputs_delays` — but the attempts are 16 bits, and start again after 65536 calls;
* `backoff_iff` — so the delays grow through an outage exactly when it ends before that, or when they are
  level from the first call on.
-/

namespace RtkdataFw.Retry

open RtkdataFw.Lib

def delays : List ℤ :=
  [1000, 2000, 5000, 10000, 15000, 30000, 45000, 60000, 90000, 120000, 300000, 600000, 900000, 1800000,
    2700000, 3600000]

def delaysCount : ℤ := 16

/-- `struct retry_delay`. -/
structure RetryHandle where
  attempts : UInt16
  firstInstant : Bool
  shortCount : UInt8
  shortDelay : ℤ
  maxDelay : ℤ
  delaysOffset : ℕ

/-- `while (delays_offset < delays_count && delays[delays_offset] < short_delay) delays_offset++;`. -/
def offsetFrom (shortDelay : ℤ) (i : ℕ) : ℕ :=
  if _h : i < delays.length then
    if delays[i] < shortDelay then offsetFrom shortDelay (i + 1) else i
  else i
termination_by delays.length - i

/-- What `retry_init` fills its handle with. -/
def newHandle (firstInstant : Bool) (shortCount : UInt8) (shortDelay maxDelay : ℤ) : RetryHandle where
  attempts := 0
  firstInstant := firstInstant
  shortCount := shortCount
  shortDelay := shortDelay
  maxDelay := maxDelay
  delaysOffset := offsetFrom shortDelay 0

/-- `retry_init`, with whether `malloc` succeeds. -/
def retryInit (mem : Bool) (firstInstant : Bool) (shortCount : UInt8) (shortDelay maxDelay : ℤ) :
    Option RetryHandle :=
  if mem then some (newHandle firstInstant shortCount shortDelay maxDelay) else none

/-- `if (max_delay > 0 && delay > max_delay) delay = max_delay;`. -/
def capDelay (maxDelay delay : ℤ) : ℤ := if maxDelay > 0 ∧ delay > maxDelay then maxDelay else delay

/-- The delay that `retry_delay` chooses, and the table entry it takes it from. -/
def chooseDelay (h : RetryHandle) : ℤ × Option ℤ :=
  let attempts : ℤ := h.attempts.toNat
  if attempts = 0 ∧ h.firstInstant = true then (0, none)
  else if attempts < h.shortCount.toNat then (h.shortDelay, none)
  else
    let attempts := attempts - h.shortCount.toNat + h.delaysOffset
    let i := if attempts < delaysCount then attempts else delaysCount - 1
    (capDelay h.maxDelay (delays.getD i.toNat 0), some i)

/-- What a call of `retry_delay` waits for, which entry of the table it read, and what it returns. -/
structure RetryCall where
  delay : ℤ
  index : Option ℤ
  ret : ℤ

def retryDelay : Option RetryHandle → Option RetryHandle × RetryCall
  | none => (none, ⟨2000, none, 0⟩)
  | some h =>
      let c := chooseDelay h
      let h : RetryHandle := { h with attempts := h.attempts + 1 }
      (some h, ⟨c.1, c.2, h.attempts.toNat⟩)

def retryReset : Option RetryHandle → Option RetryHandle
  | none => none
  | some h => some { h with attempts := 0 }

inductive RetryEvent where
  | delay
  | reset

/-- One handle and the calls on it. -/
def retry : Machine (Option RetryHandle) RetryEvent RetryCall where
  step s
    | .delay => (retryDelay s).1
    | .reset => retryReset s
  out s
    | .delay => [(retryDelay s).2]
    | .reset => []

/-- A back-off: it does not shrink, it keeps the cap, and it stays in the table. -/
structure Backoff (maxDelay : ℤ) (calls : List RetryCall) : Prop where
  sorted : (calls.map RetryCall.delay).Pairwise (· ≤ ·)
  capped : ∀ c ∈ calls, c.delay ≤ if maxDelay > 0 then maxDelay else 3600000
  inTable : ∀ c ∈ calls, ∀ i ∈ c.index, 0 ≤ i ∧ i < delaysCount

/-! ### The table -/

theorem delays_mono {i j : ℕ} (hij : i ≤ j) (hj : j ≤ 15) : delays.getD i 0 ≤ delays.getD j 0 := by
  have hall : ∀ j ≤ 15, ∀ i ≤ j, delays.getD i 0 ≤ delays.getD j 0 := by decide
  exact hall j hj i hij

theorem delays_le {d : ℤ} (h : d ∈ delays) : d ≤ 3600000 := by
  have hall : ∀ d ∈ delays, d ≤ 3600000 := by decide
  exact hall d h

/-- **The search** stops at the first entry that is not below the short delay. -/
theorem offsetFrom_spec (shortDelay : ℤ) (i : ℕ) (hi : i ≤ 16) :
    offsetFrom shortDelay i ≤ 16 ∧
      (∀ j, i ≤ j → j < offsetFrom shortDelay i → delays.getD j 0 < shortDelay) ∧
      (offsetFrom shortDelay i < 16 → shortDelay ≤ delays.getD (offsetFrom shortDelay i) 0) := by
  have hlen : delays.length = 16 := rfl
  fun_induction offsetFrom shortDelay i with
  | case1 i hlt hless ih =>
      obtain ⟨hle, hbelow, hstop⟩ := ih (by omega)
      refine ⟨hle, ?_, hstop⟩
      intro j hj hlt'
      rcases Nat.eq_or_lt_of_le hj with rfl | hnext
      · rw [List.getD_eq_getElem _ _ hlt]
        exact hless
      · exact hbelow j hnext hlt'
  | case2 i hlt hge =>
      refine ⟨hi, fun j hj hlt' => absurd hlt' (Nat.not_lt.mpr hj), ?_⟩
      intro _
      rw [List.getD_eq_getElem _ _ hlt]
      exact Int.not_lt.mp hge
  | case3 i hge => exact ⟨hi, fun j hj hlt' => absurd hlt' (Nat.not_lt.mpr hj), fun h => by omega⟩

/-! ### The delay for so many attempts -/

/-- The settings that `retry_init` is meant for. -/
structure RetryHandle.Ok (h : RetryHandle) : Prop where
  offset_eq : h.delaysOffset = offsetFrom h.shortDelay 0
  short_nonneg : 0 ≤ h.shortDelay
  short_le : h.shortDelay ≤ 3600000
  max_ge : h.maxDelay ≤ 0 ∨ h.shortDelay ≤ h.maxDelay

/-- The entry of the table after `a` attempts. -/
def tableIndex (h : RetryHandle) (a : ℕ) : ℕ := min (a - h.shortCount.toNat + h.delaysOffset) 15

/-- The delay after `a` attempts: the instant first try, the short phase, the table. -/
def phaseDelay (h : RetryHandle) (a : ℕ) : ℤ :=
  if a = 0 ∧ h.firstInstant = true then 0
  else if a < h.shortCount.toNat then h.shortDelay
  else capDelay h.maxDelay (delays.getD (tableIndex h a) 0)

/-- **What `retry_delay` chooses.** -/
theorem chooseDelay_eq (h : RetryHandle) :
    (chooseDelay h).1 = phaseDelay h h.attempts.toNat ∧
      ∀ i ∈ (chooseDelay h).2, 0 ≤ i ∧ i < delaysCount := by
  have hcount : delaysCount = 16 := rfl
  rw [chooseDelay, phaseDelay]
  by_cases hfirst : h.attempts.toNat = 0 ∧ h.firstInstant = true
  · have hfirst' : (h.attempts.toNat : ℤ) = 0 ∧ h.firstInstant = true := ⟨by omega, hfirst.2⟩
    rw [if_pos hfirst, if_pos hfirst']
    exact ⟨rfl, fun i hi => by cases hi⟩
  · have hfirst' : ¬ ((h.attempts.toNat : ℤ) = 0 ∧ h.firstInstant = true) :=
      fun hc => hfirst ⟨by omega, hc.2⟩
    rw [if_neg hfirst, if_neg hfirst']
    by_cases hshort : h.attempts.toNat < h.shortCount.toNat
    · rw [if_pos hshort, if_pos (Int.ofNat_lt.mpr hshort)]
      exact ⟨rfl, fun i hi => by cases hi⟩
    · rw [if_neg hshort, if_neg fun hc => hshort (Int.ofNat_lt.mp hc)]
      dsimp only
      generalize hi : (if (h.attempts.toNat : ℤ) - h.shortCount.toNat + h.delaysOffset < delaysCount then
        (h.attempts.toNat : ℤ) - h.shortCount.toNat + h.delaysOffset else delaysCount - 1) = i
      have hin : 0 ≤ i ∧ i < delaysCount := by
        rw [← hi]
        split <;> omega
      have hindex : i.toNat = tableIndex h h.attempts.toNat := by
        rw [← hi, tableIndex]
        split <;> omega
      refine ⟨by rw [hindex], ?_⟩
      intro j hj
      rw [← Option.some.inj hj]
      exact hin

theorem capDelay_mono (m : ℤ) {d e : ℤ} (h : d ≤ e) : capDelay m d ≤ capDelay m e := by
  rw [capDelay, capDelay]
  split <;> split <;> omega

section Phases

variable {h : RetryHandle}

theorem tableIndex_le (h : RetryHandle) (a : ℕ) : tableIndex h a ≤ 15 := Nat.min_le_right _ _

theorem RetryHandle.Ok.offset_le (hok : h.Ok) : h.delaysOffset ≤ 15 := by
  obtain ⟨hle, hbelow, _⟩ := offsetFrom_spec h.shortDelay 0 (by decide)
  rw [← hok.offset_eq] at hle hbelow
  by_contra hbig
  have hlast : delays.getD 15 0 < h.shortDelay := hbelow 15 (by decide) (by omega)
  have hshort := hok.short_le
  exact absurd (Int.lt_of_lt_of_le hlast hshort) (by decide)

/-- The first table entry that is used is not below the short delay. -/
theorem RetryHandle.Ok.short_le_offset (hok : h.Ok) : h.shortDelay ≤ delays.getD h.delaysOffset 0 := by
  have hle := hok.offset_le
  obtain ⟨_, _, hstop⟩ := offsetFrom_spec h.shortDelay 0 (by decide)
  rw [← hok.offset_eq] at hstop
  exact hstop (by omega)

theorem RetryHandle.Ok.short_le_table (hok : h.Ok) (a : ℕ) :
    h.shortDelay ≤ delays.getD (tableIndex h a) 0 := by
  have hle := hok.offset_le
  refine Int.le_trans hok.short_le_offset (delays_mono ?_ (tableIndex_le h a))
  rw [tableIndex]
  omega

theorem table_le (h : RetryHandle) (a : ℕ) : delays.getD (tableIndex h a) 0 ≤ 3600000 :=
  delays_mono (tableIndex_le h a) (Nat.le_refl 15)

theorem RetryHandle.Ok.short_le_cap (hok : h.Ok) {d : ℤ} (hd : h.shortDelay ≤ d) :
    h.shortDelay ≤ capDelay h.maxDelay d := by
  have hmax := hok.max_ge
  rw [capDelay]
  split <;> omega

theorem RetryHandle.Ok.nonneg (hok : h.Ok) (a : ℕ) : 0 ≤ phaseDelay h a := by
  have hshort := hok.short_nonneg
  have hcap := hok.short_le_cap (hok.short_le_table a)
  rw [phaseDelay]
  split
  · exact Int.le_refl 0
  · split <;> omega

/-- **The delay never shrinks** while the attempts grow. -/
theorem RetryHandle.Ok.phaseDelay_mono (hok : h.Ok) {a b : ℕ} (hab : a ≤ b) :
    phaseDelay h a ≤ phaseDelay h b := by
  by_cases hfirst : a = 0 ∧ h.firstInstant = true
  · rw [phaseDelay, if_pos hfirst]
    exact hok.nonneg b
  have hfirst' : ¬ (b = 0 ∧ h.firstInstant = true) := fun hc => hfirst ⟨by omega, hc.2⟩
  rw [phaseDelay, phaseDelay, if_neg hfirst, if_neg hfirst']
  by_cases hshort : b < h.shortCount.toNat
  · apply Int.le_of_eq
    rw [if_pos hshort, if_pos (Nat.lt_of_le_of_lt hab hshort)]
  rw [if_neg hshort]
  split
  · exact hok.short_le_cap (hok.short_le_table b)
  · apply capDelay_mono
    apply delays_mono _ (tableIndex_le h b)
    rw [tableIndex, tableIndex]
    omega

/-- Where the delays end. -/
theorem phaseDelay_last (h : RetryHandle) : phaseDelay h 65535 = capDelay h.maxDelay 3600000 := by
  have hcount := h.shortCount.toNat_lt
  have hindex : tableIndex h 65535 = 15 := by
    rw [tableIndex]
    omega
  have hfirst : ¬ (65535 = 0 ∧ h.firstInstant = true) := fun hc => absurd hc.1 (by decide)
  rw [phaseDelay, if_neg hfirst, if_neg (by omega), hindex]
  rfl

/-- **The cap.** -/
theorem RetryHandle.Ok.phaseDelay_le (hok : h.Ok) (a : ℕ) :
    phaseDelay h a ≤ if h.maxDelay > 0 then h.maxDelay else 3600000 := by
  have hshort := hok.short_le
  have hmax := hok.max_ge
  have htable := table_le h a
  rw [phaseDelay]
  split
  · split <;> omega
  · split
    · split <;> omega
    · rw [capDelay]
      split <;> split <;> omega

end Phases

/-! ### The first delay and the last -/

/-- A delay that the cap, or the end of the table, leaves nowhere to grow from. -/
def AtTop (maxDelay d : ℤ) : Prop := d = 3600000 ∨ (0 < maxDelay ∧ maxDelay ≤ d)

/-- Settings whose first delay is at the top already: no instant try, and a short delay, or for want of a short
phase every table entry from the short delay on, that cannot grow. -/
def Level (firstInstant : Bool) (shortCount : UInt8) (shortDelay maxDelay : ℤ) : Prop :=
  firstInstant = false ∧
    if shortCount = 0 then ∀ d ∈ delays, shortDelay ≤ d → AtTop maxDelay d else AtTop maxDelay shortDelay

theorem capDelay_eq_top_iff {m d : ℤ} (hd : d ≤ 3600000) :
    capDelay m d = capDelay m 3600000 ↔ AtTop m d := by
  rw [capDelay, capDelay, AtTop]
  split <;> split <;> omega

/-- The entries at or above the short delay are those from the offset on. -/
theorem RetryHandle.Ok.offset_entry_le {h : RetryHandle} (hok : h.Ok) {d : ℤ} (hd : d ∈ delays)
    (hge : h.shortDelay ≤ d) : delays.getD h.delaysOffset 0 ≤ d := by
  obtain ⟨j, hj, rfl⟩ := List.getElem_of_mem hd
  have hlen : delays.length = 16 := rfl
  obtain ⟨_, hbelow, _⟩ := offsetFrom_spec h.shortDelay 0 (by decide)
  rw [← hok.offset_eq] at hbelow
  rw [← List.getD_eq_getElem _ 0 hj] at hge ⊢
  have hnot : ¬ j < h.delaysOffset := fun hc => absurd (hbelow j (Nat.zero_le _) hc) (by omega)
  exact delays_mono (by omega) (by omega)

theorem RetryHandle.Ok.offset_entry_mem {h : RetryHandle} (hok : h.Ok) :
    delays.getD h.delaysOffset 0 ∈ delays := by
  have hlt : h.delaysOffset < delays.length := Nat.lt_succ_of_le hok.offset_le
  rw [List.getD_eq_getElem _ _ hlt]
  exact List.getElem_mem hlt

/-- **The first delay is the last** exactly with such settings. -/
theorem RetryHandle.Ok.level_iff {h : RetryHandle} (hok : h.Ok) :
    phaseDelay h 0 = phaseDelay h 65535 ↔ Level h.firstInstant h.shortCount h.shortDelay h.maxDelay := by
  have hshort := hok.short_le
  have hmax := hok.max_ge
  rw [phaseDelay_last, phaseDelay, Level]
  by_cases hfirst : h.firstInstant = true
  · rw [if_pos ⟨rfl, hfirst⟩, hfirst]
    refine iff_of_false ?_ fun hc => absurd hc.1 (by decide)
    rw [capDelay]
    split <;> omega
  rw [if_neg fun hc => hfirst hc.2]
  have hfalse : h.firstInstant = false := Bool.eq_false_iff.mpr hfirst
  have hzero : h.shortCount = 0 ↔ ¬ 0 < h.shortCount.toNat := by
    rw [← UInt8.toNat_inj]
    show h.shortCount.toNat = 0 ↔ _
    omega
  by_cases hcount : 0 < h.shortCount.toNat
  · rw [if_pos hcount, if_neg fun hc => (hzero.mp hc) hcount, and_iff_right hfalse]
    have hown : capDelay h.maxDelay h.shortDelay = h.shortDelay := by
      rw [capDelay, if_neg (by omega)]
    rw [← capDelay_eq_top_iff hshort, hown]
  · have hle := hok.offset_le
    have hindex : tableIndex h 0 = h.delaysOffset := by
      rw [tableIndex]
      omega
    rw [if_neg hcount, if_pos (hzero.mpr hcount), and_iff_right hfalse, hindex,
      capDelay_eq_top_iff (delays_le hok.offset_entry_mem)]
    constructor
    · intro htop d hd hge
      have hd' := delays_le hd
      have hup := hok.offset_entry_le hd hge
      rw [AtTop] at htop ⊢
      omega
    · intro hall
      exact hall _ hok.offset_entry_mem hok.short_le_offset

/-! ### Runs of calls -/

/-- The call of `retry_delay` after `a` attempts. -/
def callAfter (h : RetryHandle) (a : UInt16) : RetryCall where
  delay := (chooseDelay { h with attempts := a }).1
  index := (chooseDelay { h with attempts := a }).2
  ret := (a + 1).toNat

/-- Calls on a handle move its attempts only. -/
theorem run_handle (h : RetryHandle) (es : List RetryEvent) :
    ∃ a, retry.run (some h) es = some { h with attempts := a } := by
  induction es generalizing h with
  | nil => exact ⟨h.attempts, rfl⟩
  | cons e es ih =>
      cases e with
      | delay => exact ih { h with attempts := h.attempts + 1 }
      | reset => exact ih { h with attempts := 0 }

/-- **After a reset** the handle is as `retry_init` left it. -/
theorem run_reset {h : RetryHandle} (hnew : h.attempts = 0) (es : List RetryEvent) :
    retry.run (some h) (es ++ [.reset]) = some h := by
  obtain ⟨a, ha⟩ := run_handle h es
  rw [retry.run_append, ha]
  show some { h with attempts := 0 } = some h
  rw [← hnew]

/-- Consecutive calls. -/
theorem outputs_delays (h : RetryHandle) (n : ℕ) (a : UInt16) :
    retry.outputs (some { h with attempts := a }) (List.replicate n .delay) =
      (List.range n).map fun k => callAfter h (a + UInt16.ofNat k) := by
  induction n generalizing a with
  | zero => rfl
  | succ n ih =>
      have hshift : ∀ k, a + 1 + UInt16.ofNat k = a + UInt16.ofNat (k + 1) := by
        intro k
        rw [UInt16.ofNat_add, UInt16.add_comm (UInt16.ofNat k), ← UInt16.add_assoc]
        rfl
      have hfirst : a + UInt16.ofNat 0 = a := UInt16.add_zero a
      have hrest := ih (a + 1)
      simp only [hshift] at hrest
      rw [List.replicate_succ, Machine.outputs_cons, List.range_succ_eq_map, List.map_cons, List.map_map, hfirst]
      exact congrArg (callAfter h a :: ·) hrest

/-- The calls since the last reset. -/
theorem outputs_since_reset {h : RetryHandle} (hnew : h.attempts = 0) (es : List RetryEvent) (n : ℕ) :
    retry.outputs (retry.run (some h) (es ++ [.reset])) (List.replicate n .delay) =
      (List.range n).map fun k => callAfter h (UInt16.ofNat k) := by
  have hcalls := outputs_delays h n h.attempts
  rw [run_reset hnew]
  rw [hnew] at hcalls
  simp only [UInt16.zero_add] at hcalls
  rw [← hcalls, ← hnew]

theorem callAfter_delay (h : RetryHandle) (k : ℕ) :
    (callAfter h (UInt16.ofNat k)).delay = phaseDelay h (k % 65536) := by
  rw [callAfter, (chooseDelay_eq _).1, UInt16.toNat_ofNat']
  rfl

section Runs

variable {h : RetryHandle} {n : ℕ}

/-- The cap and the table hold at every call, wrapped or not. -/
theorem RetryHandle.Ok.backoff_of_sorted (hok : h.Ok)
    (hsorted : (List.range n).Pairwise fun i j => phaseDelay h (i % 65536) ≤ phaseDelay h (j % 65536)) :
    Backoff h.maxDelay ((List.range n).map fun k => callAfter h (UInt16.ofNat k)) := by
  refine ⟨?_, ?_, ?_⟩
  · rw [List.map_map, List.pairwise_map]
    simp only [Function.comp_apply, callAfter_delay]
    exact hsorted
  · intro c hc
    obtain ⟨k, _, rfl⟩ := List.mem_map.mp hc
    rw [callAfter_delay]
    exact hok.phaseDelay_le _
  · intro c hc
    obtain ⟨k, _, rfl⟩ := List.mem_map.mp hc
    exact (chooseDelay_eq _).2

/-- **Before the wrap.** -/
theorem RetryHandle.Ok.backoff_of_le (hok : h.Ok) (hn : n ≤ 65536) :
    Backoff h.maxDelay ((List.range n).map fun k => callAfter h (UInt16.ofNat k)) := by
  apply hok.backoff_of_sorted
  refine List.pairwise_lt_range.imp_of_mem ?_
  intro i j hi hj hij
  rw [List.mem_range] at hi hj
  rw [Nat.mod_eq_of_lt (by omega), Nat.mod_eq_of_lt (by omega)]
  exact hok.phaseDelay_mono (Nat.le_of_lt hij)

/-- **Level settings** have one delay only. -/
theorem RetryHandle.Ok.backoff_of_level (hok : h.Ok) (hlevel : phaseDelay h 0 = phaseDelay h 65535) :
    Backoff h.maxDelay ((List.range n).map fun k => callAfter h (UInt16.ofNat k)) := by
  apply hok.backoff_of_sorted
  have hall : ∀ k, phaseDelay h (k % 65536) = phaseDelay h 65535 := by
    intro k
    have hlow := hok.phaseDelay_mono (Nat.zero_le (k % 65536))
    have hhigh := hok.phaseDelay_mono (show k % 65536 ≤ 65535 by omega)
    exact Int.le_antisymm hhigh (hlevel ▸ hlow)
  refine List.pairwise_lt_range.imp ?_
  intro i j _
  exact Int.le_of_eq ((hall i).trans (hall j).symm)

/-- **At the wrap** the delay falls back to the first. -/
theorem not_backoff_of_wrap (hn : 65536 < n) (hok : h.Ok) (hlevel : phaseDelay h 0 ≠ phaseDelay h 65535) :
    ¬ Backoff h.maxDelay ((List.range n).map fun k => callAfter h (UInt16.ofNat k)) := by
  intro hback
  have hsorted := hback.sorted
  rw [List.map_map, List.pairwise_map] at hsorted
  have hlen : (List.range n).length = n := List.length_range
  have hpair := List.pairwise_iff_getElem.mp hsorted 65535 65536 (by omega) (by omega) (by decide)
  simp only [List.getElem_range, Function.comp_apply, callAfter_delay] at hpair
  exact hlevel (Int.le_antisymm (hok.phaseDelay_mono (Nat.zero_le _)) hpair)

end Runs

theorem newHandle_ok {firstInstant : Bool} {shortCount : UInt8} {shortDelay maxDelay : ℤ}
    (h0 : 0 ≤ shortDelay) (hle : shortDelay ≤ 3600000) (hmax : maxDelay ≤ 0 ∨ shortDelay ≤ maxDelay) :
    (newHandle firstInstant shortCount shortDelay maxDelay).Ok := ⟨rfl, h0, hle, hmax⟩

/-- **The delays grow through an outage exactly until the attempts wrap**, or for good if there is nothing to
grow.  The handle may have been used in any way before the last reset. -/
theorem backoff_iff (firstInstant : Bool) (shortCount : UInt8) {shortDelay maxDelay : ℤ}
    (h0 : 0 ≤ shortDelay) (hle : shortDelay ≤ 3600000) (hmax : maxDelay ≤ 0 ∨ shortDelay ≤ maxDelay)
    (es : List RetryEvent) (n : ℕ) :
    Backoff maxDelay (retry.outputs
        (retry.run (retryInit true firstInstant shortCount shortDelay maxDelay) (es ++ [.reset]))
        (List.replicate n .delay)) ↔
      n ≤ 65536 ∨ Level firstInstant shortCount shortDelay maxDelay := by
  have hok : (newHandle firstInstant shortCount shortDelay maxDelay).Ok := newHandle_ok h0 hle hmax
  have hlevel := hok.level_iff
  have hnew : retryInit true firstInstant shortCount shortDelay maxDelay =
      some (newHandle firstInstant shortCount shortDelay maxDelay) := rfl
  rw [hnew, outputs_since_reset rfl]
  constructor
  · intro hback
    by_contra hnot
    rw [not_or] at hnot
    exact not_backoff_of_wrap (Nat.not_le.mp hnot.1) hok (fun heq => hnot.2 (hlevel.mp heq)) hback
  · rintro (hn | hflat)
    · exact hok.backoff_of_le hn
    · exact hok.backoff_of_level (hlevel.mpr hflat)

/-- The settings of the caster connections, a reset and a long outage. -/
theorem backoff_iff_caster :
    Backoff 0 (retry.outputs (retry.run (retryInit true true 5 2000 0) ([.delay] ++ [.reset]))
      (List.replicate 65536 .delay)) :=
  (backoff_iff true 5 (by decide) (by decide) (Or.inl (by decide)) [.delay] 65536).mpr (Or.inl (Nat.le_refl _))

/-- **The station settings** of `wifi.c`: the 65537th try of an outage is made at once. -/
theorem backoff_wraps :
    ¬ Backoff 60000 (retry.outputs (retry.run (retryInit true true 5 2000 60000) ([] ++ [.reset]))
      (List.replicate 65537 .delay)) := by
  have hok : (newHandle true 5 2000 60000).Ok := newHandle_ok (by decide) (by decide) (Or.inr (by decide))
  have hnew : retryInit true true 5 2000 60000 = some (newHandle true 5 2000 60000) := rfl
  rw [hnew, outputs_since_reset rfl]
  apply not_backoff_of_wrap (by decide) hok
  rw [phaseDelay_last]
  decide

/-- Without a handle every try waits two seconds, whatever the settings would have been. -/
theorem outputs_none (firstInstant : Bool) (shortCount : UInt8) (shortDelay maxDelay : ℤ)
    (es : List RetryEvent) :
    ∀ c ∈ retry.outputs (retryInit false firstInstant shortCount shortDelay maxDelay) es,
      c = ⟨2000, none, 0⟩ := by
  have hnull : retryInit false firstInstant shortCount shortDelay maxDelay = none := rfl
  rw [hnull]
  induction es with
  | nil => exact fun c hc => by cases hc
  | cons e es ih =>
      cases e with
      | delay =>
          intro c hc
          rcases List.mem_cons.mp hc with rfl | hc
          · rfl
          · exact ih c hc
      | reset => exact ih

end RtkdataFw.Retry
