import RtkdataFw.Lib.Machine
import Mathlib.Data.List.Induction

/-!
# Confirming a fresh image, `ota_mark_valid_task`

The task samples the station every ten seconds.  It confirms the running image after three healthy checks in
a row, or on a station without an uploader after a long run, and asks for a rollback when the required
messages are missing at the deadline.

* `Healthy` — what two samples in a row must show;
* `Streak` — the healthy checks at the end of a list of samples;
* `tracks_check` — the counter of the task is the length of such a streak;
* `mark_valid_law` — a confirmation, a rollback and a clearing of the attempt counters, in any run of samples.
-/

namespace RtkdataFw.Update

open RtkdataFw.Lib

/-- `OTA_CONFIRM_STABLE_N`. -/
def otaConfirmStableN : ℕ := 3

/-- `OTA_CONFIRM_DEADLINE_MS`. -/
def otaConfirmDeadlineMs : ℕ := 30 * 60 * 1000

/-- `OTA_CONFIRM_MIN_FRAME_DELTA`. -/
def otaConfirmMinFrameDelta : ℕ := 10

/-- `OTA_CONFIRM_MIN_BYTE_DELTA`. -/
def otaConfirmMinByteDelta : ℕ := 2048

/-- `OTA_CONFIRM_UNPROV_MS`. -/
def otaConfirmUnprovMs : ℕ := 10 * 60 * 1000

/-- `OTA_CONFIRM_MIN_HEAP_B`. -/
def otaConfirmMinHeapB : ℕ := 20480

/-- What one check reads, and how the calls turn out that it may make. -/
structure HealthSample where
  elapsedMs : ℕ
  framesOk : ℕ
  acceptedToLwip : ℕ
  instances : ℕ
  recoveriesGnss : UInt32
  allFresh : Bool
  freeHeap : ℕ
  /-- The second reading of the freshness. -/
  allFreshFinal : Bool
  /-- The state of the running image is read and is `ESP_OTA_IMG_PENDING_VERIFY`. -/
  pendingVerify : Bool
  markOk : Bool
  nvsOpens : Bool
  deriving DecidableEq, Repr

inductive ConfirmAct where
  /-- `esp_ota_mark_app_valid_cancel_rollback`, with its result. -/
  | markValid (ok : Bool)
  /-- `fail_ver` and `fail_cnt` are erased. -/
  | eraseFailKeys
  /-- `esp_ota_mark_app_invalid_rollback_and_reboot`. -/
  | rollback
  deriving DecidableEq, Repr

/-- The locals of the task. -/
structure ConfirmLocals where
  havePrev : Bool
  prevRecGnss : UInt32
  prevFrames : ℕ
  prevBytes : ℕ
  stable : ℕ
  deriving DecidableEq, Repr

inductive ConfirmTask where
  | looping (l : ConfirmLocals)
  | ended
  deriving DecidableEq, Repr

/-! ### The code -/

def confirmInit : ConfirmLocals := ⟨false, 0, 0, 0, 0⟩

/-- The increase of a total; one that went down shows none. -/
def delta (now prev : ℕ) : ℕ := if now > prev then now - prev else 0

def stableAfter (l : ConfirmLocals) (x : HealthSample) : ℕ :=
  let dFrames := delta x.framesOk l.prevFrames
  let dBytes := delta x.acceptedToLwip l.prevBytes
  let noNewRec := l.havePrev && x.recoveriesGnss == l.prevRecGnss
  let gnssOk := decide (dFrames ≥ otaConfirmMinFrameDelta) && x.allFresh
  let casterGood := decide (x.instances > 0) && decide (dBytes ≥ otaConfirmMinByteDelta)
  if gnssOk && noNewRec && casterGood then l.stable + 1 else 0

def nextLocals (l : ConfirmLocals) (x : HealthSample) : ConfirmLocals :=
  ⟨true, x.recoveriesGnss, x.framesOk, x.acceptedToLwip, stableAfter l x⟩

/-- No uploader, a long run, and heap left. -/
def Unprovisioned (x : HealthSample) : Prop :=
  x.instances = 0 ∧ x.elapsedMs ≥ otaConfirmUnprovMs ∧ x.freeHeap > otaConfirmMinHeapB

instance (x : HealthSample) : Decidable (Unprovisioned x) := inferInstanceAs (Decidable (_ ∧ _ ∧ _))

/-- After the loop: confirm first, and clear the attempt counters only when that succeeded. -/
def confirmImage (x : HealthSample) : List ConfirmAct :=
  if x.pendingVerify then
    if x.markOk then .markValid true :: (if x.nvsOpens then [.eraseFailKeys] else [])
    else [.markValid false]
  else []

def confirmCheck (l : ConfirmLocals) (x : HealthSample) : ConfirmTask × List ConfirmAct :=
  let next := nextLocals l x
  if next.stable ≥ otaConfirmStableN then (.ended, confirmImage x)
  else if Unprovisioned x then (.ended, confirmImage x)
  else if x.elapsedMs ≥ otaConfirmDeadlineMs then
    if x.allFreshFinal then (.looping next, [])
    else (.ended, if x.pendingVerify then [.rollback] else [])
  else (.looping next, [])

def otaMarkValidTask : Machine ConfirmTask HealthSample ConfirmAct where
  step
    | .looping l, x => (confirmCheck l x).1
    | .ended, _ => .ended
  out
    | .looping l, x => (confirmCheck l x).2
    | .ended, _ => []

/-! ### Streaks -/

/-- The check `x` is healthy after the check `prev`. -/
structure Healthy (prev x : HealthSample) : Prop where
  frames : prev.framesOk + otaConfirmMinFrameDelta ≤ x.framesOk
  bytes : prev.acceptedToLwip + otaConfirmMinByteDelta ≤ x.acceptedToLwip
  fresh : x.allFresh = true
  instances : 1 ≤ x.instances
  recoveries : x.recoveriesGnss = prev.recoveriesGnss

/-- The last `n` checks are healthy, each after the one before it. -/
def Streak : ℕ → List HealthSample → Prop
  | 0, _ => True
  | n + 1, xs => ∃ pre prev x, xs = pre ++ [prev, x] ∧ Healthy prev x ∧ Streak n (pre ++ [prev])

/-- The locals of the task after the checks `xs`. -/
structure Tracks (xs : List HealthSample) (l : ConfirmLocals) : Prop where
  streak : Streak l.stable xs
  few : l.stable < otaConfirmStableN
  prev : l.havePrev = true → ∃ pre x, xs = pre ++ [x] ∧ l.prevRecGnss = x.recoveriesGnss ∧
    l.prevFrames = x.framesOk ∧ l.prevBytes = x.acceptedToLwip

theorem le_delta_iff {now prev least : ℕ} (hpos : 0 < least) :
    delta now prev ≥ least ↔ prev + least ≤ now := by
  rw [delta]
  split <;> omega

/-- The counter after a check: one more on a healthy check, else back to nothing. -/
theorem stableAfter_cases {xs : List HealthSample} {l : ConfirmLocals} (h : Tracks xs l)
    (x : HealthSample) :
    stableAfter l x = 0 ∨
      stableAfter l x = l.stable + 1 ∧ ∃ pre prev, xs = pre ++ [prev] ∧ Healthy prev x := by
  rw [stableAfter]
  split
  · rename_i hall
    simp only [Bool.and_eq_true, decide_eq_true_eq, beq_iff_eq] at hall
    obtain ⟨⟨⟨hframes, hfresh⟩, hprev, hrec⟩, hinst, hbytes⟩ := hall
    obtain ⟨pre, prev, hxs, hrec', hframes', hbytes'⟩ := h.prev hprev
    refine Or.inr ⟨rfl, pre, prev, hxs, ?_, ?_, hfresh, hinst, hrec.trans hrec'⟩
    · rw [← hframes']
      exact (le_delta_iff (by decide)).mp hframes
    · rw [← hbytes']
      exact (le_delta_iff (by decide)).mp hbytes
  · exact Or.inl rfl

/-- A healthy check makes the streak longer. -/
theorem streak_check {xs : List HealthSample} {l : ConfirmLocals} (h : Tracks xs l) (x : HealthSample) :
    Streak (stableAfter l x) (xs ++ [x]) := by
  rcases stableAfter_cases h x with hzero | ⟨hsucc, pre, prev, rfl, hhealthy⟩
  · rw [hzero]
    trivial
  · rw [hsucc]
    exact ⟨pre, prev, x, List.append_assoc pre [prev] [x], hhealthy, h.streak⟩

theorem tracks_init : Tracks [] confirmInit := ⟨trivial, by decide, fun h => absurd h (by decide)⟩

/-- **One check** that does not end the task. -/
theorem tracks_check {xs : List HealthSample} {l : ConfirmLocals} (h : Tracks xs l) (x : HealthSample)
    (hfew : ¬ (nextLocals l x).stable ≥ otaConfirmStableN) : Tracks (xs ++ [x]) (nextLocals l x) :=
  ⟨streak_check h x, Nat.lt_of_not_le hfew, fun _ => ⟨xs, x, rfl, rfl, rfl, rfl⟩⟩

/-- What a check comes to. -/
theorem confirmCheck_cases (l : ConfirmLocals) (x : HealthSample) :
    ((nextLocals l x).stable ≥ otaConfirmStableN ∨ Unprovisioned x) ∧
        confirmCheck l x = (.ended, confirmImage x) ∨
      ¬ (nextLocals l x).stable ≥ otaConfirmStableN ∧ confirmCheck l x = (.looping (nextLocals l x), []) ∨
      x.elapsedMs ≥ otaConfirmDeadlineMs ∧ x.allFreshFinal = false ∧
        confirmCheck l x = (.ended, if x.pendingVerify then [.rollback] else []) := by
  rw [confirmCheck]
  by_cases hstable : (nextLocals l x).stable ≥ otaConfirmStableN
  · rw [if_pos hstable]
    exact Or.inl ⟨Or.inl hstable, rfl⟩
  · rw [if_neg hstable]
    by_cases hunprov : Unprovisioned x
    · rw [if_pos hunprov]
      exact Or.inl ⟨Or.inr hunprov, rfl⟩
    · rw [if_neg hunprov]
      by_cases hlate : x.elapsedMs ≥ otaConfirmDeadlineMs
      · rw [if_pos hlate]
        cases hfinal : x.allFreshFinal with
        | true => exact Or.inr (Or.inl ⟨hstable, rfl⟩)
        | false => exact Or.inr (Or.inr ⟨hlate, rfl, rfl⟩)
      · rw [if_neg hlate]
        exact Or.inr (Or.inl ⟨hstable, rfl⟩)

/-- The task keeps track of every run of checks, until it ends. -/
theorem run_tracks (xs : List HealthSample) {l : ConfirmLocals}
    (hrun : otaMarkValidTask.run (.looping confirmInit) xs = .looping l) : Tracks xs l := by
  induction xs using List.reverseRecOn generalizing l with
  | nil =>
      cases hrun
      exact tracks_init
  | append_singleton xs x ih =>
      rw [Machine.run_append] at hrun
      cases hbefore : otaMarkValidTask.run (.looping confirmInit) xs with
      | ended =>
          rw [hbefore] at hrun
          exact absurd hrun (by simp [otaMarkValidTask])
      | looping l' =>
          rw [hbefore] at hrun
          have hcheck : (confirmCheck l' x).1 = .looping l := hrun
          rcases confirmCheck_cases l' x with ⟨_, heq⟩ | ⟨hfew, heq⟩ | ⟨_, _, heq⟩
          · rw [heq] at hcheck
            exact absurd hcheck (by simp)
          · rw [heq] at hcheck
            cases hcheck
            exact tracks_check (ih hbefore) x hfew
          · rw [heq] at hcheck
            exact absurd hcheck (by simp)

/-- A check that completes the counter ends three healthy checks in a row. -/
theorem healthy_of_streak {xs : List HealthSample} {l : ConfirmLocals} (h : Tracks xs l)
    {x : HealthSample} (hstable : (nextLocals l x).stable ≥ otaConfirmStableN) :
    ∃ pre a b c, xs = pre ++ [a, b, c] ∧ Healthy a b ∧ Healthy b c ∧ Healthy c x := by
  have hfew := h.few
  have hfull : stableAfter l x ≥ otaConfirmStableN := hstable
  rcases stableAfter_cases h x with hzero | ⟨hsucc, pre₁, c, hxs, hlast⟩
  · rw [hzero] at hfull
    exact absurd hfull (by decide)
  · have htwo : l.stable = 2 := by
      rw [otaConfirmStableN] at hfew hfull
      omega
    have hstreak : Streak 2 xs := htwo ▸ h.streak
    obtain ⟨pre₂, b, c', hxs₂, hmid, pre₃, a, b', hxs₃, hfirst, _⟩ := hstreak
    obtain ⟨rfl, rfl⟩ : pre₂ = pre₃ ++ [a] ∧ b' = b := by
      rw [show pre₃ ++ [a, b'] = (pre₃ ++ [a]) ++ [b'] from (List.append_assoc pre₃ [a] [b']).symm] at hxs₃
      exact ⟨(List.append_inj' hxs₃ rfl).1, (List.singleton_inj.mp (List.append_inj' hxs₃ rfl).2).symm⟩
    obtain rfl : c' = c := by
      rw [hxs₂, show pre₃ ++ [a] ++ [b', c'] = (pre₃ ++ [a] ++ [b']) ++ [c'] from
        (List.append_assoc (pre₃ ++ [a]) [b'] [c']).symm] at hxs
      exact List.singleton_inj.mp (List.append_inj' hxs rfl).2
    refine ⟨pre₃, a, b', c', ?_, hfirst, hmid, hlast⟩
    rw [hxs₂, List.append_assoc]
    rfl

/-! ### What confirming an image does -/

theorem confirmImage_cases (x : HealthSample) :
    confirmImage x = [] ∨
      x.pendingVerify = true ∧ ∃ ok, confirmImage x = [.markValid ok] ∨
        ok = true ∧ confirmImage x = [.markValid ok, .eraseFailKeys] := by
  rw [confirmImage]
  cases hpending : x.pendingVerify with
  | false => exact Or.inl rfl
  | true =>
      refine Or.inr ⟨rfl, ?_⟩
      cases x.markOk with
      | false => exact ⟨false, Or.inl rfl⟩
      | true =>
          cases x.nvsOpens with
          | false => exact ⟨true, Or.inl rfl⟩
          | true => exact ⟨true, Or.inr ⟨rfl, rfl⟩⟩

theorem pending_of_markValid {x : HealthSample} {ok : Bool} (h : .markValid ok ∈ confirmImage x) :
    x.pendingVerify = true := by
  rcases confirmImage_cases x with heq | ⟨hpending, _⟩
  · rw [heq] at h
    exact absurd h List.not_mem_nil
  · exact hpending

theorem rollback_notMem_confirmImage (x : HealthSample) : .rollback ∉ confirmImage x := by
  rcases confirmImage_cases x with heq | ⟨_, ok, heq | ⟨_, heq⟩⟩ <;> simp [heq]

theorem confirmImage_of_erase {x : HealthSample} (h : .eraseFailKeys ∈ confirmImage x) :
    confirmImage x = [.markValid true, .eraseFailKeys] := by
  rcases confirmImage_cases x with heq | ⟨_, ok, heq | ⟨rfl, heq⟩⟩
  · simp [heq] at h
  · simp [heq] at h
  · exact heq

/-- **The contract of the task.**  `before` are the checks made so far and `x` is the next one.

A confirmation is asked for only for an image to be verified, and after three healthy checks in a row or on a
station without an uploader.  A rollback is asked for only at the deadline, for an image to be verified, when
the required messages are missing at that moment.  The attempt counters are cleared only after a confirmation
that succeeded. -/
theorem mark_valid_law (before : List HealthSample) (x : HealthSample) :
    let out := otaMarkValidTask.out (otaMarkValidTask.run (.looping confirmInit) before) x
    (∀ ok, .markValid ok ∈ out → x.pendingVerify = true ∧
      ((∃ pre a b c, before = pre ++ [a, b, c] ∧ Healthy a b ∧ Healthy b c ∧ Healthy c x) ∨
        Unprovisioned x)) ∧
    (.rollback ∈ out →
      x.elapsedMs ≥ otaConfirmDeadlineMs ∧ x.pendingVerify = true ∧ x.allFreshFinal = false) ∧
    (.eraseFailKeys ∈ out → out = [.markValid true, .eraseFailKeys]) := by
  intro out
  cases hrun : otaMarkValidTask.run (.looping confirmInit) before with
  | ended =>
      have hout : out = [] := by
        show otaMarkValidTask.out (otaMarkValidTask.run (.looping confirmInit) before) x = []
        rw [hrun]
        rfl
      simp [hout]
  | looping l =>
      have htracks := run_tracks before hrun
      have hout : out = (confirmCheck l x).2 := by
        show otaMarkValidTask.out (otaMarkValidTask.run (.looping confirmInit) before) x = _
        rw [hrun]
        rfl
      rw [hout]
      rcases confirmCheck_cases l x with ⟨hwhy, heq⟩ | ⟨_, heq⟩ | ⟨hlate, hfinal, heq⟩
      · rw [heq]
        refine ⟨fun ok hmem => ⟨pending_of_markValid hmem, ?_⟩,
          fun hmem => absurd hmem (rollback_notMem_confirmImage x), confirmImage_of_erase⟩
        exact hwhy.imp (healthy_of_streak htracks) id
      · rw [heq]
        simp
      · rw [heq]
        cases hpending : x.pendingVerify with
        | false => simp
        | true => simp [hlate, hfinal]

end RtkdataFw.Update
