import RtkdataFw.TxCore.Ring
import RtkdataFw.TxCore.RtcmFrame

/-!
# The ring after any pushes

* `pushAll`, `accepted` — a run of `ntrip_ring_push`, and the pushes of it that are not refused;
* `RingHolds` — what a reader may rely on: the resident numbers, what is in their slots, the totals;
* `ring_holds` — it holds after every run of fewer than `2 ^ 32` accepted pushes.
-/

namespace RtkdataFw.TxCore

open RtkdataFw.Lib

/-- The lengths that `ntrip_ring_push` takes. -/
def Arrival.Fits (a : Arrival) : Prop := 6 ≤ a.frame.length ∧ a.frame.length ≤ rtcmMaxFrameB

instance (a : Arrival) : Decidable a.Fits := inferInstanceAs (Decidable (_ ∧ _))

theorem Arrival.fits_iff (a : Arrival) :
    ¬ (a.frame.length < 6 ∨ a.frame.length > rtcmMaxFrameB) ↔ a.Fits := by
  rw [not_or, Nat.not_lt, gt_iff_lt, Nat.not_lt]
  rfl

/-- A run of pushes. -/
def pushAll (r : NtripRing) (pushes : List Arrival) : NtripRing :=
  pushes.foldl (fun r a => ntripRingPush r a.frame a.receivedMs) r

/-- The pushes that are accepted, in order. -/
def accepted (pushes : List Arrival) : List Arrival := pushes.filter fun a => a.Fits

@[simp] theorem pushAll_nil (r : NtripRing) : pushAll r [] = r := rfl

@[simp] theorem pushAll_cons (r : NtripRing) (a : Arrival) (pushes : List Arrival) :
    pushAll r (a :: pushes) = pushAll (ntripRingPush r a.frame a.receivedMs) pushes := rfl

theorem pushAll_append (r : NtripRing) (pushes more : List Arrival) :
    pushAll r (pushes ++ more) = pushAll (pushAll r pushes) more := List.foldl_append

/-- A refused push leaves the ring. -/
theorem push_refused (r : NtripRing) {a : Arrival} (h : ¬ a.Fits) :
    ntripRingPush r a.frame a.receivedMs = r := by
  apply ntripRingPush_reject
  by_contra hfits
  exact h (a.fits_iff.mp hfits)

/-- Only the accepted pushes count. -/
theorem pushAll_accepted (r : NtripRing) (pushes : List Arrival) :
    pushAll r (accepted pushes) = pushAll r pushes := by
  induction pushes generalizing r with
  | nil => rfl
  | cons a pushes ih =>
      by_cases h : a.Fits
      · have hcons : accepted (a :: pushes) = a :: accepted pushes :=
          List.filter_cons_of_pos (decide_eq_true h)
        rw [hcons, pushAll_cons, pushAll_cons, ih]
      · have hskip : accepted (a :: pushes) = accepted pushes :=
          List.filter_cons_of_neg (by rw [decide_eq_true_eq]; exact h)
        rw [hskip, ih, pushAll_cons, push_refused r h]

theorem fits_of_mem_accepted {pushes : List Arrival} {a : Arrival} (h : a ∈ accepted pushes) : a.Fits :=
  of_decide_eq_true (List.mem_filter.mp h).2

/-! ### Fewer than `2 ^ 32` accepted pushes -/

theorem ringOk_pushAll {h : List Arrival} {r : NtripRing} (hr : RingOk h r) {pushes : List Arrival}
    (hfits : ∀ a ∈ pushes, a.Fits) (hbound : h.length + pushes.length < 2 ^ 32) :
    RingOk (h ++ pushes) (pushAll r pushes) := by
  induction pushes generalizing h r with
  | nil =>
      rw [List.append_nil]
      exact hr
  | cons a pushes ih =>
      rw [List.length_cons] at hbound
      have hone : RingOk (h ++ [a]) (ntripRingPush r a.frame a.receivedMs) :=
        hr.push (a.fits_iff.mpr (hfits a List.mem_cons_self)) (by omega)
      have hrest := ih hone (fun b hb => hfits b (List.mem_cons_of_mem _ hb)) (by
        rw [List.length_append, List.length_singleton]
        omega)
      rw [List.append_assoc] at hrest
      exact hrest

/-- The total length of some frames. -/
def totalBytes (h : List Arrival) : ℕ := (h.map fun a => a.frame.length).sum

theorem totalBytes_append (ws us : List Arrival) :
    totalBytes (ws ++ us) = totalBytes ws + totalBytes us := by
  rw [totalBytes, List.map_append, List.sum_append]
  rfl

theorem totalBytes_le {h : List Arrival} (hfits : ∀ a ∈ h, a.Fits) :
    totalBytes h ≤ h.length * rtcmMaxFrameB := by
  induction h with
  | nil => exact Nat.zero_le _
  | cons a h ih =>
      have hone := (hfits a List.mem_cons_self).2
      have hrest := ih fun b hb => hfits b (List.mem_cons_of_mem _ hb)
      have hsum : totalBytes (a :: h) = a.frame.length + totalBytes h := List.sum_cons
      rw [hsum, List.length_cons, Nat.add_mul, Nat.one_mul]
      omega

/-- What the ring holds of the accepted frames `h`. -/
structure RingHolds (h : List Arrival) (r : NtripRing) : Prop where
  nextSeq_eq : r.nextSeq.toNat = h.length
  pushed_eq : r.pushedFrames = h.length
  cumBytes_eq : r.cumBytes = totalBytes h
  /-- The 64-bit counter has not wrapped. -/
  cumBytes_lt : r.cumBytes < 2 ^ 64
  oldest_le : ringOldestSeq r ≤ r.nextSeq
  resident : r.nextSeq.toNat - (ringOldestSeq r).toNat = min r.nextSeq.toNat 16
  slot_eq : ∀ q, ringOldestSeq r ≤ q → q < r.nextSeq → ∃ a, h[q.toNat]? = some a ∧
    r.slot.get (slotIndex q) = ⟨q, a.receivedMs, totalBytes (h.take (q.toNat + 1)), a.frame⟩

theorem RingOk.holds {h : List Arrival} {r : NtripRing} (hr : RingOk h r) : RingHolds h r := by
  have hold := hr.oldest
  have hnext := hr.nextSeq_eq
  have h16 : rtcmRingSlots = 16 := rfl
  have hcum : r.cumBytes = totalBytes h := by
    rw [hr.cumBytes_eq, bytesBelow, List.take_length, totalBytes]
  refine ⟨hnext, hr.pushed_eq, hcum, ?_, ?_, ?_, ?_⟩
  · have hle := totalBytes_le hr.sizes
    have hlt := hr.length_lt
    rw [hcum]
    rw [rtcmMaxFrameB] at hle
    omega
  · rw [UInt32.le_iff_toNat_le]
    omega
  · omega
  · intro q hge hlt
    rw [UInt32.le_iff_toNat_le] at hge
    rw [UInt32.lt_iff_toNat_lt] at hlt
    have hq : q.toNat < h.length := by omega
    refine ⟨h[q.toNat], List.getElem?_eq_getElem hq, ?_⟩
    have hslot := hr.slotOf hq (by omega)
    rw [NtripRing.slotOf, slotAt, List.getD_eq_getElem _ _ hq, UInt32.ofNat_toNat] at hslot
    exact hslot

/-- **The ring invariant.**  After any pushes of which fewer than `2 ^ 32` were accepted, every resident
number finds its own frame; whatever the parser emits is accepted; a refused push changes nothing. -/
theorem ring_holds (pushes : List Arrival) (hbound : (accepted pushes).length < 2 ^ 32) :
    RingHolds (accepted pushes) (pushAll ntripRingInit pushes) ∧
      (∀ cs p es, feedChunks rtcmParserInit cs = some (p, es) →
        ∀ e ∈ es, ∀ nowMs, (⟨e.2, nowMs⟩ : Arrival).Fits) ∧
      ∀ (r : NtripRing) (a : Arrival), ¬ a.Fits → ntripRingPush r a.frame a.receivedMs = r := by
  refine ⟨?_, ?_, fun r a => push_refused r⟩
  · rw [← pushAll_accepted]
    apply RingOk.holds
    exact ringOk_pushAll ringOk_init (fun a => fits_of_mem_accepted) (by
      rw [List.length_nil, Nat.zero_add]
      exact hbound)
  · intro cs p es hfeed e he nowMs
    rw [feedChunks_init, Option.some.injEq, Prod.mk.injEq] at hfeed
    obtain ⟨_, rfl⟩ := hfeed
    have hframe : IsRtcmFrame e.2 :=
      isRtcmFrame_of_mem_emissions (p := rtcmParserInit.over cs.flatten) he
    exact hframe.length_bounds

/-- Two frames with a runt between them. -/
def runtPushes : List Arrival :=
  [⟨List.replicate 7 preamble, 10⟩, ⟨[preamble], 11⟩, ⟨List.replicate 6 preamble, 12⟩]

theorem ring_holds_runtPushes :
    RingHolds (accepted runtPushes) (pushAll ntripRingInit runtPushes) ∧
      (accepted runtPushes).length = 2 :=
  ⟨(ring_holds runtPushes (by decide)).1, by decide⟩

end RtkdataFw.TxCore
