import RtkdataFw.Lib.SlotWindow
import RtkdataFw.TxCore.Parser

/-!
# The frame ring of `ntrip_tx_core.c`

`NtripRing` is `ntrip_ring_t` without its lock hooks; a slot's `len` is the length of its `data`.
`RingOk h r` says that the ring `r` is what the accepted pushes `h`, oldest first, have made of it.

* `RingOk.push` — `ntrip_ring_push` appends to the history, or rejects the frame and leaves the ring;
* `RingOk.slotOf` — the slot of a sequence number that is still resident holds the frame pushed under
  it, with the cumulative byte count through it.
-/

namespace RtkdataFw.TxCore

open RtkdataFw.Lib

def rtcmRingSlots : ℕ := 16

structure RingSlot where
  seq : UInt32
  receivedMs : UInt32
  cumBytes : ℕ
  data : List UInt8
  deriving DecidableEq, Repr

def RingSlot.len (s : RingSlot) : ℕ := s.data.length

structure NtripRing where
  slot : Vector RingSlot rtcmRingSlots
  nextSeq : UInt32
  cumBytes : ℕ
  pushedFrames : ℕ
  deriving DecidableEq, Repr

def ntripRingInit : NtripRing where
  slot := Vector.replicate rtcmRingSlots ⟨0, 0, 0, []⟩
  nextSeq := 0
  cumBytes := 0
  pushedFrames := 0

theorem slotIndex_lt (n : ℕ) : n % rtcmRingSlots < rtcmRingSlots := Nat.mod_lt n (by decide)

/-- `seq % RTCM_RING_SLOTS`. -/
def slotIndex (seq : UInt32) : Fin rtcmRingSlots := ⟨seq.toNat % rtcmRingSlots, slotIndex_lt _⟩

/-- `slot[seq % RTCM_RING_SLOTS]`. -/
def NtripRing.slotOf (r : NtripRing) (seq : UInt32) : RingSlot := r.slot.get (slotIndex seq)

/-- `ntrip_ring_push`. -/
def ntripRingPush (r : NtripRing) (frame : List UInt8) (nowMs : UInt32) : NtripRing :=
  if frame.length < 6 ∨ frame.length > rtcmMaxFrameB then r
  else
    let slot : RingSlot :=
      { seq := r.nextSeq
        receivedMs := nowMs
        cumBytes := r.cumBytes + frame.length
        data := frame }
    { slot := r.slot.set (r.nextSeq.toNat % rtcmRingSlots) slot (slotIndex_lt _)
      nextSeq := r.nextSeq + 1
      cumBytes := r.cumBytes + frame.length
      pushedFrames := r.pushedFrames + 1 }

/-- `ring_oldest_seq`: the oldest sequence number still resident. -/
def ringOldestSeq (r : NtripRing) : UInt32 :=
  if r.nextSeq > 16 then r.nextSeq - 16 else 0

theorem toNat_ringOldestSeq (r : NtripRing) :
    (ringOldestSeq r).toNat = r.nextSeq.toNat - rtcmRingSlots := by
  have h16 : (16 : UInt32).toNat = 16 := rfl
  unfold ringOldestSeq rtcmRingSlots
  split
  · rename_i hgt
    rw [UInt32.toNat_sub_of_le _ _ (UInt32.le_of_lt hgt), h16]
  · rename_i hle
    rw [gt_iff_lt, UInt32.lt_iff_toNat_lt, h16] at hle
    show 0 = r.nextSeq.toNat - 16
    omega

/-- The slots after a push: one is written. -/
theorem slotOf_push (ring : NtripRing) {frame : List UInt8} (nowMs : UInt32)
    (hlen : ¬ (frame.length < 6 ∨ frame.length > rtcmMaxFrameB)) (seq : UInt32) :
    (ntripRingPush ring frame nowMs).slotOf seq =
      if ring.nextSeq.toNat % rtcmRingSlots = seq.toNat % rtcmRingSlots then
        ⟨ring.nextSeq, nowMs, ring.cumBytes + frame.length, frame⟩
      else ring.slotOf seq := by
  rw [ntripRingPush, if_neg hlen]
  exact get_set ring.slot _ (slotIndex_lt _) _ _ (slotIndex_lt _)

/-! ### The history of the ring -/

/-- A frame the ring has accepted, with the clock it was pushed at. -/
structure Arrival where
  frame : List UInt8
  receivedMs : UInt32
  deriving DecidableEq, Repr, Inhabited

/-- The total length of the frames with sequence number below `n`. -/
def bytesBelow (h : List Arrival) (n : ℕ) : ℕ := ((h.take n).map fun a => a.frame.length).sum

/-- The frame with sequence number `i`, as its slot holds it. -/
def slotAt (h : List Arrival) (i : ℕ) : RingSlot where
  seq := UInt32.ofNat i
  receivedMs := (h.getD i default).receivedMs
  cumBytes := bytesBelow h (i + 1)
  data := (h.getD i default).frame

structure RingOk (h : List Arrival) (r : NtripRing) : Prop where
  nextSeq_eq : r.nextSeq.toNat = h.length
  cumBytes_eq : r.cumBytes = bytesBelow h h.length
  pushed_eq : r.pushedFrames = h.length
  sizes : ∀ a ∈ h, 6 ≤ a.frame.length ∧ a.frame.length ≤ rtcmMaxFrameB
  window : Window r.slot h.length (slotAt h)

theorem bytesBelow_succ (h : List Arrival) (n : ℕ) :
    bytesBelow h (n + 1) = bytesBelow h n + (h.getD n default).frame.length := by
  induction h generalizing n with
  | nil =>
      simp only [bytesBelow, List.take_nil]
      rfl
  | cons a h ih =>
      cases n with
      | zero => simp [bytesBelow]
      | succ n =>
          have := ih n
          simp only [bytesBelow, List.take_succ_cons, List.map_cons, List.sum_cons,
            List.getD_cons_succ] at this ⊢
          omega

theorem bytesBelow_append {h : List Arrival} {n : ℕ} (hn : n ≤ h.length) (m : List Arrival) :
    bytesBelow (h ++ m) n = bytesBelow h n := by
  rw [bytesBelow, List.take_append_of_le_length hn, bytesBelow]

theorem bytesBelow_mono (h : List Arrival) {m n : ℕ} (hmn : m ≤ n) :
    bytesBelow h m ≤ bytesBelow h n := by
  induction n, hmn using Nat.le_induction with
  | base => exact Nat.le_refl _
  | succ n _ ih =>
      rw [bytesBelow_succ]
      omega

theorem slotAt_append {h : List Arrival} {i : ℕ} (hi : i < h.length) (m : List Arrival) :
    slotAt (h ++ m) i = slotAt h i := by
  unfold slotAt
  rw [List.getD_append _ _ _ _ hi, bytesBelow_append (by omega)]

/-- The cumulative count of a slot, less its own frame, is what went before it. -/
theorem slotAt_before (h : List Arrival) (i : ℕ) :
    (slotAt h i).cumBytes - (slotAt h i).len = bytesBelow h i := by
  show bytesBelow h (i + 1) - (h.getD i default).frame.length = bytesBelow h i
  rw [bytesBelow_succ, Nat.add_sub_cancel]

/-! ### Pushing and reading -/

theorem ringOk_init : RingOk [] ntripRingInit :=
  ⟨rfl, rfl, rfl, by simp, Window.empty _ _⟩

/-- A frame of a length no RTCM3 frame has is refused. -/
theorem ntripRingPush_reject {r : NtripRing} {frame : List UInt8} {nowMs : UInt32}
    (hlen : frame.length < 6 ∨ frame.length > rtcmMaxFrameB) :
    ntripRingPush r frame nowMs = r := by
  rw [ntripRingPush, if_pos hlen]

theorem toNat_succ {a : UInt32} (h : a.toNat + 1 < 2 ^ 32) : (a + 1).toNat = a.toNat + 1 :=
  (UInt32.toNat_add a 1).trans (Nat.mod_eq_of_lt h)

/-- **Pushing appends to the history.** -/
theorem RingOk.push {h : List Arrival} {r : NtripRing} (hr : RingOk h r) {frame : List UInt8}
    {nowMs : UInt32} (hlen : ¬ (frame.length < 6 ∨ frame.length > rtcmMaxFrameB))
    (hbound : h.length + 1 < 2 ^ 32) :
    RingOk (h ++ [⟨frame, nowMs⟩]) (ntripRingPush r frame nowMs) := by
  have hlast : (h ++ [(⟨frame, nowMs⟩ : Arrival)]).getD h.length default = ⟨frame, nowMs⟩ := by
    rw [List.getD_append_right _ _ _ _ (Nat.le_refl _), Nat.sub_self]
    rfl
  have hbytes : bytesBelow (h ++ [⟨frame, nowMs⟩]) (h.length + 1) = r.cumBytes + frame.length := by
    rw [bytesBelow_succ, bytesBelow_append (Nat.le_refl _), hlast, hr.cumBytes_eq]
  have hslot : slotAt (h ++ [⟨frame, nowMs⟩]) h.length =
      ⟨r.nextSeq, nowMs, r.cumBytes + frame.length, frame⟩ := by
    rw [slotAt, hlast, hbytes, ← hr.nextSeq_eq, UInt32.ofNat_toNat]
  have hsame : ∀ i < h.length, slotAt (h ++ [⟨frame, nowMs⟩]) i = slotAt h i :=
    fun i hi => slotAt_append hi _
  have hw := hr.window.set hsame (slotIndex_lt _)
  rw [hslot] at hw
  rw [ntripRingPush, if_neg hlen]
  refine ⟨?_, ?_, ?_, ?_, ?_⟩
  · rw [List.length_append, List.length_singleton, toNat_succ (by rw [hr.nextSeq_eq]; exact hbound),
      hr.nextSeq_eq]
  · rw [List.length_append, List.length_singleton, hbytes]
  · rw [List.length_append, List.length_singleton, hr.pushed_eq]
  · intro a ha
    rcases List.mem_append.mp ha with ha | ha
    · exact hr.sizes a ha
    · rw [List.mem_singleton.mp ha]
      show 6 ≤ frame.length ∧ frame.length ≤ rtcmMaxFrameB
      omega
  · rw [List.length_append, List.length_singleton]
    simp only [hr.nextSeq_eq]
    exact hw

theorem RingOk.length_lt {h : List Arrival} {r : NtripRing} (hr : RingOk h r) :
    h.length < 2 ^ 32 := by
  rw [← hr.nextSeq_eq]
  exact r.nextSeq.toNat_lt

/-- **A resident sequence number.**  Its slot holds its frame. -/
theorem RingOk.slotOf {h : List Arrival} {r : NtripRing} (hr : RingOk h r) {seq : UInt32}
    (hlt : seq.toNat < h.length) (hres : h.length ≤ seq.toNat + rtcmRingSlots) :
    r.slotOf seq = slotAt h seq.toNat :=
  hr.window.get hlt hres (slotIndex_lt _)

/-- A slot of the history holds a frame of the history. -/
theorem slotAt_frame {h : List Arrival} {i : ℕ} (hi : i < h.length) :
    (h.map Arrival.frame)[i]? = some (slotAt h i).data := by
  simp only [slotAt, List.getD_eq_getElem _ _ hi, List.getElem?_map, List.getElem?_eq_getElem hi,
    Option.map_some]

theorem RingOk.slotAt_len_pos {h : List Arrival} {r : NtripRing} (hr : RingOk h r) {i : ℕ}
    (hi : i < h.length) : 0 < (slotAt h i).len := by
  have hsize := hr.sizes _ (List.getElem_mem hi)
  simp only [RingSlot.len, slotAt, List.getD_eq_getElem _ _ hi]
  omega

theorem RingOk.oldest {h : List Arrival} {r : NtripRing} (hr : RingOk h r) :
    (ringOldestSeq r).toNat = h.length - rtcmRingSlots := by
  rw [toNat_ringOldestSeq, hr.nextSeq_eq]

end RtkdataFw.TxCore
