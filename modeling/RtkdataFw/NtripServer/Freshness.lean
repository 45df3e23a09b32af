import Mathlib.Data.Fin.VecNotation
import RtkdataFw.Lib.Clock
import RtkdataFw.Lib.Machine
import RtkdataFw.TxCore.RtcmFrame

/-!
# The freshness of the required messages

`ntrip_server_on_frame` stamps the last frame of each required type with the low 32 bits of the clock and
the epoch, `ntrip_server_msg_epoch_reset` begins an epoch, `ntrip_server_msg_freshness` compares.  `Sightings`
is the same record with real times and real epoch numbers, and the statics are its image.

* `messageType_carries` — the slot that a frame goes to is that of the type it carries;
* `run_image` — the statics after a history are the image of its sightings;
* `evidence_iff` — what the history says about a type, read off its sightings;
* `late_frame_not_fresh` — after `2 ^ 31` ms in one epoch a frame that just came is not fresh;
* `exact_iff` — the reports of a history are exact if and only if its time differences are clear of the
  wrap-around.
-/

namespace RtkdataFw.NtripServer

open RtkdataFw.Lib RtkdataFw.TxCore

/-- `NTRIP_REQUIRED_MSG_COUNT`. -/
abbrev ntripRequiredMsgCount : ℕ := 4

/-- An index into the required set. -/
abbrev MsgIndex := Fin ntripRequiredMsgCount

/-- `ntrip_required_msgs`. -/
def ntripRequiredMsgs : MsgIndex → UInt16 := ![1005, 1033, 1077, 1087]

/-- `s_required_budget_ms`. -/
def sRequiredBudgetMs : MsgIndex → UInt32 := ![30000, 30000, 5000, 5000]

/-- The statics of the freshness contract. -/
structure MsgStatics where
  msgLastMs : MsgIndex → UInt32
  msgEpoch : MsgIndex → UInt32
  epoch : UInt32
  epochStartedMs : UInt32

/-- At boot: nothing seen, the first epoch. -/
def msgStaticsInit : MsgStatics := ⟨fun _ => 0, fun _ => 0, 1, 0⟩

/-- `ntrip_msg_freshness_t`. -/
structure MsgFreshness where
  type : MsgIndex → UInt16
  ageMs : MsgIndex → UInt32
  fresh : MsgIndex → Bool
  allFresh : Bool

/-! ### The code -/

/-- The counter after an increment: 0 means never seen. -/
def epochNext (epoch : UInt32) : UInt32 := if epoch + 1 = 0 then 1 else epoch + 1

def ntripServerMsgEpochReset (m : MsgStatics) (now : ℕ) : MsgStatics :=
  { m with epochStartedMs := UInt32.ofNat now, epoch := epochNext m.epoch }

/-- A sample belongs to the epoch and is newer than its start. -/
def inEpoch (epoch since last tag : UInt32) : Bool := tag == epoch && decide (0 < (last - since).toInt32)

/-- The report on what was read: the clock, the epoch and its start first, then each sample with its tag,
and the epoch again. -/
def msgFreshnessOf (now epoch since : UInt32) (last tag : MsgIndex → UInt32) (epochAfter : UInt32) :
    MsgFreshness where
  type := ntripRequiredMsgs
  ageMs i := if inEpoch epoch since (last i) (tag i) then now - last i else UInt32.ofNat (2 ^ 32 - 1)
  fresh i := inEpoch epoch since (last i) (tag i) && decide (now - last i ≤ sRequiredBudgetMs i)
  allFresh :=
    decide (∀ i, (inEpoch epoch since (last i) (tag i) &&
      decide (now - last i ≤ sRequiredBudgetMs i)) = true) && epochAfter == epoch

def ntripServerMsgFreshness (m : MsgStatics) (now : ℕ) : MsgFreshness :=
  msgFreshnessOf (UInt32.ofNat now) m.epoch m.epochStartedMs m.msgLastMs m.msgEpoch m.epoch

/-- The first 12 bits after the header. -/
def messageType (frame : List UInt8) : UInt16 :=
  (frame.getD 3 0).toUInt16 <<< 4 ||| (frame.getD 4 0 >>> 4).toUInt16

/-- The slot of a message type. -/
def requiredIndex (mtype : UInt16) : Option MsgIndex :=
  (List.finRange ntripRequiredMsgCount).find? fun i => ntripRequiredMsgs i == mtype

/-- The bookkeeping of `ntrip_server_on_frame`. -/
def noteMessage (m : MsgStatics) (frame : List UInt8) (now : ℕ) : MsgStatics :=
  if 6 ≤ frame.length then
    match requiredIndex (messageType frame) with
    | some i =>
        { m with
          msgLastMs := Function.update m.msgLastMs i (UInt32.ofNat now)
          msgEpoch := Function.update m.msgEpoch i m.epoch }
    | none => m
  else m

/-! ### Histories -/

inductive MsgEvent where
  /-- A frame with a right checksum is ingested. -/
  | frame (f : RtcmFrame)
  | reset
  | query

/-- What happens at a real time in milliseconds. -/
structure Timed where
  ms : ℕ
  event : MsgEvent

/-- The clock does not go back. -/
def InOrder (es : List Timed) : Prop := es.Pairwise fun a b => a.ms ≤ b.ms

def msgStep (m : MsgStatics) (e : Timed) : MsgStatics :=
  match e.event with
  | .frame f => noteMessage m f.bytes e.ms
  | .reset => ntripServerMsgEpochReset m e.ms
  | .query => m

def msgReport (m : MsgStatics) (e : Timed) : List MsgFreshness :=
  match e.event with
  | .query => [ntripServerMsgFreshness m e.ms]
  | _ => []

def msgMachine : Machine MsgStatics Timed MsgFreshness := ⟨msgStep, msgReport⟩

/-- The message type that a payload begins with. -/
def Carries (f : RtcmFrame) (n : UInt16) : Prop :=
  ∃ p0 p1 rest, f.payload = p0 :: p1 :: rest ∧ n.toNat = p0.toNat * 16 + p1.toNat / 16

/-- When the current epoch began: at the last reset, or at boot. -/
def epochStart (es : List Timed) : ℕ :=
  es.foldl (fun start e => match e.event with | .reset => e.ms | _ => start) 0

/-- A frame of type `i` was ingested at `t`. -/
def Seen (es : List Timed) (i : MsgIndex) (t : ℕ) : Prop :=
  ∃ f, ⟨t, .frame f⟩ ∈ es ∧ Carries f (ntripRequiredMsgs i)

/-- A frame of type `i` came after the start of the epoch, and at most its budget ago. -/
def Evidence (es : List Timed) (now : ℕ) (i : MsgIndex) : Prop :=
  ∃ t, Seen es i t ∧ epochStart es < t ∧ now ≤ t + (sRequiredBudgetMs i).toNat

/-- Every query of the history is answered as the history says. -/
def Exact (es : List Timed) : Prop :=
  ∀ before now after, es = before ++ ⟨now, .query⟩ :: after →
    (∀ i, (ntripServerMsgFreshness (msgMachine.run msgStaticsInit before) now).fresh i = true ↔
      Evidence before now i) ∧
    ((ntripServerMsgFreshness (msgMachine.run msgStaticsInit before) now).allFresh = true ↔
      ∀ i, (ntripServerMsgFreshness (msgMachine.run msgStaticsInit before) now).fresh i = true)

/-! ### The type of a frame -/

theorem frame_getD (f : RtcmFrame) (k : ℕ) :
    f.bytes.getD (k + 3) 0 = (f.payload ++ [f.c2, f.c1, f.c0]).getD k 0 := rfl

theorem messageType_toNat (frame : List UInt8) :
    (messageType frame).toNat = (frame.getD 3 0).toNat * 16 + (frame.getD 4 0).toNat / 16 := by
  have h3 := (frame.getD 3 0).toNat_lt
  have h4 := (frame.getD 4 0).toNat_lt
  have hlow : ((frame.getD 4 0) >>> 4).toNat = (frame.getD 4 0).toNat / 16 := by
    rw [UInt8.toNat_shiftRight, Nat.shiftRight_eq_div_pow]
    rfl
  have hhigh : ((frame.getD 3 0).toUInt16 <<< 4).toNat = (frame.getD 3 0).toNat <<< 4 := by
    rw [UInt16.toNat_shiftLeft, UInt8.toNat_toUInt16, Nat.shiftLeft_eq, Nat.shiftLeft_eq]
    exact Nat.mod_eq_of_lt (by show (frame.getD 3 0).toNat * 2 ^ 4 < 2 ^ 16; omega)
  rw [messageType, UInt16.toNat_or, UInt8.toNat_toUInt16, hhigh, hlow,
    ← Nat.shiftLeft_add_eq_or_of_lt (by omega), Nat.shiftLeft_eq]

/-- A payload of one byte, with the checksum after it, spells no required type. -/
theorem short_type_ne : ∀ p < 256, ∀ i, (ntripRequiredMsgs i).toNat ≠
    p * 16 + (crc24qBitwise [preamble, 0, 1, UInt8.ofNat p]).toNat / 2 ^ 20 := by
  decide +kernel

/-- An empty payload neither. -/
theorem empty_type_ne : ∀ i, (ntripRequiredMsgs i).toNat ≠
    (crc24qBitwise [preamble, 0, 0]).toNat / 2 ^ 12 := by
  decide +kernel

/-- **The slot of a frame** is that of the required type that its payload begins with. -/
theorem messageType_carries (f : RtcmFrame) (i : MsgIndex) :
    messageType f.bytes = ntripRequiredMsgs i ↔ Carries f (ntripRequiredMsgs i) := by
  rw [← UInt16.toNat_inj, messageType_toNat, frame_getD f 0, frame_getD f 1]
  have hb1 := f.b1.toNat_lt
  have hb2 := f.b2.toNat_lt
  have hc1 := f.c1.toNat_lt
  have hc0 := f.c0.toNat_lt
  have hlen := f.length_eq
  have hcrc := f.crc_eq
  unfold Carries
  cases hpayload : f.payload with
  | nil =>
      rw [hpayload, List.length_nil] at hlen
      have hzero1 : f.b1 = 0 := UInt8.toNat_inj.mp (by show f.b1.toNat = 0; omega)
      have hzero2 : f.b2 = 0 := UInt8.toNat_inj.mp (by show f.b2.toNat = 0; omega)
      rw [hpayload, hzero1, hzero2] at hcrc
      have hne := empty_type_ne i
      simp only [List.nil_append, List.getD_cons_zero, List.getD_cons_succ]
      refine iff_of_false ?_ (by simp)
      omega
  | cons p0 rest =>
      cases rest with
      | nil =>
          rw [hpayload, List.length_singleton] at hlen
          have hzero1 : f.b1 = 0 := UInt8.toNat_inj.mp (by show f.b1.toNat = 0; omega)
          have hone2 : f.b2 = 1 := UInt8.toNat_inj.mp (by show f.b2.toNat = 1; omega)
          rw [hpayload, hzero1, hone2] at hcrc
          have hne := short_type_ne p0.toNat p0.toNat_lt i
          rw [UInt8.ofNat_toNat] at hne
          simp only [List.cons_append, List.nil_append, List.getD_cons_zero, List.getD_cons_succ]
          refine iff_of_false ?_ (by simp)
          omega
      | cons p1 rest =>
          simp only [List.cons_append, List.getD_cons_zero, List.getD_cons_succ]
          constructor
          · intro htype
            exact ⟨p0, p1, rest, rfl, htype.symm⟩
          · intro h
            obtain ⟨q0, q1, rest', heq, htype⟩ := h
            cases heq
            exact htype.symm

instance (f : RtcmFrame) (i : MsgIndex) : Decidable (Carries f (ntripRequiredMsgs i)) :=
  decidable_of_iff _ (messageType_carries f i)

theorem ntripRequiredMsgs_injective : Function.Injective ntripRequiredMsgs := by decide

theorem requiredIndex_eq_some_iff {mtype : UInt16} {i : MsgIndex} :
    requiredIndex mtype = some i ↔ mtype = ntripRequiredMsgs i := by
  constructor
  · intro h
    rw [requiredIndex] at h
    have hfound := List.find?_some h
    exact (eq_of_beq hfound).symm
  · rintro rfl
    revert i
    decide

/-- What a frame does to the statics. -/
theorem noteMessage_cases (m : MsgStatics) (f : RtcmFrame) (now : ℕ) :
    (∃ i, Carries f (ntripRequiredMsgs i) ∧ noteMessage m f.bytes now =
      { m with
        msgLastMs := Function.update m.msgLastMs i (UInt32.ofNat now)
        msgEpoch := Function.update m.msgEpoch i m.epoch }) ∨
    (∀ i, ¬ Carries f (ntripRequiredMsgs i)) ∧ noteMessage m f.bytes now = m := by
  have hlen : 6 ≤ f.bytes.length := (IsRtcmFrame.length_bounds ⟨f, rfl⟩).1
  rw [noteMessage, if_pos hlen]
  cases hindex : requiredIndex (messageType f.bytes) with
  | none =>
      refine Or.inr ⟨?_, rfl⟩
      intro i hi
      rw [requiredIndex_eq_some_iff.mpr ((messageType_carries f i).mpr hi)] at hindex
      exact absurd hindex (by simp)
  | some i =>
      exact Or.inl ⟨i, (messageType_carries f i).mp (requiredIndex_eq_some_iff.mp hindex), rfl⟩

/-- A frame carries one type. -/
theorem Carries.unique {f : RtcmFrame} {i j : MsgIndex} (hi : Carries f (ntripRequiredMsgs i))
    (hj : Carries f (ntripRequiredMsgs j)) : i = j :=
  ntripRequiredMsgs_injective
    (((messageType_carries f i).mpr hi).symm.trans ((messageType_carries f j).mpr hj))

/-! ### Sightings -/

/-- What a history leaves, in real times: when the epoch began, how many resets there were, and for each
required type the time of its last frame with the resets before it. -/
structure Sightings where
  start : ℕ
  resets : ℕ
  last : MsgIndex → Option (ℕ × ℕ)

def sightingsInit : Sightings := ⟨0, 0, fun _ => none⟩

def Sightings.step (g : Sightings) (e : Timed) : Sightings :=
  match e.event with
  | .frame f =>
      { g with last := fun i =>
          if Carries f (ntripRequiredMsgs i) then some (e.ms, g.resets) else g.last i }
  | .reset => { g with start := e.ms, resets := g.resets + 1 }
  | .query => g

def sightings (es : List Timed) : Sightings := es.foldl Sightings.step sightingsInit

/-- The epoch number after `n` resets. -/
def epochOf (n : ℕ) : UInt32 := UInt32.ofNat (n % (2 ^ 32 - 1) + 1)

theorem epochOf_toNat (n : ℕ) : (epochOf n).toNat = n % (2 ^ 32 - 1) + 1 := by
  have hlt : n % (2 ^ 32 - 1) < 2 ^ 32 - 1 := Nat.mod_lt _ (by decide)
  rw [epochOf, toNat_ofNat_mod]
  exact Nat.mod_eq_of_lt (by omega)

theorem epochOf_ne_zero (n : ℕ) : epochOf n ≠ 0 := by
  intro h
  have hnat := congrArg UInt32.toNat h
  rw [epochOf_toNat] at hnat
  exact absurd hnat (Nat.succ_ne_zero _)

theorem epochNext_epochOf (n : ℕ) : epochNext (epochOf n) = epochOf (n + 1) := by
  have hlt : n % (2 ^ 32 - 1) < 2 ^ 32 - 1 := Nat.mod_lt _ (by decide)
  have hsucc : (epochOf n + 1).toNat = (n % (2 ^ 32 - 1) + 2) % 2 ^ 32 := by
    rw [UInt32.toNat_add, epochOf_toNat]
    rfl
  rw [epochNext]
  by_cases hzero : epochOf n + 1 = 0
  · rw [if_pos hzero, ← UInt32.toNat_inj, epochOf_toNat]
    rw [hzero] at hsucc
    have h0 : (0 : UInt32).toNat = 0 := rfl
    have h1 : (1 : UInt32).toNat = 1 := rfl
    omega
  · rw [if_neg hzero, ← UInt32.toNat_inj, epochOf_toNat, hsucc]
    have hne : (epochOf n + 1).toNat ≠ 0 := fun h => hzero (UInt32.toNat_inj.mp h)
    omega

/-- Epoch numbers come again after `2 ^ 32 - 1` resets. -/
theorem epochOf_eq_iff {n r : ℕ} (h : r ≤ n) : epochOf r = epochOf n ↔ (2 ^ 32 - 1) ∣ n - r := by
  rw [← UInt32.toNat_inj, epochOf_toNat, epochOf_toNat, Nat.add_right_cancel_iff]
  exact Nat.modEq_iff_dvd' h

/-- The statics that hold the sightings in 32 bits. -/
structure Image (g : Sightings) (m : MsgStatics) : Prop where
  epoch : m.epoch = epochOf g.resets
  start : m.epochStartedMs = UInt32.ofNat g.start
  unseen : ∀ i, g.last i = none → m.msgEpoch i = 0
  seen : ∀ i t r, g.last i = some (t, r) → m.msgLastMs i = UInt32.ofNat t ∧ m.msgEpoch i = epochOf r

theorem image_init : Image sightingsInit msgStaticsInit := by
  refine ⟨by decide, rfl, fun i _ => rfl, ?_⟩
  intro i t r h
  exact absurd h (by simp [sightingsInit])

theorem image_step {g : Sightings} {m : MsgStatics} (h : Image g m) (e : Timed) :
    Image (g.step e) (msgStep m e) := by
  obtain ⟨now, event⟩ := e
  cases event with
  | query => exact h
  | reset =>
      have hepoch : epochNext m.epoch = epochOf (g.resets + 1) := by
        rw [h.epoch, epochNext_epochOf]
      exact ⟨hepoch, rfl, h.unseen, h.seen⟩
  | frame f =>
      rcases noteMessage_cases m f now with ⟨i, hi, hnote⟩ | ⟨hnone, hnote⟩
      · have hlast : ∀ j, ((g.step ⟨now, .frame f⟩).last j) =
            if j = i then some (now, g.resets) else g.last j := by
          intro j
          by_cases hj : j = i
          · rw [if_pos hj, hj]
            exact if_pos hi
          · rw [if_neg hj]
            exact if_neg fun hcarries => hj (hcarries.unique hi)
        show Image (g.step ⟨now, .frame f⟩) (noteMessage m f.bytes now)
        rw [hnote]
        refine ⟨h.epoch, h.start, ?_, ?_⟩
        · intro j hj
          rw [hlast] at hj
          by_cases hji : j = i
          · rw [if_pos hji] at hj
            exact absurd hj (by simp)
          · rw [if_neg hji] at hj
            exact (Function.update_of_ne hji _ _).trans (h.unseen j hj)
        · intro j t r hj
          rw [hlast] at hj
          by_cases hji : j = i
          · rw [if_pos hji] at hj
            cases hj
            rw [hji]
            exact ⟨Function.update_self _ _ _, (Function.update_self _ _ _).trans h.epoch⟩
          · rw [if_neg hji] at hj
            obtain ⟨hms, htag⟩ := h.seen j t r hj
            exact ⟨(Function.update_of_ne hji _ _).trans hms, (Function.update_of_ne hji _ _).trans htag⟩
      · have hsame : g.step ⟨now, .frame f⟩ = g := by
          have hlast : (g.step ⟨now, .frame f⟩).last = g.last := funext fun j => if_neg (hnone j)
          exact congrArg (fun l => Sightings.mk g.start g.resets l) hlast
        show Image (g.step ⟨now, .frame f⟩) (noteMessage m f.bytes now)
        rw [hnote, hsame]
        exact h

/-- **The statics are the image of the sightings**, after any history. -/
theorem run_image (es : List Timed) : Image (sightings es) (msgMachine.run msgStaticsInit es) := by
  suffices hall : ∀ g m, Image g m → Image (es.foldl Sightings.step g) (msgMachine.run m es) from
    hall _ _ image_init
  induction es with
  | nil => exact fun g m h => h
  | cons e es ih => exact fun g m h => ih _ _ (image_step h e)

/-! ### What a history says -/

theorem sightings_start (es : List Timed) : (sightings es).start = epochStart es := by
  suffices hall : ∀ g, (es.foldl Sightings.step g).start =
      es.foldl (fun start e => match e.event with | .reset => e.ms | _ => start) g.start from hall _
  induction es with
  | nil => exact fun g => rfl
  | cons e es ih =>
      intro g
      obtain ⟨now, event⟩ := e
      cases event <;> exact ih _

/-- What the sightings keep of a history in order: the last frame of each type, and on which side of the
start of the epoch it came. -/
structure Faithful (es : List Timed) (g : Sightings) : Prop where
  start : ∀ now, (∀ e ∈ es, e.ms ≤ now) → g.start ≤ now
  none : ∀ i, g.last i = none → ∀ t, ¬ Seen es i t
  seen : ∀ i t r, g.last i = some (t, r) → Seen es i t ∧ ∀ t', Seen es i t' → t' ≤ t
  after : ∀ i t r, g.last i = some (t, r) → r = g.resets ∧ g.start ≤ t ∨ r < g.resets ∧ t ≤ g.start

theorem seen_append_frame {es : List Timed} {now : ℕ} {f : RtcmFrame} {i : MsgIndex} {t : ℕ} :
    Seen (es ++ [⟨now, .frame f⟩]) i t ↔ Seen es i t ∨ t = now ∧ Carries f (ntripRequiredMsgs i) := by
  constructor
  · intro h
    obtain ⟨f', hmem, hcarries⟩ := h
    rcases List.mem_append.mp hmem with hmem | hmem
    · exact Or.inl ⟨f', hmem, hcarries⟩
    · cases List.mem_singleton.mp hmem
      exact Or.inr ⟨rfl, hcarries⟩
  · intro h
    rcases h with ⟨f', hmem, hcarries⟩ | ⟨rfl, hcarries⟩
    · exact ⟨f', List.mem_append_left _ hmem, hcarries⟩
    · exact ⟨f, List.mem_append_right _ (List.mem_singleton.mpr rfl), hcarries⟩

theorem seen_append_other {es : List Timed} {e : Timed} (he : ∀ f, e.event ≠ .frame f) {i : MsgIndex}
    {t : ℕ} : Seen (es ++ [e]) i t ↔ Seen es i t := by
  constructor
  · intro h
    obtain ⟨f, hmem, hcarries⟩ := h
    rcases List.mem_append.mp hmem with hmem | hmem
    · exact ⟨f, hmem, hcarries⟩
    · exact absurd (congrArg Timed.event (List.mem_singleton.mp hmem)).symm (he f)
  · intro h
    obtain ⟨f, hmem, hcarries⟩ := h
    exact ⟨f, List.mem_append_left _ hmem, hcarries⟩

theorem Seen.le {es : List Timed} {i : MsgIndex} {t now : ℕ} (h : Seen es i t)
    (hnow : ∀ e ∈ es, e.ms ≤ now) : t ≤ now := by
  obtain ⟨f, hmem, _⟩ := h
  exact hnow _ hmem

theorem Faithful.frame {es : List Timed} {g : Sightings} (h : Faithful es g) {now : ℕ}
    (hnow : ∀ e ∈ es, e.ms ≤ now) (f : RtcmFrame) :
    Faithful (es ++ [⟨now, .frame f⟩]) (g.step ⟨now, .frame f⟩) := by
  refine ⟨?_, ?_, ?_, ?_⟩
  · intro later hlater
    exact h.start later fun e he => hlater e (List.mem_append_left _ he)
  · intro i hi t ht
    by_cases hcarries : Carries f (ntripRequiredMsgs i)
    · exact absurd ((if_pos hcarries).symm.trans hi) (by simp)
    · rcases seen_append_frame.mp ht with hseen | ⟨_, hf⟩
      · exact h.none i ((if_neg hcarries).symm.trans hi) t hseen
      · exact hcarries hf
  · intro i t r hi
    by_cases hcarries : Carries f (ntripRequiredMsgs i)
    · cases (if_pos hcarries).symm.trans hi
      refine ⟨seen_append_frame.mpr (Or.inr ⟨rfl, hcarries⟩), ?_⟩
      intro t' ht'
      rcases seen_append_frame.mp ht' with hseen | ⟨rfl, _⟩
      · exact hseen.le hnow
      · exact Nat.le_refl _
    · obtain ⟨hseen, hlast⟩ := h.seen i t r ((if_neg hcarries).symm.trans hi)
      refine ⟨seen_append_frame.mpr (Or.inl hseen), ?_⟩
      intro t' ht'
      rcases seen_append_frame.mp ht' with hseen' | ⟨_, hf⟩
      · exact hlast t' hseen'
      · exact absurd hf hcarries
  · intro i t r hi
    by_cases hcarries : Carries f (ntripRequiredMsgs i)
    · cases (if_pos hcarries).symm.trans hi
      exact Or.inl ⟨rfl, h.start now hnow⟩
    · exact h.after i t r ((if_neg hcarries).symm.trans hi)

/-- What is no frame leaves the last frames as they were. -/
theorem last_of_seen {es es' : List Timed} {g : Sightings} (h : Faithful es g)
    (hseen : ∀ {i t}, Seen es' i t ↔ Seen es i t) :
    (∀ i, g.last i = none → ∀ t, ¬ Seen es' i t) ∧
      ∀ i t r, g.last i = some (t, r) → Seen es' i t ∧ ∀ t', Seen es' i t' → t' ≤ t := by
  constructor
  · intro i hi t ht
    exact h.none i hi t (hseen.mp ht)
  · intro i t r hi
    obtain ⟨hat, hlast⟩ := h.seen i t r hi
    exact ⟨hseen.mpr hat, fun t' ht' => hlast t' (hseen.mp ht')⟩

theorem Faithful.reset {es : List Timed} {g : Sightings} (h : Faithful es g) {now : ℕ}
    (hnow : ∀ e ∈ es, e.ms ≤ now) : Faithful (es ++ [⟨now, .reset⟩]) (g.step ⟨now, .reset⟩) := by
  have hseen : ∀ {i t}, Seen (es ++ [⟨now, .reset⟩]) i t ↔ Seen es i t :=
    seen_append_other (by simp)
  obtain ⟨hnone, hlast⟩ := last_of_seen h hseen
  refine ⟨?_, hnone, hlast, ?_⟩
  · intro later hlater
    exact hlater _ (List.mem_append_right _ (List.mem_singleton.mpr rfl))
  · intro i t r hi
    -- what came before the reset came before the new start
    refine Or.inr ⟨?_, (h.seen i t r hi).1.le hnow⟩
    show r < g.resets + 1
    rcases h.after i t r hi with ⟨hr, _⟩ | ⟨hr, _⟩ <;> omega

theorem Faithful.query {es : List Timed} {g : Sightings} (h : Faithful es g) (now : ℕ) :
    Faithful (es ++ [⟨now, .query⟩]) g := by
  have hseen : ∀ {i t}, Seen (es ++ [⟨now, .query⟩]) i t ↔ Seen es i t :=
    seen_append_other (by simp)
  obtain ⟨hnone, hlast⟩ := last_of_seen h hseen
  refine ⟨?_, hnone, hlast, h.after⟩
  intro later hlater
  exact h.start later fun e he => hlater e (List.mem_append_left _ he)

theorem sightings_faithful {es : List Timed} (hord : InOrder es) : Faithful es (sightings es) := by
  induction es using List.reverseRecOn with
  | nil =>
      refine ⟨fun now _ => Nat.zero_le now, ?_, ?_, ?_⟩
      · intro i _ t ht
        obtain ⟨f, hmem, _⟩ := ht
        exact absurd hmem List.not_mem_nil
      · intro i t r h
        exact absurd h (by simp [sightings, sightingsInit])
      · intro i t r h
        exact absurd h (by simp [sightings, sightingsInit])
  | append_singleton es e ih =>
      obtain ⟨hes, _, hlate⟩ := List.pairwise_append.mp hord
      have hnow : ∀ a ∈ es, a.ms ≤ e.ms := fun a ha => hlate a ha e (List.mem_singleton.mpr rfl)
      have hstep : sightings (es ++ [e]) = (sightings es).step e := by
        rw [sightings, List.foldl_append]
        rfl
      rw [hstep]
      obtain ⟨now, event⟩ := e
      cases event with
      | frame f => exact (ih hes).frame hnow f
      | reset => exact (ih hes).reset hnow
      | query => exact (ih hes).query now

/-- **What a history says about a type**, read off its sightings. -/
theorem evidence_iff {es : List Timed} (hord : InOrder es) (now : ℕ) (i : MsgIndex) :
    Evidence es now i ↔ ∃ t r, (sightings es).last i = some (t, r) ∧ (sightings es).start < t ∧
      now ≤ t + (sRequiredBudgetMs i).toNat := by
  have hfaithful := sightings_faithful hord
  rw [sightings_start]
  constructor
  · intro h
    obtain ⟨t, hseen, hstart, hage⟩ := h
    cases hlast : (sightings es).last i with
    | none => exact absurd hseen (hfaithful.none i hlast t)
    | some p =>
        obtain ⟨t', r⟩ := p
        have hle : t ≤ t' := (hfaithful.seen i t' r hlast).2 t hseen
        exact ⟨t', r, rfl, by omega, by omega⟩
  · intro h
    obtain ⟨t, r, hlast, hstart, hage⟩ := h
    exact ⟨t, (hfaithful.seen i t r hlast).1, hstart, hage⟩

/-! ### The wrap-around -/

/-- A frame of time `t`, with `n` resets since, is told from others in 32 bits: at clock value `now`, with an
epoch that began at `start`, and a budget. -/
structure Clear (start n t now budget : ℕ) : Prop where
  /-- In its epoch and in time, it came in the first half of a clock period counted from the start. -/
  young : start < t → now ≤ t + budget → FirstHalf (t - start)
  /-- In its epoch, in such a half, and overdue, it is not in time again a whole number of periods later. -/
  old : start < t → t + budget < now → FirstHalf (t - start) → budget < (now - t) % 2 ^ 32
  /-- From before the epoch, when the epoch numbers and the sign have come round, it is not in time
  again. -/
  before : t ≤ start → (2 ^ 32 - 1) ∣ n → 2 ^ 31 < (start - t) % 2 ^ 32 → budget < (now - t) % 2 ^ 32

/-- Every query of the history finds the last frame of every type clear of the wrap-around. -/
def Unaliased (es : List Timed) : Prop :=
  ∀ before now after, es = before ++ ⟨now, .query⟩ :: after →
    ∀ i t r, (sightings before).last i = some (t, r) →
      Clear (sightings before).start ((sightings before).resets - r) t now (sRequiredBudgetMs i).toNat

theorem inEpoch_iff {epoch since last tag : UInt32} :
    inEpoch epoch since last tag = true ↔ tag = epoch ∧ 0 < (last - since).toInt32 := by
  rw [inEpoch, Bool.and_eq_true, beq_iff_eq, decide_eq_true_eq]

theorem fresh_eq_true_iff {now epoch since after : UInt32} {last tag : MsgIndex → UInt32} {i : MsgIndex} :
    (msgFreshnessOf now epoch since last tag after).fresh i = true ↔
      tag i = epoch ∧ 0 < (last i - since).toInt32 ∧ now - last i ≤ sRequiredBudgetMs i := by
  show (inEpoch epoch since (last i) (tag i) && decide (now - last i ≤ sRequiredBudgetMs i)) = true ↔ _
  rw [Bool.and_eq_true, inEpoch_iff, decide_eq_true_eq, and_assoc]

theorem allFresh_eq_true_iff {now epoch since after : UInt32} {last tag : MsgIndex → UInt32} :
    (msgFreshnessOf now epoch since last tag after).allFresh = true ↔
      (∀ i, (msgFreshnessOf now epoch since last tag after).fresh i = true) ∧ after = epoch := by
  show (decide _ && after == epoch) = true ↔ _
  rw [Bool.and_eq_true, decide_eq_true_eq, beq_iff_eq]
  exact Iff.rfl

/-- The report on a type, with the statics in 32 bits. -/
theorem report_fresh_iff {g : Sightings} {m : MsgStatics} (h : Image g m) (now : ℕ) (i : MsgIndex) :
    (ntripServerMsgFreshness m now).fresh i = true ↔ ∃ t r, g.last i = some (t, r) ∧
      epochOf r = epochOf g.resets ∧ after32 t g.start ∧
      (age32 now t).toNat ≤ (sRequiredBudgetMs i).toNat := by
  rw [ntripServerMsgFreshness, fresh_eq_true_iff, h.epoch, h.start]
  cases hlast : g.last i with
  | none =>
      rw [h.unseen i hlast]
      refine iff_of_false (fun hfresh => epochOf_ne_zero _ hfresh.1.symm) (by simp)
  | some p =>
      obtain ⟨t, r⟩ := p
      obtain ⟨hms, htag⟩ := h.seen i t r hlast
      rw [hms, htag]
      constructor
      · exact fun hfresh => ⟨t, r, rfl, hfresh⟩
      · intro h
        obtain ⟨t', r', heq, hfresh⟩ := h
        cases heq
        exact hfresh

/-- **One type at one query.**  The comparisons in 32 bits say the truth exactly when the frame is clear. -/
theorem clear_iff {start resets t r now : ℕ} (budget : ℕ) (hnow : t ≤ now)
    (hafter : r = resets ∧ start ≤ t ∨ r < resets ∧ t ≤ start) :
    ((epochOf r = epochOf resets ∧ after32 t start ∧ (age32 now t).toNat ≤ budget) ↔
      (start < t ∧ now ≤ t + budget)) ↔ Clear start (resets - r) t now budget := by
  rw [age32_of_le hnow]
  rcases hafter with ⟨rfl, hstart⟩ | ⟨hr, hstart⟩
  · rw [after32_of_le hstart]
    constructor
    · intro h
      refine ⟨fun hlt hage => (h.mpr ⟨hlt, hage⟩).2.1, ?_, ?_⟩
      · intro hlt hage hhalf
        by_contra hmod
        have htrue := h.mp ⟨rfl, hhalf, by omega⟩
        omega
      · intro hle _ hfar
        rw [Nat.sub_eq_zero_of_le hstart] at hfar
        exact absurd hfar (by decide)
    · intro h
      constructor
      · intro h
        obtain ⟨_, hhalf, hmod⟩ := h
        have hlt : start < t := by
          have hpos := hhalf.1
          by_contra hge
          rw [show t - start = 0 by omega] at hpos
          exact absurd hpos (by decide)
        refine ⟨hlt, ?_⟩
        by_contra hage
        have hold := h.old hlt (by omega) hhalf
        omega
      · intro h
        obtain ⟨hlt, hage⟩ := h
        refine ⟨rfl, h.young hlt hage, ?_⟩
        exact (Nat.mod_le _ _).trans (by omega)
  · rw [epochOf_eq_iff hr.le, after32_of_ge hstart]
    constructor
    · intro h
      refine ⟨fun hlt => by omega, fun hlt => by omega, ?_⟩
      intro _ hdvd hfar
      by_contra hmod
      have htrue := h.mp ⟨hdvd, hfar, by omega⟩
      omega
    · intro h
      refine iff_of_false ?_ (by omega)
      intro h
      obtain ⟨hdvd, hfar, hmod⟩ := h
      have hbefore := h.before hstart hdvd hfar
      omega

/-- A young epoch has no aliases: less than half a period of the clock, and epoch numbers not come round. -/
theorem Clear.of_young {start resets t r now : ℕ} (budget : ℕ) (hnow : t ≤ now)
    (hafter : r = resets ∧ start ≤ t ∨ r < resets ∧ t ≤ start) (hyoung : now < start + 2 ^ 31)
    (hresets : resets < 2 ^ 32 - 1) : Clear start (resets - r) t now budget := by
  refine ⟨?_, ?_, ?_⟩
  · intro hlt _
    have hmod : (t - start) % 2 ^ 32 = t - start := Nat.mod_eq_of_lt (by omega)
    rw [FirstHalf, hmod]
    omega
  · intro hlt hage _
    rw [Nat.mod_eq_of_lt (by omega)]
    omega
  · intro hle hdvd hfar
    rcases hafter with ⟨_, hge⟩ | ⟨hr, _⟩
    · rw [show start - t = 0 by omega] at hfar
      exact absurd hfar (by decide)
    · have hsmall := Nat.le_of_dvd (by omega) hdvd
      omega

theorem unaliased_of_young {es : List Timed} (hord : InOrder es)
    (hyoung : ∀ before now after, es = before ++ ⟨now, .query⟩ :: after →
      now < epochStart before + 2 ^ 31 ∧ (sightings before).resets < 2 ^ 32 - 1) : Unaliased es := by
  intro before now after hes i t r hlast
  obtain ⟨hnow, hresets⟩ := hyoung before now after hes
  rw [hes] at hord
  obtain ⟨hbefore, _, hlate⟩ := List.pairwise_append.mp hord
  have hfaithful := sightings_faithful hbefore
  rw [← sightings_start] at hnow
  refine Clear.of_young _ ?_ (hfaithful.after i t r hlast) hnow hresets
  exact (hfaithful.seen i t r hlast).1.le fun e he => hlate e he _ List.mem_cons_self

/-- A frame of type 1077 with nothing behind the type. -/
def frame1077 : RtcmFrame where
  b1 := 0
  b2 := 2
  payload := [0x43, 0x50]
  c2 := 0x06
  c1 := 0xA2
  c0 := 0x7E
  reserved := emptyFrame.reserved
  length_eq := by decide
  crc_eq := by decide +kernel

theorem carries_frame1077 : Carries frame1077 (ntripRequiredMsgs 2) := ⟨0x43, 0x50, [], rfl, by decide⟩

/-- `2 ^ 31` ms after boot, without a reset, a frame comes and the station is asked at once. -/
def lateHistory : List Timed := [⟨2 ^ 31, .frame frame1077⟩, ⟨2 ^ 31, .query⟩]

/-- **A frame that has just come is not fresh.** -/
theorem late_frame_not_fresh :
    Evidence [⟨2 ^ 31, .frame frame1077⟩] (2 ^ 31) 2 ∧
      (ntripServerMsgFreshness (msgMachine.run msgStaticsInit [⟨2 ^ 31, .frame frame1077⟩])
        (2 ^ 31)).fresh 2 = false ∧
      ¬ Exact lateHistory := by
  have hevidence : Evidence [⟨2 ^ 31, .frame frame1077⟩] (2 ^ 31) 2 :=
    ⟨2 ^ 31, ⟨frame1077, List.mem_singleton.mpr rfl, carries_frame1077⟩, by decide, by decide⟩
  have hfresh : (ntripServerMsgFreshness (msgMachine.run msgStaticsInit
      [⟨2 ^ 31, .frame frame1077⟩]) (2 ^ 31)).fresh 2 = false := by
    decide +kernel
  refine ⟨hevidence, hfresh, ?_⟩
  intro hexact
  have htrue := ((hexact [⟨2 ^ 31, .frame frame1077⟩] (2 ^ 31) [] rfl).1 2).mpr hevidence
  rw [hfresh] at htrue
  exact absurd htrue (by decide)

/-- **The freshness reports of a history** are exact if and only if no frame that a query looks at is
aliased. -/
theorem exact_iff (es : List Timed) (hord : InOrder es) : Exact es ↔ Unaliased es := by
  refine forall_congr' fun before => forall_congr' fun now => forall_congr' fun after =>
    forall_congr' ?_
  intro hes
  rw [hes] at hord
  obtain ⟨hbefore, _, hlate⟩ := List.pairwise_append.mp hord
  have hfaithful := sightings_faithful hbefore
  have himage := run_image before
  -- type by type: a type that was never seen is not fresh, and nothing says that it is
  have htype : ∀ i, ((ntripServerMsgFreshness (msgMachine.run msgStaticsInit before) now).fresh i = true ↔
      Evidence before now i) ↔ ∀ t r, (sightings before).last i = some (t, r) →
        Clear (sightings before).start ((sightings before).resets - r) t now
          (sRequiredBudgetMs i).toNat := by
    intro i
    rw [report_fresh_iff himage, evidence_iff hbefore]
    cases hlast : (sightings before).last i with
    | none => simp
    | some p =>
        obtain ⟨t, r⟩ := p
        have hnow : t ≤ now :=
          (hfaithful.seen i t r hlast).1.le fun e he => hlate e he _ List.mem_cons_self
        have hclear := clear_iff (sRequiredBudgetMs i).toNat hnow (hfaithful.after i t r hlast)
        simpa using hclear
  have hall : (ntripServerMsgFreshness (msgMachine.run msgStaticsInit before) now).allFresh = true ↔
      ∀ i, (ntripServerMsgFreshness (msgMachine.run msgStaticsInit before) now).fresh i = true := by
    rw [ntripServerMsgFreshness, allFresh_eq_true_iff]
    exact and_iff_left rfl
  rw [and_iff_left hall]
  exact forall_congr' htype

/-- A history of one frame and one query that is answered exactly. -/
theorem exact_example : Exact [⟨5, .frame frame1077⟩, ⟨6, .query⟩] := by
  refine (exact_iff [⟨5, .frame frame1077⟩, ⟨6, .query⟩] (by simp [InOrder])).mpr ?_
  apply unaliased_of_young (by simp [InOrder])
  intro before now after hes
  have hlen := congrArg List.length hes
  match before, hes with
  | [], hes => exact absurd hes (by simp)
  | [e], hes =>
      obtain ⟨rfl, hquery⟩ := List.cons_eq_cons.mp hes
      cases hquery
      exact ⟨by decide, by decide⟩
  | e :: f :: g, hes => simp at hlen

end RtkdataFw.NtripServer
