import RtkdataFw.Gnss.AckStream

/-!
# The records that are judged

`gnss_ack_scan` is called on a buffer that is still growing.  `judgedRecords` lists the records that one call
judges, in the order of the loop.

* `scanLoop_eq_foldl` — the verdict comes from these records, the last one that is recognised;
* `mem_judgedRecords`, `judgedRecords_ordered` — they are the records of the buffer, from front to back;
* `Record.extend_iff` — the records of a buffer are those of the longer one whose digits are in the buffer;
* `verdict_stable` — so bytes that come later add records behind the others, and change nothing else.
-/

namespace RtkdataFw.Gnss

open RtkdataFw.Lib

/-- The prefixes and stars of the records that `scanLoop` judges from `pos` on. -/
def scanRecords (buf : List UInt8) (pos : ℕ) : List (ℕ × ℕ) :=
  match _hrec : findAt buf buf.length pos commandPrefix with
  | none => []
  | some rec =>
      let body := rec + prefixLen
      let next := findAt buf buf.length body commandPrefix
      match _hstar : starLoop buf rec next body with
      | none => scanRecords buf body
      | some star =>
          if ∃ k ∈ next, k < star then scanRecords buf body
          else (rec, star) :: scanRecords buf star
termination_by buf.length - pos
decreasing_by
  all_goals
    have hpos := findAt_lt commandPrefix_ne_nil _hrec
    have hlen : 0 < prefixLen := Nat.succ_pos 8
  · show buf.length - (rec + prefixLen) < buf.length - pos
    omega
  · show buf.length - (rec + prefixLen) < buf.length - pos
    omega
  · have hge : rec + prefixLen ≤ star := (starLoop_eq_some_iff.mp _hstar).1.1.1
    omega

/-- The records that `gnss_ack_scan` judges. -/
def judgedRecords (buf : List UInt8) : List (ℕ × ℕ) := if buf.length = 0 then [] else scanRecords buf 0

/-- The verdicts of some records, the last one that is recognised over the others. -/
def foldVerdicts (buf : List UInt8) (cmd : CStr) (w : AckVerdict) (rs : List (ℕ × ℕ)) : AckVerdict :=
  rs.foldl (fun v r => v.update (verdictAt buf cmd r.1 r.2)) w

/-! ### One round of the scan -/

/-- **The rounds of the loop**: no prefix is left; a prefix without its star; a record. -/
theorem scan_cases (buf : List UInt8) (pos : ℕ) :
    ((∀ cmd w, scanLoop buf cmd pos w = w) ∧ scanRecords buf pos = [] ∧
        ∀ i s, pos ≤ i → ¬ Record buf i s) ∨
      (∃ rec, pos ≤ rec ∧ rec < buf.length ∧
        (∀ cmd w, scanLoop buf cmd pos w = scanLoop buf cmd (rec + prefixLen) w) ∧
        scanRecords buf pos = scanRecords buf (rec + prefixLen) ∧
        ∀ i s, pos ≤ i → Record buf i s → rec + prefixLen ≤ i) ∨
      ∃ rec star, pos ≤ rec ∧ Record buf rec star ∧
        (∀ cmd w, scanLoop buf cmd pos w =
          scanLoop buf cmd star (w.update (verdictAt buf cmd rec star))) ∧
        scanRecords buf pos = (rec, star) :: scanRecords buf star ∧
        ∀ i s, pos ≤ i → Record buf i s → i = rec ∨ star ≤ i := by
  rcases scan_round buf pos with ⟨hfind, hnone⟩ |
    ⟨rec, hfind, hge, hlt, ⟨hstar, hbehind⟩ | ⟨star, hstar, hnext, hrecord, hbehind⟩⟩
  · refine Or.inl ⟨?_, ?_, hnone⟩
    · intro cmd w
      rw [scanLoop, hfind]
    · rw [scanRecords, hfind]
  · refine Or.inr (Or.inl ⟨rec, hge, hlt, ?_, ?_, hbehind⟩)
    · intro cmd w
      rw [scanLoop, hfind]
      dsimp only
      rw [hstar]
    · rw [scanRecords, hfind]
      dsimp only
      rw [hstar]
  · refine Or.inr (Or.inr ⟨rec, star, hge, hrecord, ?_, ?_, hbehind⟩)
    · intro cmd w
      rw [scanLoop, hfind]
      dsimp only
      rw [hstar]
      exact if_neg hnext
    · rw [scanRecords, hfind]
      dsimp only
      rw [hstar]
      exact if_neg hnext

/-- A position with no record behind it. -/
def NoRecords (buf : List UInt8) (pos : ℕ) : Prop :=
  (∀ cmd w, scanLoop buf cmd pos w = w) ∧ scanRecords buf pos = [] ∧ ∀ i s, pos ≤ i → ¬ Record buf i s

/-- **Induction along the scan.**  One case for each kind of round. -/
theorem scan_induct (buf : List UInt8) {motive : ℕ → Prop}
    (stop : ∀ pos, NoRecords buf pos → motive pos)
    (skip : ∀ pos rec, pos ≤ rec → (∀ cmd w, scanLoop buf cmd pos w = scanLoop buf cmd (rec + prefixLen) w) →
      scanRecords buf pos = scanRecords buf (rec + prefixLen) →
      (∀ i s, pos ≤ i → Record buf i s → rec + prefixLen ≤ i) → motive (rec + prefixLen) → motive pos)
    (record : ∀ pos rec star, pos ≤ rec → Record buf rec star →
      (∀ cmd w, scanLoop buf cmd pos w = scanLoop buf cmd star (w.update (verdictAt buf cmd rec star))) →
      scanRecords buf pos = (rec, star) :: scanRecords buf star →
      (∀ i s, pos ≤ i → Record buf i s → i = rec ∨ star ≤ i) → motive star → motive pos)
    (pos : ℕ) : motive pos := by
  have hlen : 0 < prefixLen := Nat.succ_pos 8
  induction hleft : buf.length - pos using Nat.strongRecOn generalizing pos with
  | ind left ih =>
      rcases scan_cases buf pos with hnone | ⟨rec, hle, hlt, hloop, hrecords, hbehind⟩ |
        ⟨rec, star, hle, hrecord, hloop, hrecords, hbehind⟩
      · exact stop pos hnone
      · exact skip pos rec hle hloop hrecords hbehind (ih _ (by omega) _ rfl)
      · have hbody := hrecord.body_le
        have hend := hrecord.lt_length
        exact record pos rec star hle hrecord hloop hrecords hbehind (ih _ (by omega) _ rfl)

/-! ### What is judged -/

/-- **The verdict comes from the records.** -/
theorem scanLoop_eq_foldl (buf : List UInt8) (cmd : CStr) (pos : ℕ) (w : AckVerdict) :
    scanLoop buf cmd pos w = foldVerdicts buf cmd w (scanRecords buf pos) := by
  induction pos using scan_induct buf generalizing w with
  | stop pos hnone =>
      rw [hnone.1, hnone.2.1]
      rfl
  | skip pos rec _ hloop hrecords _ ih => rw [hloop, hrecords, ih]
  | record pos rec star _ _ hloop hrecords _ ih =>
      rw [hloop, hrecords, ih]
      rfl

theorem mem_scanRecords {buf : List UInt8} {pos i s : ℕ} :
    (i, s) ∈ scanRecords buf pos ↔ pos ≤ i ∧ Record buf i s := by
  induction pos using scan_induct buf with
  | stop pos hnone =>
      rw [hnone.2.1]
      exact iff_of_false List.not_mem_nil fun h => hnone.2.2 i s h.1 h.2
  | skip pos rec hle _ hrecords hbehind ih =>
      rw [hrecords, ih]
      exact ⟨fun h => ⟨by omega, h.2⟩, fun h => ⟨hbehind i s h.1 h.2, h.2⟩⟩
  | record pos rec star hle hrecord _ hrecords hbehind ih =>
      have hbody := hrecord.body_le
      rw [hrecords, List.mem_cons, ih, Prod.mk.injEq]
      constructor
      · intro h
        rcases h with ⟨rfl, rfl⟩ | ⟨hge, hrec⟩
        · exact ⟨hle, hrecord⟩
        · exact ⟨by omega, hrec⟩
      · intro h
        obtain ⟨hpos, hrec⟩ := h
        rcases hbehind i s hpos hrec with rfl | hge
        · exact Or.inl ⟨rfl, hrec.unique hrecord⟩
        · exact Or.inr ⟨hge, hrec⟩

theorem scanRecords_ordered (buf : List UInt8) (pos : ℕ) :
    (scanRecords buf pos).Pairwise fun r r' => r.1 < r'.1 := by
  induction pos using scan_induct buf with
  | stop pos hnone =>
      rw [hnone.2.1]
      exact List.Pairwise.nil
  | skip pos rec _ _ hrecords _ ih =>
      rw [hrecords]
      exact ih
  | record pos rec star _ hrecord _ hrecords _ ih =>
      have hbody := hrecord.body_le
      have hlen : 0 < prefixLen := Nat.succ_pos 8
      rw [hrecords]
      refine List.Pairwise.cons ?_ ih
      intro r hr
      have hge := (mem_scanRecords.mp hr).1
      show rec < r.1
      omega

theorem judgedRecords_eq (buf : List UInt8) : judgedRecords buf = scanRecords buf 0 := by
  rw [judgedRecords]
  by_cases hempty : buf.length = 0
  · rw [if_pos hempty, List.length_eq_zero_iff.mp hempty]
    refine (List.eq_nil_iff_forall_not_mem.mpr ?_).symm
    intro r hr
    have hlt := (mem_scanRecords.mp hr).2.lt_length
    exact absurd hlt (Nat.not_lt_zero _)
  · rw [if_neg hempty]

/-- **What is judged are the records of the buffer**, from front to back. -/
theorem mem_judgedRecords {buf : List UInt8} {i s : ℕ} : (i, s) ∈ judgedRecords buf ↔ Record buf i s := by
  rw [judgedRecords_eq, mem_scanRecords]
  exact ⟨fun h => h.2, fun h => ⟨Nat.zero_le i, h⟩⟩

theorem judgedRecords_ordered (buf : List UInt8) :
    (judgedRecords buf).Pairwise fun r r' => r.1 < r'.1 := by
  rw [judgedRecords_eq]
  exact scanRecords_ordered buf 0

theorem gnssAckScan_eq_foldl (buf : List UInt8) (cmd : CStr) :
    gnssAckScan buf cmd = foldVerdicts buf cmd .none (judgedRecords buf) := by
  rw [gnssAckScan, judgedRecords]
  split
  · rfl
  · exact scanLoop_eq_foldl buf cmd 0 .none

/-! ### Longer buffers -/

theorem Record.digits_le {buf : List UInt8} {i s : ℕ} (h : Record buf i s) : s + 3 ≤ buf.length := by
  obtain ⟨_, _, _, hlo, _⟩ := recordValidAt_iff.mp h.star.1.2.2
  exact (List.getElem?_eq_some_iff.mp hlo).1

theorem validStar_extend_iff {b e : List UInt8} {i s : ℕ} (hs : s + 3 ≤ b.length) :
    ValidStar (b ++ e) i s ↔ ValidStar b i s := by
  have hat : OccursAt [starByte] (b ++ e) s ↔ OccursAt [starByte] b s :=
    ⟨fun h => h.of_append (show s + 1 ≤ b.length by omega), fun h => h.append (by omega) e⟩
  rw [ValidStar, ValidStar, hat, recordValidAt_iff, recordValidAt_iff,
    List.getElem?_append_left (by omega), List.getElem?_append_left (by omega),
    List.take_append_of_le_length (by omega)]

/-- **The records of the front** of a buffer are those of the buffer whose digits lie in it. -/
theorem Record.extend_iff {b e : List UInt8} {i s : ℕ} :
    Record b i s ↔ Record (b ++ e) i s ∧ s + 3 ≤ b.length := by
  constructor
  · intro h
    have hdigits := h.digits_le
    have hbody := h.body_le
    refine ⟨⟨h.head.append (by omega) e, ⟨⟨hbody, (validStar_extend_iff hdigits).mpr h.star.1.2⟩, ?_⟩, ?_⟩,
      hdigits⟩
    · intro k hk
      apply Nat.le_of_not_lt
      intro hlt
      exact absurd (h.star.2 ⟨hk.1, (validStar_extend_iff (by omega)).mp hk.2⟩) (Nat.not_le.mpr hlt)
    · intro k hik hks hk
      -- a prefix that runs past the star would have a star in it
      rcases Nat.lt_or_ge (s - k) commandPrefix.length with hover | hends
      · have hstar : (b ++ e)[k + (s - k)]? = some starByte := by
          rw [Nat.add_sub_cancel' hks.le, List.getElem?_append_left h.lt_length]
          exact h.star_getElem?
        rw [hk.getElem? hover] at hstar
        exact absurd (List.mem_of_getElem? hstar) (by decide)
      · exact h.alone k hik hks (hk.of_append (by omega))
  · intro h
    obtain ⟨hrec, hdigits⟩ := h
    have hbody := hrec.body_le
    refine ⟨hrec.head.of_append ?_, ⟨⟨hbody, (validStar_extend_iff hdigits).mp hrec.star.1.2⟩, ?_⟩, ?_⟩
    · show i + prefixLen ≤ b.length
      omega
    · intro k hk
      apply Nat.le_of_not_lt
      intro hlt
      exact absurd (hrec.star.2 ⟨hk.1, (validStar_extend_iff (by omega)).mpr hk.2⟩) (Nat.not_le.mpr hlt)
    · intro k hik hks hk
      exact hrec.alone k hik hks (hk.append (by omega) e)

theorem verdictAt_extend {b : List UInt8} {s : ℕ} (hs : s ≤ b.length) (e : List UInt8) (cmd : CStr)
    (i : ℕ) : verdictAt (b ++ e) cmd i s = verdictAt b cmd i s := by
  rw [verdictAt, verdictAt, recordText, recordText, List.take_append_of_le_length hs]

/-- **Later bytes add records at the end.** -/
theorem judgedRecords_extend (b e : List UInt8) : judgedRecords b <+: judgedRecords (b ++ e) := by
  refine prefix_of_ordered (P := fun r => r.2 + 3 ≤ b.length) (fun r r' h => Nat.not_lt.mpr h.le)
    (judgedRecords_ordered b) (judgedRecords_ordered (b ++ e)) ?_ ?_
  · intro r hr r' hr' hlt hdigits
    have hrec := mem_judgedRecords.mp hr
    have hrec' := mem_judgedRecords.mp hr'
    have hbody := hrec'.body_le
    have hsep : r.2 ≤ r'.1 := Nat.le_of_not_lt fun hbefore => hrec.alone r'.1 hlt hbefore hrec'.head
    show r.2 + 3 ≤ b.length
    omega
  · intro r
    rw [mem_judgedRecords (i := r.1) (s := r.2), mem_judgedRecords (i := r.1) (s := r.2)]
    exact Record.extend_iff

/-- Records that say nothing about the command leave the verdict alone. -/
theorem foldVerdicts_none {buf : List UInt8} {cmd : CStr} {rs : List (ℕ × ℕ)}
    (h : ∀ r ∈ rs, verdictAt buf cmd r.1 r.2 = .none) (w : AckVerdict) : foldVerdicts buf cmd w rs = w := by
  induction rs generalizing w with
  | nil => rfl
  | cons r rs ih =>
      show foldVerdicts buf cmd (w.update (verdictAt buf cmd r.1 r.2)) rs = w
      rw [h r List.mem_cons_self]
      exact ih (fun r' hr' => h r' (List.mem_cons_of_mem r hr')) w

theorem foldVerdicts_extend {b e : List UInt8} {cmd : CStr} {rs : List (ℕ × ℕ)}
    (h : ∀ r ∈ rs, r.2 ≤ b.length) (w : AckVerdict) :
    foldVerdicts (b ++ e) cmd w rs = foldVerdicts b cmd w rs := by
  induction rs generalizing w with
  | nil => rfl
  | cons r rs ih =>
      show foldVerdicts (b ++ e) cmd (w.update (verdictAt (b ++ e) cmd r.1 r.2)) rs =
        foldVerdicts b cmd (w.update (verdictAt b cmd r.1 r.2)) rs
      rw [verdictAt_extend (h r List.mem_cons_self)]
      exact ih (fun r' hr' => h r' (List.mem_cons_of_mem r hr')) _

/-- **A verdict is stable.**  The records of `b` are the first ones of `b ++ e`; the verdict stays unless a
record of `b ++ e` with its digits past `b` has one for `cmd`; and in `b` nothing was judged of such a record. -/
theorem verdict_stable (b e : List UInt8) (cmd : CStr) :
    judgedRecords b <+: judgedRecords (b ++ e) ∧
      (gnssAckScan (b ++ e) cmd = gnssAckScan b cmd ∨
        ∃ i s, Record (b ++ e) i s ∧ b.length < s + 3 ∧ verdictAt (b ++ e) cmd i s ≠ .none) ∧
      ∀ i s, Record (b ++ e) i s → b.length < s + 3 → ∀ s', ¬ Record b i s' := by
  refine ⟨judgedRecords_extend b e, ?_, ?_⟩
  · by_cases hnew : ∃ i s, Record (b ++ e) i s ∧ b.length < s + 3 ∧ verdictAt (b ++ e) cmd i s ≠ .none
    · exact Or.inr hnew
    apply Or.inl
    obtain ⟨rs, hrs⟩ := judgedRecords_extend b e
    have hordered := judgedRecords_ordered (b ++ e)
    rw [← hrs, List.pairwise_append] at hordered
    have hold : ∀ r ∈ judgedRecords b, r.2 ≤ b.length := by
      intro r hr
      have hdigits := (mem_judgedRecords.mp hr).digits_le
      omega
    have hquiet : ∀ r ∈ rs, verdictAt (b ++ e) cmd r.1 r.2 = .none := by
      intro r hr
      have hmem : (r.1, r.2) ∈ judgedRecords (b ++ e) := by
        rw [← hrs]
        exact List.mem_append_right _ hr
      have hrec := mem_judgedRecords.mp hmem
      by_contra hverdict
      refine hnew ⟨r.1, r.2, hrec, Nat.lt_of_not_le fun hdigits => ?_, hverdict⟩
      -- a record of `b` would stand before itself
      have hin := mem_judgedRecords.mpr (Record.extend_iff.mpr ⟨hrec, hdigits⟩)
      exact absurd (hordered.2.2 _ hin r hr) (Nat.lt_irrefl _)
    rw [gnssAckScan_eq_foldl, gnssAckScan_eq_foldl, ← hrs, foldVerdicts, List.foldl_append]
    exact (foldVerdicts_none hquiet _).trans (foldVerdicts_extend hold .none)
  · intro i s hrec hlate s' hrec'
    obtain ⟨hext, hdigits⟩ := Record.extend_iff.mp hrec'
    rw [hrec.unique hext] at hlate
    omega

end RtkdataFw.Gnss
