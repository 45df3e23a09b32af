import RtkdataFw.Update.Firmware

/-!
# The order of the files in a manifest

`ota_update_firmware` compares `total_file_write`, which counts every file of the update so far, with the length
of its own file.  So a download that is whole in itself goes through or not by what came before it.

* `Complete` — a file whose download is whole and whose flash operations succeed;
* `fileOk_iff` — such a file goes through, unless it is an app image behind other bytes;
* `order_decides` — the same two complete files restart the device in one order and fail in the other;
* `restart_iff` — a complete manifest installs exactly when no file stands before an app image.
-/

namespace RtkdataFw.Update

open RtkdataFw.Lib

variable {L : Layout}

/-- The flash operations of an app image succeed. -/
structure AppFlashOk (e : FileEnv) : Prop where
  slot : e.slot ≠ none
  begins : e.beginOk = true
  ends : e.endOk = true
  sets : e.setBootOk = true

/-- The flash operations of a `www.bin` succeed; a write does when it lies inside its partition. -/
structure WwwFlashOk (L : Layout) (e : FileEnv) : Prop where
  found : e.spiffsFound = true
  erases : e.eraseSpiffs = .ok
  fits : e.bytes ≤ L.spiffsB
  copy : CopyOk L e

/-- There is heap, the server answers 200 and delivers its `Content-Length`, and every flash operation
succeeds. -/
structure Complete (L : Layout) (url : CStr) (e : FileEnv) : Prop where
  fetch : FetchOk e
  whole : (e.bytes : ℤ) = e.contentLength
  reads : e.readFails = false
  writes : ∀ c ∈ e.chunks, c.2 = .ok
  flash : if isWWWBinFile url then WwwFlashOk L e else AppFlashOk e

/-- Every file of the manifest is complete. -/
def AllComplete (L : Layout) (items : List ManifestItem) : Prop :=
  ∀ url e, .url url e ∈ items → Complete L url e

theorem Complete.bytes_pos {url : CStr} {e : FileEnv} (h : Complete L url e) : 0 < e.bytes := by
  have hpos := h.fetch.length
  rw [← h.whole] at hpos
  exact Int.natCast_pos.mp hpos

/-- **A complete file** goes through, unless it is an app image and bytes were counted before it. -/
theorem fileOk_iff {url : CStr} {e : FileEnv} (h : Complete L url e) (written : ℕ) :
    FileOk L url e written ↔ isWWWBinFile url ∨ written = 0 := by
  have hflash := h.flash
  rw [FileOk]
  by_cases hwww : isWWWBinFile url
  · rw [if_pos hwww] at hflash ⊢
    refine iff_of_true ?_ (Or.inl hwww)
    exact ⟨⟨h.fetch, hflash.found, hflash.erases, h.writes, hflash.fits, h.reads, h.whole⟩, hflash.copy⟩
  · rw [if_neg hwww] at hflash ⊢
    rw [or_iff_right hwww]
    constructor
    · intro hok
      have hwhole := hok.whole
      rw [← h.whole] at hwhole
      omega
    · rintro rfl
      refine ⟨h.fetch, hflash.slot, hflash.begins, h.writes, h.reads, ?_, hflash.ends, hflash.sets⟩
      rw [Nat.zero_add]
      exact h.whole

theorem AllComplete.tail {item : ManifestItem} {rest : List ManifestItem}
    (h : AllComplete L (item :: rest)) : AllComplete L rest :=
  fun url e hmem => h url e (List.mem_cons_of_mem _ hmem)

/-- Behind other bytes only web files go through. -/
theorem allOk_behind {items : List ManifestItem} (h : AllComplete L items) {written : ℕ}
    (hpos : 0 < written) : AllOk L written items ↔ ∀ url e, .url url e ∈ items → isWWWBinFile url := by
  induction items generalizing written with
  | nil => exact iff_of_true trivial fun url e hmem => absurd hmem List.not_mem_nil
  | cons item rest ih =>
      cases item with
      | other =>
          rw [AllOk, ih h.tail hpos]
          constructor
          · intro hall url e hmem
            exact hall url e ((List.mem_cons.mp hmem).resolve_left (by simp))
          · exact fun hall url e hmem => hall url e (List.mem_cons_of_mem _ hmem)
      | url url e =>
          rw [AllOk, fileOk_iff (h url e List.mem_cons_self), or_iff_left (Nat.ne_of_gt hpos),
            ih h.tail (Nat.add_pos_left hpos _)]
          constructor
          · intro h url' e' hmem
            obtain ⟨hwww, hall⟩ := h
            rcases List.mem_cons.mp hmem with heq | hmem
            · cases heq
              exact hwww
            · exact hall url' e' hmem
          · intro hall
            exact ⟨hall url e List.mem_cons_self, fun url' e' hmem => hall url' e' (List.mem_cons_of_mem _ hmem)⟩

/-- No file stands before an app image. -/
def AppFirst (items : List ManifestItem) : Prop :=
  ∀ before url e after, items = before ++ .url url e :: after → ¬ isWWWBinFile url →
    firstUrl before = none

theorem appFirst_other (rest : List ManifestItem) : AppFirst (.other :: rest) ↔ AppFirst rest := by
  constructor
  · intro h before url e after heq happ
    exact h (.other :: before) url e after (by rw [heq]; rfl) happ
  · intro h before url e after heq happ
    cases before with
    | nil => cases heq
    | cons item before =>
        obtain ⟨rfl, hrest⟩ := List.cons_eq_cons.mp heq
        exact h before url e after hrest happ

/-- Behind a first file there are web files only. -/
theorem appFirst_url (url : CStr) (e : FileEnv) (rest : List ManifestItem) :
    AppFirst (.url url e :: rest) ↔ ∀ url' e', .url url' e' ∈ rest → isWWWBinFile url' := by
  constructor
  · intro h url' e' hmem
    obtain ⟨before, after, hrest⟩ := List.append_of_mem hmem
    by_contra happ
    exact absurd (h (.url url e :: before) url' e' after (by rw [hrest]; rfl) happ) (by simp [firstUrl])
  · intro h before url' e' after heq happ
    cases before with
    | nil => rfl
    | cons item before =>
        obtain ⟨rfl, hrest⟩ := List.cons_eq_cons.mp heq
        refine absurd (h url' e' ?_) happ
        rw [hrest]
        exact List.mem_append_right _ List.mem_cons_self

/-- **From the start of an update**: the files go through when no file stands before an app image. -/
theorem allOk_iff {items : List ManifestItem} (h : AllComplete L items) :
    AllOk L 0 items ↔ AppFirst items := by
  induction items with
  | nil =>
      apply iff_of_true trivial
      intro before url e after heq _
      exact absurd heq.symm (List.append_ne_nil_of_right_ne_nil _ (List.cons_ne_nil _ _))
  | cons item rest ih =>
      cases item with
      | other => rw [AllOk, ih h.tail, appFirst_other]
      | url url e =>
          have hcomplete := h url e List.mem_cons_self
          have hok : FileOk L url e 0 := (fileOk_iff hcomplete 0).mpr (Or.inr rfl)
          rw [AllOk, and_iff_right hok, appFirst_url, Nat.zero_add]
          exact allOk_behind h.tail hcomplete.bytes_pos

theorem updateFirmware_restart (d : Device L) (items : List ManifestItem) :
    (updateFirmware d items).1 = .restart ↔ AllOk L 0 items := by
  have hfail := updateFirmware_fail d items
  cases hresult : (updateFirmware d items).1 with
  | restart =>
      rw [hresult] at hfail
      exact iff_of_true rfl (not_not.mp fun hnot => nomatch hfail.mpr hnot)
  | fail =>
      rw [hresult] at hfail
      exact iff_of_false (by simp) (hfail.mp rfl)

/-! ### Two files in two orders -/

theorem complete_goodEnv (url : CStr) : Complete partitionsCsv url goodEnv := by
  have hfetch : FetchOk goodEnv := ⟨by decide, rfl, rfl, rfl, by decide⟩
  refine ⟨hfetch, rfl, rfl, ?_, ?_⟩
  · intro c hc
    rw [List.mem_singleton.mp hc]
  · by_cases hwww : isWWWBinFile url
    · rw [if_pos hwww]
      exact ⟨rfl, rfl, by decide, rfl, rfl, fun _ _ _ => ⟨rfl, rfl, Nat.min_le_right _ _⟩⟩
    · rw [if_neg hwww]
      exact ⟨Option.some_ne_none _, rfl, rfl, rfl⟩

theorem allComplete_pair (url₁ url₂ : CStr) :
    AllComplete partitionsCsv [.url url₁ goodEnv, .url url₂ goodEnv] := by
  intro url e hmem
  simp only [List.mem_cons, ManifestItem.url.injEq, List.not_mem_nil, or_false] at hmem
  rcases hmem with ⟨rfl, rfl⟩ | ⟨rfl, rfl⟩
  · exact complete_goodEnv url
  · exact complete_goodEnv url

/-- **The order decides.**  The image before the web file installs; the web file before the image does not. -/
theorem order_decides :
    (updateFirmware factoryDevice [.url appBin goodEnv, .url wwwBin goodEnv]).1 = .restart ∧
      (updateFirmware factoryDevice [.url wwwBin goodEnv, .url appBin goodEnv]).1 = .fail ∧
      ¬ ∀ (d : Device partitionsCsv) (items : List ManifestItem), AllComplete partitionsCsv items →
        (updateFirmware d items).1 = .restart := by
  have happ : ¬ isWWWBinFile appBin := by decide
  have hwww : isWWWBinFile wwwBin := by decide
  have hlate : (updateFirmware factoryDevice [.url wwwBin goodEnv, .url appBin goodEnv]).1 = .fail := by
    rw [updateFirmware_fail, allOk_iff (allComplete_pair wwwBin appBin), appFirst_url]
    exact fun hall => happ (hall appBin goodEnv (List.mem_singleton.mpr rfl))
  refine ⟨?_, hlate, ?_⟩
  · rw [updateFirmware_restart, allOk_iff (allComplete_pair appBin wwwBin), appFirst_url]
    intro url e hmem
    cases List.mem_singleton.mp hmem
    exact hwww
  · intro hall
    have hrestart := hall factoryDevice _ (allComplete_pair wwwBin appBin)
    rw [hlate] at hrestart
    cases hrestart

/-- **A complete manifest installs** exactly when no file stands before an app image. -/
theorem restart_iff (L : Layout) (d : Device L) (items : List ManifestItem) (h : AllComplete L items) :
    (updateFirmware d items).1 = .restart ↔ AppFirst items := by
  rw [updateFirmware_restart]
  exact allOk_iff h

theorem restart_iff_pair :
    (updateFirmware factoryDevice [.url appBin goodEnv, .url wwwBin goodEnv]).1 = .restart ↔
      AppFirst [.url appBin goodEnv, .url wwwBin goodEnv] :=
  restart_iff partitionsCsv factoryDevice [.url appBin goodEnv, .url wwwBin goodEnv]
    (allComplete_pair appBin wwwBin)

end RtkdataFw.Update
