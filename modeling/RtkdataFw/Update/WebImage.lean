import RtkdataFw.Update.ManifestOrder

/-!
# The live web partition

`update_SPIFFS` writes a `www.bin` to the staging partition in the pieces in which it arrives, and only a whole
file is copied over the live partition, 1024 bytes at a time.  Any of the reads, erases and writes may break off,
and so may the power; what is left then is what the first bytes of the broken operation made of the flash.

* `staged_image`, `copyFile_image` — what the two loops leave, whole or broken off;
* `WebHolds` — the contents that can come of some files: never the bytes of two of them;
* `applyFiles_webHolds`, `applyFiles_lastWeb` — one update;
* `live_web_image` — any number of updates, each of which may break off anywhere.
-/

namespace RtkdataFw.Update

open RtkdataFw.Lib RtkdataFw.Lib.Partition

variable {L : Layout}

/-! ### The two loops -/

/-- The bytes of the download. -/
def FileEnv.content (e : FileEnv) : List UInt8 := (e.chunks.map fun c => c.1.data).flatten

theorem FileEnv.length_content (e : FileEnv) : e.content.length = e.bytes := by
  rw [FileEnv.content, FileEnv.bytes, List.length_flatten, List.map_map]
  rfl

/-- The download is staged behind what was staged before, however it is cut into pieces. -/
theorem stageLoop_image {n : ℕ} (file : List UInt8) (total : ℕ) (chunks : List (Chunk × FlashIo))
    (h : (stageLoop (image file : Partition n) file.length total chunks).ok = true) :
    (stageLoop (image file : Partition n) file.length total chunks).spiffs =
      image (file ++ (chunks.map fun c => c.1.data).flatten) := by
  induction chunks generalizing file total with
  | nil => simp [stageLoop]
  | cons c rest ih =>
      obtain ⟨c, io⟩ := c
      by_cases hwrite : ((image file : Partition n).write file.length c.data io).1 = true
      · have hnext := (write_image file c.data io).2 hwrite
        rw [stageLoop, if_pos hwrite, hnext, ← List.length_append] at h ⊢
        rw [ih (file ++ c.data) _ h, List.append_assoc]
        rfl
      · rw [stageLoop, if_neg hwrite] at h
        exact absurd h Bool.false_ne_true

theorem staged_image {e : FileEnv} (h : StagedOk L e) : staged L e = image e.content := by
  have hok : (stageLoop (image [] : Partition L.spiffsB) 0 0 e.chunks).ok = true := by
    refine ((stageLoop_ok _ 0 0 e.chunks).mpr ⟨h.writes, ?_⟩).1
    rw [Nat.zero_add]
    exact h.fits
  exact (stageLoop_image [] 0 e.chunks hok).trans (by rw [List.nil_append]; rfl)

/-- The copy writes one piece behind the other. -/
theorem copyLoop_image {n m : ℕ} (spiffs : Partition n) (www : Partition m) (copyIo : ℕ → CopyIo) (offset : ℕ)
    (hoffset : offset ≤ n) (hwww : www = image ((List.ofFn spiffs).take offset)) :
    (∃ k, (copyLoop spiffs www copyIo offset).2 = image ((List.ofFn spiffs).take k)) ∧
      ((copyLoop spiffs www copyIo offset).1 = true →
        (copyLoop spiffs www copyIo offset).2 = image (List.ofFn spiffs)) := by
  have hlength (offset : ℕ) (h : offset ≤ n) : ((List.ofFn spiffs).take offset).length = offset := by
    rw [List.length_take, List.length_ofFn, Nat.min_eq_left h]
  fun_induction copyLoop spiffs www copyIo offset with
  | case1 www offset hlt hread => exact ⟨⟨offset, hwww⟩, fun h => absurd h Bool.false_ne_true⟩
  | case2 www offset hlt readSize hread w hwrite =>
      have hpart := (write_image (n := m) ((List.ofFn spiffs).take offset)
        (spiffs.slice offset readSize) (copyIo offset).write).1
      rw [hlength offset hoffset, ← hwww] at hpart
      obtain ⟨k, hk⟩ := hpart
      refine ⟨⟨offset + min k readSize, ?_⟩, fun h => absurd h Bool.false_ne_true⟩
      show w.2 = _
      rw [hk, slice, List.take_take, ← List.take_add]
  | case3 www offset hlt readSize hread w hwrite ih =>
      have hsize : offset + readSize = min (offset + 1024) n := min_step hlt rfl
      have hwhole := (write_image (n := m) ((List.ofFn spiffs).take offset)
        (spiffs.slice offset readSize) (copyIo offset).write).2
      rw [hlength offset hoffset, ← hwww] at hwhole
      refine ih (hsize ▸ Nat.min_le_right _ _) ?_
      rw [hwhole (by simpa using hwrite), slice, ← List.take_add]
  | case4 www offset hge =>
      have hall : (List.ofFn spiffs).take offset = List.ofFn spiffs :=
        List.take_of_length_le (by rw [List.length_ofFn]; exact Nat.le_of_not_lt hge)
      rw [hall] at hwww
      exact ⟨⟨offset, by rw [hall]; exact hwww⟩, fun _ => hwww⟩

/-- **The copy of a file** over the live partition: a front part of what was there is erased, or all of it and a
leading part of the file stands there, the whole file when the copy goes through. -/
theorem copyFile_image (file : List UInt8) (hfits : file.length ≤ L.spiffsB) (www : Partition L.wwwB)
    (e : FileEnv) :
    ((∃ j, (copyFileToWwwPartition (image file : Partition L.spiffsB) www e).2 = www.wiped j) ∨
        ∃ k, (copyFileToWwwPartition (image file : Partition L.spiffsB) www e).2 = image (file.take k)) ∧
      ((copyFileToWwwPartition (image file : Partition L.spiffsB) www e).1 = true →
        (copyFileToWwwPartition (image file : Partition L.spiffsB) www e).2 = image file) := by
  unfold copyFileToWwwPartition
  by_cases hfound : e.bothFound = false
  · rw [if_pos hfound]
    exact ⟨Or.inl ⟨0, rfl⟩, fun h => absurd h Bool.false_ne_true⟩
  rw [if_neg hfound]
  dsimp only
  by_cases herase : (www.eraseAll e.eraseWww).1 = false
  · rw [if_pos herase]
    exact ⟨Or.inl (eraseAll_wiped www e.eraseWww), fun h => absurd h Bool.false_ne_true⟩
  rw [if_neg herase]
  rw [Bool.not_eq_false, eraseAll_fst] at herase
  rw [herase, eraseAll_ok]
  obtain ⟨⟨k, hpart⟩, hwhole⟩ := copyLoop_image (image file : Partition L.spiffsB) (blank : Partition L.wwwB)
    e.copyIo 0 (Nat.zero_le _) (by rw [List.take_zero, image_nil])
  refine ⟨Or.inr ⟨k, hpart.trans (image_take_image file hfits k)⟩, fun h => (hwhole h).trans ?_⟩
  have hall := image_take_image (m := L.wwwB) file hfits L.spiffsB
  rw [List.take_of_length_le (by rw [List.length_ofFn]), List.take_of_length_le hfits] at hall
  exact hall

/-! ### What the live partition can hold -/

/-- What was there, or a leading part of one of the files on an erased partition, of either of them a front part
erased. -/
def WebHolds {n : ℕ} (files : List UInt8 → Prop) (www p : Partition n) : Prop :=
  ∃ base j, (base = www ∨ ∃ file k, files file ∧ base = image (file.take k)) ∧ p = base.wiped j

section

variable {n : ℕ} {files files' : List UInt8 → Prop} {www p q : Partition n}

theorem webHolds_self : WebHolds files www www := ⟨www, 0, Or.inl rfl, rfl⟩

theorem webHolds_image {file : List UInt8} (hfile : files file) (k : ℕ) :
    WebHolds files www (image (file.take k)) :=
  ⟨image (file.take k), 0, Or.inr ⟨file, k, hfile, rfl⟩, rfl⟩

theorem WebHolds.mono (h : WebHolds files www p) (hfiles : ∀ file, files file → files' file) :
    WebHolds files' www p := by
  obtain ⟨base, j, hbase, hp⟩ := h
  refine ⟨base, j, hbase.imp_right ?_, hp⟩
  intro hfile
  obtain ⟨file, k, hmem, heq⟩ := hfile
  exact ⟨file, k, hfiles file hmem, heq⟩

/-- What comes of such contents is such contents. -/
theorem WebHolds.trans (h : WebHolds files www p) (hnext : WebHolds files p q) : WebHolds files www q := by
  obtain ⟨base, j, hbase, hp⟩ := h
  obtain ⟨base', j', hbase', hq⟩ := hnext
  rcases hbase' with rfl | hfile
  · exact ⟨base, max j j', hbase, by rw [hq, hp, wiped_wiped]⟩
  · exact ⟨base', j', Or.inr hfile, hq⟩

end

/-! ### One update -/

/-- A `www.bin` of the manifest that arrives whole. -/
def WholeWeb (L : Layout) (items : List ManifestItem) (file : List UInt8) : Prop :=
  ∃ url e, .url url e ∈ items ∧ isWWWBinFile url ∧ StagedOk L e ∧ file = e.content

/-- The last `www.bin` of a manifest. -/
def lastWeb : List ManifestItem → Option (List UInt8)
  | [] => none
  | .other :: rest => lastWeb rest
  | .url url e :: rest => lastWeb rest <|> if isWWWBinFile url then some e.content else none

/-- A file leaves the live partition alone, or is a whole `www.bin` that is copied there. -/
theorem applyFile_web (d : Device L) (url : CStr) (e : FileEnv) :
    WebHolds (WholeWeb L [.url url e]) d.www (applyFile d url e).2.www ∧
      ((applyFile d url e).1 = true →
        (applyFile d url e).2.www = if isWWWBinFile url then image e.content else d.www) := by
  rcases applyFile_cases d url e with
    ⟨hwww, hstaged, heq⟩ | ⟨hwww, -, slot, -, heq⟩ | ⟨-, -, spiffs, total, heq⟩
  · have hfits : e.content.length ≤ L.spiffsB := e.length_content.le.trans hstaged.fits
    have hcopy := copyFile_image e.content hfits d.www e
    rw [← staged_image hstaged] at hcopy
    rw [heq, if_pos hwww]
    refine ⟨?_, hcopy.2⟩
    rcases hcopy.1 with ⟨j, hwiped⟩ | ⟨k, hpart⟩
    · exact ⟨d.www, j, Or.inl rfl, hwiped⟩
    · show WebHolds _ _ (copyFileToWwwPartition (staged L e) d.www e).2
      rw [hpart]
      exact webHolds_image ⟨url, e, List.mem_cons_self, hwww, hstaged, rfl⟩ k
  · rw [heq, if_neg hwww]
    exact ⟨webHolds_self, fun _ => rfl⟩
  · rw [heq]
    exact ⟨webHolds_self, fun h => absurd h Bool.false_ne_true⟩

/-- **One update** leaves the bytes of one web image, wherever it breaks off. -/
theorem applyFiles_webHolds (d : Device L) (items : List ManifestItem) :
    WebHolds (WholeWeb L items) d.www (applyFiles d items).2.www := by
  induction items generalizing d with
  | nil => exact webHolds_self
  | cons item rest ih =>
      have hrest (d : Device L) : WebHolds (WholeWeb L (item :: rest)) d.www (applyFiles d rest).2.www := by
        refine (ih d).mono fun file hfile => ?_
        obtain ⟨url, e, hmem, hwhole⟩ := hfile
        exact ⟨url, e, List.mem_cons_of_mem _ hmem, hwhole⟩
      cases item with
      | other => exact hrest d
      | url url e =>
          have hfirst : WebHolds (WholeWeb L (.url url e :: rest)) d.www (applyFile d url e).2.www := by
            refine (applyFile_web d url e).1.mono fun file hfile => ?_
            obtain ⟨url', e', hmem, hwhole⟩ := hfile
            cases List.mem_singleton.mp hmem
            exact ⟨url, e, List.mem_cons_self, hwhole⟩
          rw [applyFiles]
          split
          · exact hfirst.trans (hrest _)
          · exact hfirst

/-- **An update that goes through** leaves its last `www.bin`, byte for byte. -/
theorem applyFiles_lastWeb (d : Device L) (items : List ManifestItem) (h : (applyFiles d items).1 = true) :
    (applyFiles d items).2.www = (lastWeb items).elim d.www image := by
  induction items generalizing d with
  | nil => rfl
  | cons item rest ih =>
      cases item with
      | other => exact ih d h
      | url url e =>
          rw [applyFiles] at h ⊢
          by_cases hok : (applyFile d url e).1 = true
          · rw [if_pos hok] at h ⊢
            rw [ih _ h, (applyFile_web d url e).2 hok, lastWeb]
            cases lastWeb rest with
            | some file => rfl
            | none =>
                by_cases hwww : isWWWBinFile url
                · simp [hwww]
                · simp [hwww]
          · rw [if_neg hok] at h
            exact absurd h Bool.false_ne_true

/-! ### Any number of updates -/

/-- The device after some updates. -/
def updates (d : Device L) (manifests : List (List ManifestItem)) : Device L :=
  manifests.foldl (fun d items => (updateFirmware d items).2) d

/-- A `www.bin` of one of the manifests that arrives whole. -/
def PublishedWeb (L : Layout) (manifests : List (List ManifestItem)) (file : List UInt8) : Prop :=
  ∃ items ∈ manifests, WholeWeb L items file

theorem updates_webHolds (d : Device L) (manifests : List (List ManifestItem)) :
    WebHolds (PublishedWeb L manifests) d.www (updates d manifests).www := by
  induction manifests generalizing d with
  | nil => exact webHolds_self
  | cons items rest ih =>
      have hfirst : WebHolds (WholeWeb L items) d.www (updateFirmware d items).2.www :=
        applyFiles_webHolds { d with totalFileWrite := 0 } items
      refine (hfirst.mono fun file hfile => ⟨items, List.mem_cons_self, hfile⟩).trans ?_
      refine (ih (updateFirmware d items).2).mono fun file hfile => ?_
      obtain ⟨items', hmem, hwhole⟩ := hfile
      exact ⟨items', List.mem_cons_of_mem _ hmem, hwhole⟩

/-- **The live web partition.**  After any number of updates, each of which may break off at any byte, it holds
what was there at first, or a leading part of one `www.bin` that arrived whole, with a front part erased; and an
update that restarts the device leaves the last `www.bin` of its manifest there, byte for byte. -/
theorem live_web_image (L : Layout) (d : Device L) (manifests : List (List ManifestItem))
    (items : List ManifestItem) :
    WebHolds (PublishedWeb L manifests) d.www (updates d manifests).www ∧
      ((updateFirmware (updates d manifests) items).1 = .restart →
        (updateFirmware (updates d manifests) items).2.www =
          (lastWeb items).elim (updates d manifests).www image) := by
  refine ⟨updates_webHolds d manifests, fun hrestart => ?_⟩
  refine applyFiles_lastWeb { updates d manifests with totalFileWrite := 0 } items ?_
  unfold updateFirmware at hrestart
  dsimp only at hrestart
  by_contra hfails
  rw [if_neg hfails] at hrestart
  cases hrestart

/-- An app image and a web file, after an update whose copy broke off after one byte. -/
theorem live_web_image_pair :
    (updateFirmware (updates factoryDevice [[.url wwwBin { goodEnv with copyIo := fun _ => ⟨true, .fails 0⟩ }]])
        [.url appBin goodEnv, .url wwwBin goodEnv]).2.www = image [0xE9] := by
  have hrestart : (updateFirmware (updates factoryDevice
      [[.url wwwBin { goodEnv with copyIo := fun _ => ⟨true, .fails 0⟩ }]])
      [.url appBin goodEnv, .url wwwBin goodEnv]).1 = .restart := by
    rw [updateFirmware_restart, allOk_iff (allComplete_pair appBin wwwBin), appFirst_url]
    intro url e hmem
    cases List.mem_singleton.mp hmem
    decide
  have hlast : lastWeb [.url appBin goodEnv, .url wwwBin goodEnv] = some [0xE9] := by decide
  rw [(live_web_image partitionsCsv factoryDevice
    [[.url wwwBin { goodEnv with copyIo := fun _ => ⟨true, .fails 0⟩ }]]
    [.url appBin goodEnv, .url wwwBin goodEnv]).2 hrestart, hlast]
  rfl

end RtkdataFw.Update
