import Mathlib.Algebra.Ring.Nat
import Mathlib.Data.Int.Basic
import RtkdataFw.Lib.CStr
import RtkdataFw.Lib.Flash

/-!
# Installing the files of a manifest

`updateFirmware` works through the URLs of a manifest: an app image is written to the next OTA slot, a
`www.bin` to the staging partition and from there over the live one.  Everything outside answers through
`FileEnv`: heap, HTTP, the chunks of the download, and how each flash operation turns out.

* `otaUpdateFirmware_cases`, `updateSpiffs_cases` — what one file comes to, for an app image and a `www.bin`;
* `applyFiles_fst` — the update goes through exactly when every file does;
* `Merged` and `applyFile_merged` — a file that took effect makes two different devices agree on the boot
  slot or on the web partition, and no later file undoes that;
* `half_applied` — an update that fails has switched the boot slot;
* `failure_harmless_iff` — when a failed update changes nothing.
-/

namespace RtkdataFw.Update

open RtkdataFw.Lib

def minOtaHeap : ℕ := 110 * 1024

inductive AppSlot where
  | factory
  | ota0
  | ota1
  deriving DecidableEq, Repr

/-- The sizes of the `www` and the `spiffs` partition. -/
structure Layout where
  wwwB : ℕ
  spiffsB : ℕ
  wwwPos : 0 < wwwB

/-- `partitions.csv`. -/
def partitionsCsv : Layout := ⟨2 * 1024 * 1024, 2 * 1024 * 1024, by decide⟩

structure Device (L : Layout) where
  /-- The slot selected for the next boot. -/
  boot : AppSlot
  www : Partition L.wwwB
  spiffs : Partition L.spiffsB
  /-- `total_file_write`. -/
  totalFileWrite : ℕ

/-- What one read of the download returns. -/
structure Chunk where
  data : List UInt8
  pos : 0 < data.length
  le : data.length ≤ 1024

structure CopyIo where
  read : Bool
  write : FlashIo

/-- How everything outside turns out for one file. -/
structure FileEnv where
  heap : ℕ
  initOk : Bool
  openOk : Bool
  status : ℤ
  contentLength : ℤ
  /-- The chunks read, with the outcome of the write of each. -/
  chunks : List (Chunk × FlashIo)
  /-- The last read reports an error, not the end. -/
  readFails : Bool
  /-- `esp_ota_get_next_update_partition`. -/
  slot : Option AppSlot
  beginOk : Bool
  endOk : Bool
  setBootOk : Bool
  spiffsFound : Bool
  eraseSpiffs : FlashIo
  bothFound : Bool
  eraseWww : FlashIo
  /-- The copy's read and write at an offset. -/
  copyIo : ℕ → CopyIo

variable {L : Layout}

/-! ### An app image -/

/-- The download loop into the OTA slot: whether every write succeeded, and `total_file_write`. -/
def otaLoop (total : ℕ) : List (Chunk × FlashIo) → Bool × ℕ
  | [] => (true, total)
  | (c, io) :: rest => if io = .ok then otaLoop (total + c.data.length) rest else (false, total)

def otaUpdateFirmware (d : Device L) (e : FileEnv) : Bool × Device L :=
  if e.heap < minOtaHeap then (false, d)
  else if e.initOk = false then (false, d)
  else if e.openOk = false then (false, d)
  else match e.slot with
  | none => (false, d)
  | some slot =>
      if e.status ≠ 200 then (false, d)
      else if e.contentLength ≤ 0 then (false, d)
      else if e.beginOk = false then (false, d)
      else
        let r := otaLoop d.totalFileWrite e.chunks
        let d := { d with totalFileWrite := r.2 }
        if e.readFails = true ∨ r.1 = false then (false, d)
        else if (r.2 : ℤ) ≠ e.contentLength then (false, d)
        else if e.endOk = false then (false, d)
        else if e.setBootOk = false then (false, d)
        else (true, { d with boot := slot })

/-! ### The web partition -/

def copyLoop {n m : ℕ} (spiffs : Partition n) (www : Partition m) (copyIo : ℕ → CopyIo) (offset : ℕ) :
    Bool × Partition m :=
  if offset < n then
    let readSize := if offset + 1024 > n then n - offset else 1024
    if (copyIo offset).read = false then (false, www)
    else
      let w := www.write offset (spiffs.slice offset readSize) (copyIo offset).write
      if w.1 = false then (false, w.2) else copyLoop spiffs w.2 copyIo (offset + readSize)
  else (true, www)
termination_by n - offset
decreasing_by split <;> omega

def copyFileToWwwPartition {n m : ℕ} (spiffs : Partition n) (www : Partition m) (e : FileEnv) :
    Bool × Partition m :=
  if e.bothFound = false then (false, www)
  else
    let r := www.eraseAll e.eraseWww
    if r.1 = false then (false, r.2) else copyLoop spiffs r.2 e.copyIo 0

/-- Where the download loop into the staging partition ends. -/
structure Staging (n : ℕ) where
  ok : Bool
  offset : ℕ
  total : ℕ
  spiffs : Partition n

def stageLoop {n : ℕ} (spiffs : Partition n) (offset total : ℕ) : List (Chunk × FlashIo) → Staging n
  | [] => ⟨true, offset, total, spiffs⟩
  | (c, io) :: rest =>
      let w := spiffs.write offset c.data io
      if w.1 = true then stageLoop w.2 (offset + c.data.length) (total + c.data.length) rest
      else ⟨false, offset, total, w.2⟩

def updateSpiffs (d : Device L) (e : FileEnv) : Bool × Device L :=
  if e.heap < minOtaHeap then (false, d)
  else if e.initOk = false then (false, d)
  else if e.openOk = false then (false, d)
  else if e.status ≠ 200 then (false, d)
  else if e.contentLength ≤ 0 then (false, d)
  else if e.spiffsFound = false then (false, d)
  else
    let r := d.spiffs.eraseAll e.eraseSpiffs
    if r.1 = false then (false, { d with spiffs := r.2 })
    else
      let s := stageLoop r.2 0 d.totalFileWrite e.chunks
      let d := { d with spiffs := s.spiffs, totalFileWrite := s.total }
      if s.ok = false ∨ e.readFails = true then (false, d)
      else if (s.offset : ℤ) ≠ e.contentLength then (false, d)
      else
        let c := copyFileToWwwPartition s.spiffs d.www e
        (c.1, { d with www := c.2 })

/-! ### The manifest -/

/-- `www.bin`. -/
def wwwBin : CStr := ⟨[0x77, 0x77, 0x77, 0x2e, 0x62, 0x69, 0x6e], by decide⟩

def isWWWBinFile (url : CStr) : Prop := url.Contains wwwBin

instance (url : CStr) : Decidable (isWWWBinFile url) := inferInstanceAs (Decidable (url.Contains _))

/-- An item of the list: a string with what happens to its file, or JSON of another type. -/
inductive ManifestItem where
  | url (url : CStr) (e : FileEnv)
  | other

def applyFile (d : Device L) (url : CStr) (e : FileEnv) : Bool × Device L :=
  if isWWWBinFile url then updateSpiffs d e else otaUpdateFirmware d e

def applyFiles (d : Device L) : List ManifestItem → Bool × Device L
  | [] => (true, d)
  | .other :: rest => applyFiles d rest
  | .url url e :: rest =>
      let r := applyFile d url e
      if r.1 then applyFiles r.2 rest else (false, r.2)

inductive UpdateResult where
  /-- `esp_restart` into what is selected now. -/
  | restart
  /-- `ESP_FAIL`: staying on the current firmware. -/
  | fail
  deriving DecidableEq, Repr

/-- `calculate_total_file_size` resets `total_file_write`; then the files. -/
def updateFirmware (d : Device L) (items : List ManifestItem) : UpdateResult × Device L :=
  let r := applyFiles { d with totalFileWrite := 0 } items
  (if r.1 then .restart else .fail, r.2)

/-! ### When a file goes through -/

def FileEnv.bytes (e : FileEnv) : ℕ := (e.chunks.map fun c => c.1.data.length).sum

/-- The connection is there and announces a file. -/
structure FetchOk (e : FileEnv) : Prop where
  heap : minOtaHeap ≤ e.heap
  init : e.initOk = true
  opens : e.openOk = true
  status : e.status = 200
  length : 0 < e.contentLength

/-- An app image that goes through, when `written` bytes were counted before it. -/
structure AppOk (e : FileEnv) (written : ℕ) : Prop where
  fetch : FetchOk e
  slot : e.slot ≠ none
  begins : e.beginOk = true
  writes : ∀ c ∈ e.chunks, c.2 = .ok
  reads : e.readFails = false
  whole : ((written + e.bytes : ℕ) : ℤ) = e.contentLength
  ends : e.endOk = true
  sets : e.setBootOk = true

/-- A `www.bin` that is staged whole. -/
structure StagedOk (L : Layout) (e : FileEnv) : Prop where
  fetch : FetchOk e
  found : e.spiffsFound = true
  erases : e.eraseSpiffs = .ok
  writes : ∀ c ∈ e.chunks, c.2 = .ok
  fits : e.bytes ≤ L.spiffsB
  reads : e.readFails = false
  whole : (e.bytes : ℤ) = e.contentLength

/-- The copy has begun to erase the live partition. -/
def CopyTouches (e : FileEnv) : Prop := e.bothFound = true ∧ e.eraseWww.Touches

/-- A copy that goes through. -/
structure CopyOk (L : Layout) (e : FileEnv) : Prop where
  found : e.bothFound = true
  erases : e.eraseWww = .ok
  copies : ∀ offset, 1024 ∣ offset → offset < L.spiffsB →
    (e.copyIo offset).read = true ∧ (e.copyIo offset).write = .ok ∧
      min (offset + 1024) L.spiffsB ≤ L.wwwB

/-- A file that goes through. -/
def FileOk (L : Layout) (url : CStr) (e : FileEnv) (written : ℕ) : Prop :=
  if isWWWBinFile url then StagedOk L e ∧ CopyOk L e else AppOk e written

/-- Every file goes through. -/
def AllOk (L : Layout) (written : ℕ) : List ManifestItem → Prop
  | [] => True
  | .other :: rest => AllOk L written rest
  | .url url e :: rest => FileOk L url e written ∧ AllOk L (written + e.bytes) rest

/-! ### One file -/

theorem otaLoop_fst (total : ℕ) (chunks : List (Chunk × FlashIo)) :
    (otaLoop total chunks).1 = true ↔ ∀ c ∈ chunks, c.2 = .ok := by
  induction chunks generalizing total with
  | nil => simp [otaLoop]
  | cons c rest ih =>
      obtain ⟨c, io⟩ := c
      by_cases hio : io = .ok
      · rw [otaLoop, if_pos hio, ih, List.forall_mem_cons, and_iff_right hio]
      · rw [otaLoop, if_neg hio, List.forall_mem_cons]
        exact iff_of_false (by simp) fun h => hio h.1

theorem otaLoop_snd {total : ℕ} {chunks : List (Chunk × FlashIo)} (h : ∀ c ∈ chunks, c.2 = .ok) :
    (otaLoop total chunks).2 = total + (chunks.map fun c => c.1.data.length).sum := by
  induction chunks generalizing total with
  | nil => rfl
  | cons c rest ih =>
      obtain ⟨c, io⟩ := c
      rw [List.forall_mem_cons] at h
      have hio : io = .ok := h.1
      rw [otaLoop, if_pos hio, ih h.2, List.map_cons, List.sum_cons, Nat.add_assoc]

theorem stageLoop_ok {n : ℕ} (spiffs : Partition n) (offset total : ℕ)
    (chunks : List (Chunk × FlashIo)) :
    (stageLoop spiffs offset total chunks).ok = true ∧ offset ≤ n ↔
      (∀ c ∈ chunks, c.2 = .ok) ∧ offset + (chunks.map fun c => c.1.data.length).sum ≤ n := by
  induction chunks generalizing spiffs offset total with
  | nil => simp [stageLoop]
  | cons c rest ih =>
      obtain ⟨c, io⟩ := c
      rw [List.forall_mem_cons, List.map_cons, List.sum_cons, ← Nat.add_assoc, and_assoc]
      by_cases hwrite : (spiffs.write offset c.data io).1 = true
      · obtain ⟨hfits, hio⟩ := Partition.write_fst.mp hwrite
        have hstep : (stageLoop spiffs offset total ((c, io) :: rest)) =
            stageLoop (spiffs.write offset c.data io).2 (offset + c.data.length)
              (total + c.data.length) rest := if_pos hwrite
        rw [hstep, ← ih (spiffs.write offset c.data io).2 _ (total + c.data.length)]
        constructor
        · exact fun h => ⟨hio, h.1, hfits⟩
        · exact fun h => ⟨h.2.1, (Nat.le_add_right _ _).trans hfits⟩
      · have hstep : (stageLoop spiffs offset total ((c, io) :: rest)).ok = false := by
          rw [stageLoop, if_neg hwrite]
        rw [hstep]
        refine iff_of_false (by simp) fun h => hwrite (Partition.write_fst.mpr ⟨?_, h.1⟩)
        exact (Nat.le_add_right _ _).trans h.2.2

theorem stageLoop_counts {n : ℕ} {spiffs : Partition n} {offset total : ℕ}
    {chunks : List (Chunk × FlashIo)} (h : (stageLoop spiffs offset total chunks).ok = true) :
    (stageLoop spiffs offset total chunks).offset =
        offset + (chunks.map fun c => c.1.data.length).sum ∧
      (stageLoop spiffs offset total chunks).total =
        total + (chunks.map fun c => c.1.data.length).sum := by
  induction chunks generalizing spiffs offset total with
  | nil => exact ⟨rfl, rfl⟩
  | cons c rest ih =>
      obtain ⟨c, io⟩ := c
      rw [List.map_cons, List.sum_cons, ← Nat.add_assoc, ← Nat.add_assoc]
      by_cases hwrite : (spiffs.write offset c.data io).1 = true
      · rw [stageLoop, if_pos hwrite] at h ⊢
        exact ih h
      · rw [stageLoop, if_neg hwrite] at h
        exact absurd h (by simp)

/-- The staged contents do not depend on the counter. -/
theorem stageLoop_spiffs {n : ℕ} (spiffs : Partition n) (offset total total' : ℕ)
    (chunks : List (Chunk × FlashIo)) :
    (stageLoop spiffs offset total chunks).spiffs = (stageLoop spiffs offset total' chunks).spiffs := by
  induction chunks generalizing spiffs offset total total' with
  | nil => rfl
  | cons c rest ih =>
      obtain ⟨c, io⟩ := c
      by_cases hwrite : (spiffs.write offset c.data io).1 = true
      · rw [stageLoop, stageLoop, if_pos hwrite, if_pos hwrite]
        exact ih _ _ _ _
      · rw [stageLoop, stageLoop, if_neg hwrite, if_neg hwrite]

/-- **An app image.**  It selects its slot, or changes nothing but `total_file_write`. -/
theorem otaUpdateFirmware_cases (d : Device L) (e : FileEnv) :
    (AppOk e d.totalFileWrite ∧ ∃ slot, e.slot = some slot ∧
      otaUpdateFirmware d e =
        (true, { d with boot := slot, totalFileWrite := d.totalFileWrite + e.bytes })) ∨
    (¬ AppOk e d.totalFileWrite ∧
      ∃ total, otaUpdateFirmware d e = (false, { d with totalFileWrite := total })) := by
  unfold otaUpdateFirmware
  by_cases hheap : e.heap < minOtaHeap
  · rw [if_pos hheap]
    exact .inr ⟨fun h => absurd h.fetch.heap (Nat.not_le.mpr hheap), _, rfl⟩
  by_cases hinit : e.initOk = false
  · rw [if_neg hheap, if_pos hinit]
    exact .inr ⟨fun h => by simp [h.fetch.init] at hinit, _, rfl⟩
  by_cases hopen : e.openOk = false
  · rw [if_neg hheap, if_neg hinit, if_pos hopen]
    exact .inr ⟨fun h => by simp [h.fetch.opens] at hopen, _, rfl⟩
  rw [if_neg hheap, if_neg hinit, if_neg hopen]
  cases hslot : e.slot with
  | none => exact .inr ⟨fun h => h.slot hslot, _, rfl⟩
  | some slot =>
      dsimp only
      by_cases hstatus : e.status ≠ 200
      · rw [if_pos hstatus]
        exact .inr ⟨fun h => hstatus h.fetch.status, _, rfl⟩
      by_cases hlength : e.contentLength ≤ 0
      · rw [if_neg hstatus, if_pos hlength]
        exact .inr ⟨fun h => absurd h.fetch.length (Int.not_lt.mpr hlength), _, rfl⟩
      by_cases hbegin : e.beginOk = false
      · rw [if_neg hstatus, if_neg hlength, if_pos hbegin]
        exact .inr ⟨fun h => by simp [h.begins] at hbegin, _, rfl⟩
      rw [if_neg hstatus, if_neg hlength, if_neg hbegin]
      by_cases hbreak : e.readFails = true ∨ (otaLoop d.totalFileWrite e.chunks).1 = false
      · rw [if_pos hbreak]
        refine .inr ⟨?_, _, rfl⟩
        intro h
        rw [h.reads, (otaLoop_fst d.totalFileWrite e.chunks).mpr h.writes] at hbreak
        simp at hbreak
      rw [if_neg hbreak]
      rw [not_or, Bool.not_eq_true, Bool.not_eq_false] at hbreak
      have hwrites := (otaLoop_fst d.totalFileWrite e.chunks).mp hbreak.2
      have htotal : (otaLoop d.totalFileWrite e.chunks).2 = d.totalFileWrite + e.bytes :=
        otaLoop_snd hwrites
      rw [htotal]
      by_cases hshort : ((d.totalFileWrite + e.bytes : ℕ) : ℤ) ≠ e.contentLength
      · rw [if_pos hshort]
        exact .inr ⟨fun h => hshort h.whole, _, rfl⟩
      by_cases hend : e.endOk = false
      · rw [if_neg hshort, if_pos hend]
        exact .inr ⟨fun h => by simp [h.ends] at hend, _, rfl⟩
      by_cases hset : e.setBootOk = false
      · rw [if_neg hshort, if_neg hend, if_pos hset]
        exact .inr ⟨fun h => by simp [h.sets] at hset, _, rfl⟩
      rw [if_neg hshort, if_neg hend, if_neg hset]
      refine .inl ⟨?_, slot, rfl, rfl⟩
      exact
        { fetch := ⟨Nat.not_lt.mp hheap, by simpa using hinit, by simpa using hopen,
            not_not.mp hstatus, Int.not_le.mp hlength⟩
          slot := by simp [hslot]
          begins := by simpa using hbegin
          writes := hwrites
          reads := hbreak.1
          whole := not_not.mp hshort
          ends := by simpa using hend
          sets := by simpa using hset }

/-- The staging partition after a `www.bin` that was staged whole. -/
def staged (L : Layout) (e : FileEnv) : Partition L.spiffsB :=
  (stageLoop Partition.blank 0 0 e.chunks).spiffs

/-- **A `www.bin`.**  It is staged whole and the copy decides, or the live partition is not touched. -/
theorem updateSpiffs_cases (d : Device L) (e : FileEnv) :
    (StagedOk L e ∧ updateSpiffs d e =
      ((copyFileToWwwPartition (staged L e) d.www e).1,
        { d with
          www := (copyFileToWwwPartition (staged L e) d.www e).2
          spiffs := staged L e
          totalFileWrite := d.totalFileWrite + e.bytes })) ∨
    (¬ StagedOk L e ∧ ∃ spiffs total,
      updateSpiffs d e = (false, { d with spiffs := spiffs, totalFileWrite := total })) := by
  unfold updateSpiffs
  by_cases hheap : e.heap < minOtaHeap
  · rw [if_pos hheap]
    exact .inr ⟨fun h => absurd h.fetch.heap (Nat.not_le.mpr hheap), _, _, rfl⟩
  by_cases hinit : e.initOk = false
  · rw [if_neg hheap, if_pos hinit]
    exact .inr ⟨fun h => by simp [h.fetch.init] at hinit, _, _, rfl⟩
  by_cases hopen : e.openOk = false
  · rw [if_neg hheap, if_neg hinit, if_pos hopen]
    exact .inr ⟨fun h => by simp [h.fetch.opens] at hopen, _, _, rfl⟩
  rw [if_neg hheap, if_neg hinit, if_neg hopen]
  by_cases hstatus : e.status ≠ 200
  · rw [if_pos hstatus]
    exact .inr ⟨fun h => hstatus h.fetch.status, _, _, rfl⟩
  by_cases hlength : e.contentLength ≤ 0
  · rw [if_neg hstatus, if_pos hlength]
    exact .inr ⟨fun h => absurd h.fetch.length (Int.not_lt.mpr hlength), _, _, rfl⟩
  by_cases hfound : e.spiffsFound = false
  · rw [if_neg hstatus, if_neg hlength, if_pos hfound]
    exact .inr ⟨fun h => by simp [h.found] at hfound, _, _, rfl⟩
  rw [if_neg hstatus, if_neg hlength, if_neg hfound]
  dsimp only
  by_cases herase : (d.spiffs.eraseAll e.eraseSpiffs).1 = false
  · rw [if_pos herase]
    refine .inr ⟨?_, _, _, rfl⟩
    intro h
    rw [Partition.eraseAll_fst.mpr h.erases] at herase
    cases herase
  rw [if_neg herase]
  rw [Bool.not_eq_false, Partition.eraseAll_fst] at herase
  rw [herase, Partition.eraseAll_ok]
  have hstage := stageLoop_ok (Partition.blank (n := L.spiffsB)) 0 d.totalFileWrite e.chunks
  rw [and_iff_left (Nat.zero_le _), Nat.zero_add] at hstage
  by_cases hbreak : (stageLoop (Partition.blank (n := L.spiffsB)) 0 d.totalFileWrite e.chunks).ok = false ∨
      e.readFails = true
  · rw [if_pos hbreak]
    refine .inr ⟨?_, _, _, rfl⟩
    intro h
    rw [h.reads, hstage.mpr ⟨h.writes, h.fits⟩] at hbreak
    simp at hbreak
  rw [if_neg hbreak]
  rw [not_or, Bool.not_eq_false, Bool.not_eq_true] at hbreak
  obtain ⟨hwrites, hfits⟩ := hstage.mp hbreak.1
  have hcounts := stageLoop_counts hbreak.1
  rw [Nat.zero_add] at hcounts
  have hspiffs : (stageLoop Partition.blank 0 d.totalFileWrite e.chunks).spiffs = staged L e :=
    stageLoop_spiffs _ _ _ _ _
  rw [hcounts.1, hcounts.2, hspiffs]
  by_cases hshort : (e.bytes : ℤ) ≠ e.contentLength
  · exact .inr ⟨fun h => hshort h.whole, staged L e, d.totalFileWrite + e.bytes, if_pos hshort⟩
  refine .inl ⟨?_, ?_⟩
  · exact
      { fetch := ⟨Nat.not_lt.mp hheap, by simpa using hinit, by simpa using hopen, not_not.mp hstatus,
          Int.not_le.mp hlength⟩
        found := by simpa using hfound
        erases := herase
        writes := hwrites
        fits := hfits
        reads := hbreak.2
        whole := not_not.mp hshort }
  · exact if_neg hshort

/-! ### The copy over the live partition -/

/-- One step of the copy. -/
theorem copyWrite_fst {n m : ℕ} (spiffs : Partition n) (www : Partition m) (io : FlashIo)
    {offset readSize : ℕ} (hsize : offset + readSize = min (offset + 1024) n) :
    (www.write offset (spiffs.slice offset readSize) io).1 = true ↔
      io = .ok ∧ min (offset + 1024) n ≤ m := by
  have hlength : (spiffs.slice offset readSize).length = readSize :=
    Partition.length_slice (hsize ▸ Nat.min_le_right _ _)
  rw [Partition.write_fst, hlength, hsize, and_comm]

theorem min_step {offset n readSize : ℕ} (hlt : offset < n)
    (h : readSize = if offset + 1024 > n then n - offset else 1024) :
    offset + readSize = min (offset + 1024) n := by
  split at h <;> omega

/-- The offsets that the loop meets are multiples of its step, up to the end. -/
theorem copyLoop_fst {n m : ℕ} (spiffs : Partition n) (www : Partition m) (copyIo : ℕ → CopyIo)
    (offset : ℕ) (hoffset : 1024 ∣ offset ∨ n ≤ offset) :
    (copyLoop spiffs www copyIo offset).1 = true ↔
      ∀ o, 1024 ∣ o → offset ≤ o → o < n →
        (copyIo o).read = true ∧ (copyIo o).write = .ok ∧ min (o + 1024) n ≤ m := by
  fun_induction copyLoop spiffs www copyIo offset with
  | case1 www offset hlt hread =>
      apply iff_of_false (by simp)
      intro h
      have hstep := h offset (hoffset.resolve_right (Nat.not_le.mpr hlt)) (Nat.le_refl _) hlt
      rw [hread] at hstep
      exact absurd hstep.1 (by simp)
  | case2 www offset hlt readSize hread w hwrite =>
      apply iff_of_false (by simp)
      intro h
      have hstep := h offset (hoffset.resolve_right (Nat.not_le.mpr hlt)) (Nat.le_refl _) hlt
      have hok := (copyWrite_fst spiffs www (copyIo offset).write (min_step hlt rfl)).mpr hstep.2
      exact absurd hwrite (by rw [Bool.not_eq_false]; exact hok)
  | case3 www offset hlt readSize hread w hwrite =>
      rename_i ih
      have hsize : offset + readSize = min (offset + 1024) n := min_step hlt rfl
      have hdvd : 1024 ∣ offset := hoffset.resolve_right (Nat.not_le.mpr hlt)
      rw [Bool.not_eq_false] at hread hwrite
      have hok := (copyWrite_fst spiffs www (copyIo offset).write hsize).mp hwrite
      rw [ih (by omega)]
      constructor
      · intro h o ho hle hlt'
        by_cases heq : o = offset
        · rw [heq]
          exact ⟨hread, hok⟩
        · exact h o ho (by omega) hlt'
      · exact fun h o ho hle hlt' => h o ho (by omega) hlt'
  | case4 www offset hge =>
      exact iff_of_true rfl fun o _ hle hlt => absurd (hle.trans_lt hlt) hge

theorem copyFile_fst (spiffs : Partition L.spiffsB) (www : Partition L.wwwB) (e : FileEnv) :
    (copyFileToWwwPartition spiffs www e).1 = true ↔ CopyOk L e := by
  unfold copyFileToWwwPartition
  by_cases hfound : e.bothFound = false
  · rw [if_pos hfound]
    exact iff_of_false (by simp) fun h => by simp [h.found] at hfound
  rw [if_neg hfound]
  dsimp only
  by_cases herase : e.eraseWww = .ok
  · rw [if_neg (by simp [herase]), copyLoop_fst _ _ _ _ (.inl (Nat.dvd_zero _))]
    rw [Bool.not_eq_false] at hfound
    constructor
    · exact fun h => ⟨hfound, herase, fun o ho hlt => h o ho (Nat.zero_le _) hlt⟩
    · exact fun h o ho _ hlt => h.copies o ho hlt
  · have hfails : (www.eraseAll e.eraseWww).1 = false := by
      rw [← Bool.not_eq_true, Partition.eraseAll_fst]
      exact herase
    rw [if_pos hfails]
    exact iff_of_false (by simp) fun h => herase h.erases

/-- A copy that does not get to erase leaves the live partition alone. -/
theorem copyFile_untouched (spiffs : Partition L.spiffsB) (www : Partition L.wwwB) {e : FileEnv}
    (h : ¬ CopyTouches e) : copyFileToWwwPartition spiffs www e = (false, www) := by
  unfold copyFileToWwwPartition
  by_cases hfound : e.bothFound = false
  · rw [if_pos hfound]
  · have huntouched : ¬ e.eraseWww.Touches := fun ht => h ⟨by simpa using hfound, ht⟩
    rw [if_neg hfound, Partition.eraseAll_untouched www huntouched]
    rfl

/-- One that does leaves a first byte that owes nothing to what was there. -/
theorem copyFile_head (spiffs : Partition L.spiffsB) (www www' : Partition L.wwwB) {e : FileEnv}
    (h : CopyTouches e) :
    (copyFileToWwwPartition spiffs www e).2 ⟨0, L.wwwPos⟩ =
      (copyFileToWwwPartition spiffs www' e).2 ⟨0, L.wwwPos⟩ := by
  have hfound : ¬ e.bothFound = false := by simp [h.1]
  unfold copyFileToWwwPartition
  rw [if_neg hfound, if_neg hfound]
  cases herase : e.eraseWww with
  | ok => rfl
  | fails done =>
      have htouches : (FlashIo.fails done).Touches := herase ▸ h.2
      exact (www.eraseAll_head htouches L.wwwPos).trans (www'.eraseAll_head htouches L.wwwPos).symm

/-! ### Any file -/

/-- The file takes effect, whole or in part: it selects a slot, or begins to erase the live partition. -/
def TakesEffect (L : Layout) (url : CStr) (e : FileEnv) (written : ℕ) : Prop :=
  if isWWWBinFile url then StagedOk L e ∧ CopyTouches e else AppOk e written

/-- **What a file does.**  A staged `www.bin` leaves the live partition to the copy, a whole app image selects
its slot, and any other file fails without effect. -/
theorem applyFile_cases (d : Device L) (url : CStr) (e : FileEnv) :
    (isWWWBinFile url ∧ StagedOk L e ∧ applyFile d url e =
      ((copyFileToWwwPartition (staged L e) d.www e).1,
        { d with
          www := (copyFileToWwwPartition (staged L e) d.www e).2
          spiffs := staged L e
          totalFileWrite := d.totalFileWrite + e.bytes })) ∨
    (¬ isWWWBinFile url ∧ AppOk e d.totalFileWrite ∧ ∃ slot, e.slot = some slot ∧
      applyFile d url e =
        (true, { d with boot := slot, totalFileWrite := d.totalFileWrite + e.bytes })) ∨
    (¬ FileOk L url e d.totalFileWrite ∧ ¬ TakesEffect L url e d.totalFileWrite ∧
      ∃ spiffs total, applyFile d url e =
        (false, { d with spiffs := spiffs, totalFileWrite := total })) := by
  by_cases hwww : isWWWBinFile url
  · rw [applyFile, FileOk, TakesEffect, if_pos hwww, if_pos hwww, if_pos hwww]
    rcases updateSpiffs_cases d e with ⟨hstaged, heq⟩ | ⟨hnot, spiffs, total, heq⟩
    · exact .inl ⟨hwww, hstaged, heq⟩
    · exact .inr (.inr ⟨fun h => hnot h.1, fun h => hnot h.1, spiffs, total, heq⟩)
  · rw [applyFile, FileOk, TakesEffect, if_neg hwww, if_neg hwww, if_neg hwww]
    rcases otaUpdateFirmware_cases d e with ⟨hok, slot, hslot, heq⟩ | ⟨hnot, total, heq⟩
    · exact .inr (.inl ⟨hwww, hok, slot, hslot, heq⟩)
    · exact .inr (.inr ⟨hnot, hnot, d.spiffs, total, heq⟩)

/-- A file goes through when its parts do, and then its bytes are counted. -/
theorem applyFile_fst (d : Device L) (url : CStr) (e : FileEnv) :
    (applyFile d url e).1 = true ↔ FileOk L url e d.totalFileWrite := by
  rcases applyFile_cases d url e with
    ⟨hwww, hstaged, heq⟩ | ⟨hwww, hok, slot, -, heq⟩ | ⟨hnot, -, spiffs, total, heq⟩
  · rw [heq, FileOk, if_pos hwww, copyFile_fst, and_iff_right hstaged]
  · rw [heq, FileOk, if_neg hwww]
    exact iff_of_true rfl hok
  · rw [heq]
    exact iff_of_false Bool.false_ne_true hnot

theorem applyFile_total {d : Device L} {url : CStr} {e : FileEnv}
    (h : (applyFile d url e).1 = true) :
    (applyFile d url e).2.totalFileWrite = d.totalFileWrite + e.bytes := by
  rcases applyFile_cases d url e with
    ⟨-, -, heq⟩ | ⟨-, -, slot, -, heq⟩ | ⟨-, -, spiffs, total, heq⟩
  · rw [heq]
  · rw [heq]
  · rw [heq] at h
    cases h

/-- A file without effect fails and leaves the boot slot and the live partition alone. -/
theorem applyFile_quiet {d : Device L} {url : CStr} {e : FileEnv}
    (h : ¬ TakesEffect L url e d.totalFileWrite) :
    (applyFile d url e).1 = false ∧ (applyFile d url e).2.boot = d.boot ∧
      (applyFile d url e).2.www = d.www := by
  rcases applyFile_cases d url e with
    ⟨hwww, hstaged, heq⟩ | ⟨hwww, hok, -⟩ | ⟨-, -, spiffs, total, heq⟩
  · rw [TakesEffect, if_pos hwww] at h
    rw [heq, copyFile_untouched _ _ fun ht => h ⟨hstaged, ht⟩]
    exact ⟨rfl, rfl, rfl⟩
  · rw [TakesEffect, if_neg hwww] at h
    exact absurd hok h
  · rw [heq]
    exact ⟨rfl, rfl, rfl⟩

/-! ### Two devices under one update -/

/-- The devices agree on the boot slot or on the first byte of the live partition. -/
def Merged (d₁ d₂ : Device L) : Prop :=
  d₁.boot = d₂.boot ∨ d₁.www ⟨0, L.wwwPos⟩ = d₂.www ⟨0, L.wwwPos⟩

/-- **An effect merges.**  After a file that took effect two devices agree on what it set, whatever they
were before, and a later file keeps them so. -/
theorem applyFile_merged {d₁ d₂ : Device L} (htotal : d₁.totalFileWrite = d₂.totalFileWrite)
    (url : CStr) (e : FileEnv)
    (h : Merged d₁ d₂ ∨ TakesEffect L url e d₁.totalFileWrite) :
    Merged (applyFile d₁ url e).2 (applyFile d₂ url e).2 := by
  by_cases heffect : TakesEffect L url e d₁.totalFileWrite
  · rcases applyFile_cases d₁ url e with
      ⟨hwww, -, heq₁⟩ | ⟨hwww, -, slot₁, hslot₁, heq₁⟩ | ⟨-, hnot, -⟩
    · rw [TakesEffect, if_pos hwww] at heffect
      rcases applyFile_cases d₂ url e with ⟨-, -, heq₂⟩ | ⟨happ, -⟩ | ⟨-, hnot, -⟩
      · rw [heq₁, heq₂]
        exact .inr (copyFile_head _ _ _ heffect.2)
      · exact absurd hwww happ
      · rw [TakesEffect, if_pos hwww] at hnot
        exact absurd heffect hnot
    · rcases applyFile_cases d₂ url e with ⟨hbin, -⟩ | ⟨-, -, slot₂, hslot₂, heq₂⟩ | ⟨-, hnot, -⟩
      · exact absurd hbin hwww
      · rw [heq₁, heq₂]
        exact .inl (Option.some.inj (hslot₁.symm.trans hslot₂))
      · exact absurd (htotal ▸ heffect) hnot
    · exact absurd heffect hnot
  · have hmerged := h.resolve_right heffect
    obtain ⟨-, hboot₁, hwww₁⟩ := applyFile_quiet heffect
    obtain ⟨-, hboot₂, hwww₂⟩ := applyFile_quiet (htotal ▸ heffect)
    rw [Merged, hboot₁, hboot₂, hwww₁, hwww₂]
    exact hmerged

/-- The first URL of the list, with what happens to its file. -/
def firstUrl : List ManifestItem → Option (CStr × FileEnv)
  | [] => none
  | .other :: rest => firstUrl rest
  | .url url e :: _ => some (url, e)

/-- **An update merges** what its first file does when that takes effect. -/
theorem applyFiles_merged {d₁ d₂ : Device L} (htotal : d₁.totalFileWrite = d₂.totalFileWrite)
    {items : List ManifestItem}
    (h : Merged d₁ d₂ ∨ ∃ url e, firstUrl items = some (url, e) ∧
      TakesEffect L url e d₁.totalFileWrite) :
    Merged (applyFiles d₁ items).2 (applyFiles d₂ items).2 := by
  induction items generalizing d₁ d₂ with
  | nil =>
      rcases h with hmerged | ⟨url, e, hfirst, -⟩
      · exact hmerged
      · cases hfirst
  | cons item rest ih =>
      cases item with
      | other => exact ih htotal h
      | url url e =>
          have hnext : Merged (applyFile d₁ url e).2 (applyFile d₂ url e).2 := by
            refine applyFile_merged htotal url e (h.imp_right ?_)
            intro h
            obtain ⟨url', e', hfirst, heffect⟩ := h
            cases hfirst
            exact heffect
          have hflag : (applyFile d₁ url e).1 = true ↔ (applyFile d₂ url e).1 = true := by
            rw [applyFile_fst, applyFile_fst, htotal]
          rw [applyFiles, applyFiles]
          by_cases hok : (applyFile d₁ url e).1 = true
          · have hok₂ := hflag.mp hok
            rw [if_pos hok, if_pos hok₂]
            refine ih ?_ (.inl hnext)
            rw [applyFile_total hok, applyFile_total hok₂, htotal]
          · rw [if_neg hok, if_neg fun h₂ => hok (hflag.mpr h₂)]
            exact hnext

/-! ### A failed update -/

/-- **The update goes through** exactly when every file does. -/
theorem applyFiles_fst (d : Device L) (items : List ManifestItem) :
    (applyFiles d items).1 = true ↔ AllOk L d.totalFileWrite items := by
  induction items generalizing d with
  | nil => exact iff_of_true rfl trivial
  | cons item rest ih =>
      cases item with
      | other => exact ih d
      | url url e =>
          rw [applyFiles, AllOk, ← applyFile_fst]
          by_cases hok : (applyFile d url e).1 = true
          · rw [if_pos hok, ih, applyFile_total hok, and_iff_right hok]
          · rw [if_neg hok]
            exact iff_of_false (by simp) fun h => hok h.1

theorem updateFirmware_fail (d : Device L) (items : List ManifestItem) :
    (updateFirmware d items).1 = .fail ↔ ¬ AllOk L 0 items := by
  rw [← applyFiles_fst (L := L) { d with totalFileWrite := 0 } items]
  unfold updateFirmware
  dsimp only
  split
  · rename_i hok
    exact iff_of_false (by simp) fun h => h hok
  · rename_i hok
    exact iff_of_true rfl hok

/-- The whole update goes through, or its first file fails without effect. -/
def FailSafe (L : Layout) (items : List ManifestItem) : Prop :=
  AllOk L 0 items ∨ ∃ url e, firstUrl items = some (url, e) ∧ ¬ TakesEffect L url e 0

/-- Without effect of the first file nothing is changed. -/
theorem applyFiles_quiet {d : Device L} {items : List ManifestItem} {url : CStr} {e : FileEnv}
    (hfirst : firstUrl items = some (url, e)) (h : ¬ TakesEffect L url e d.totalFileWrite) :
    (applyFiles d items).2.boot = d.boot ∧ (applyFiles d items).2.www = d.www := by
  induction items with
  | nil => cases hfirst
  | cons item rest ih =>
      cases item with
      | other => exact ih hfirst
      | url url' e' =>
          cases hfirst
          obtain ⟨hfails, hsame⟩ := applyFile_quiet h
          rw [applyFiles, if_neg (by simp [hfails])]
          exact hsame

theorem allOk_of_no_url {items : List ManifestItem} (h : firstUrl items = none) (written : ℕ) :
    AllOk L written items := by
  induction items with
  | nil => trivial
  | cons item rest ih =>
      cases item with
      | other => exact ih h
      | url url e => cases h

/-- Two devices that have nothing in common. -/
def lowDevice (L : Layout) : Device L := ⟨.factory, fun _ => 0, Partition.blank, 0⟩

def highDevice (L : Layout) : Device L := ⟨.ota0, fun _ => 1, Partition.blank, 0⟩

theorem not_merged (L : Layout) : ¬ Merged (lowDevice L) (highDevice L) := by
  intro h
  rcases h with hboot | hhead
  · cases hboot
  · have hbytes : (0 : UInt8) = 1 := hhead
    exact absurd hbytes (by decide)

/-- Answers of a download of one byte that goes through. -/
def goodEnv : FileEnv where
  heap := 136 * 1024
  initOk := true
  openOk := true
  status := 200
  contentLength := 1
  chunks := [(⟨[0xE9], by decide, by decide⟩, .ok)]
  readFails := false
  slot := some .ota0
  beginOk := true
  endOk := true
  setBootOk := true
  spiffsFound := true
  eraseSpiffs := .ok
  bothFound := true
  eraseWww := .ok
  copyIo := fun _ => ⟨true, .ok⟩

/-- `app.bin`. -/
def appBin : CStr := ⟨[0x61, 0x70, 0x70, 0x2e, 0x62, 0x69, 0x6e], by decide⟩

/-- The app image is good and the server does not have the `www.bin`. -/
def halfManifest : List ManifestItem :=
  [.url appBin goodEnv, .url wwwBin { goodEnv with status := 404 }]

def factoryDevice : Device partitionsCsv := ⟨.factory, Partition.blank, Partition.blank, 0⟩

/-- **Half applied.**  The update fails and says that the device stays on its firmware, and the next boot
is into the new image. -/
theorem half_applied :
    (updateFirmware factoryDevice halfManifest).1 = .fail ∧
      factoryDevice.boot = .factory ∧ (updateFirmware factoryDevice halfManifest).2.boot = .ota0 ∧
      ¬ ∀ d : Device partitionsCsv, (updateFirmware d halfManifest).1 = .fail →
        (updateFirmware d halfManifest).2.boot = d.boot ∧
          (updateFirmware d halfManifest).2.www = d.www := by
  have hfail : (updateFirmware factoryDevice halfManifest).1 = .fail := by decide
  have hboot : (updateFirmware factoryDevice halfManifest).2.boot = .ota0 := by decide
  refine ⟨hfail, rfl, hboot, ?_⟩
  intro h
  have hsame := (h factoryDevice hfail).1
  rw [hboot] at hsame
  cases hsame

/-- **When a failed update changes nothing**: on every device a failure leaves the boot slot and the live
web partition as they were, if and only if every file goes through, or the first file is the one that
fails and it fails before it takes effect. -/
theorem failure_harmless_iff (L : Layout) (items : List ManifestItem) :
    (∀ d : Device L, (updateFirmware d items).1 = .fail →
      (updateFirmware d items).2.boot = d.boot ∧ (updateFirmware d items).2.www = d.www) ↔
    FailSafe L items := by
  constructor
  · intro h
    by_contra hunsafe
    have hfails : ¬ AllOk L 0 items := fun hall => hunsafe (.inl hall)
    have heffect : ∃ url e, firstUrl items = some (url, e) ∧ TakesEffect L url e 0 := by
      cases hfirst : firstUrl items with
      | none => exact absurd (allOk_of_no_url hfirst 0) hfails
      | some file =>
          refine ⟨file.1, file.2, rfl, ?_⟩
          by_contra hquiet
          exact hunsafe (.inr ⟨file.1, file.2, hfirst, hquiet⟩)
    -- two devices that have nothing in common cannot both stay as they were
    have hlow := h (lowDevice L) ((updateFirmware_fail _ items).mpr hfails)
    have hhigh := h (highDevice L) ((updateFirmware_fail _ items).mpr hfails)
    have hmerged : Merged (updateFirmware (lowDevice L) items).2
        (updateFirmware (highDevice L) items).2 :=
      @applyFiles_merged L (lowDevice L) (highDevice L) rfl items (.inr heffect)
    rw [Merged, hlow.1, hlow.2, hhigh.1, hhigh.2] at hmerged
    exact not_merged L hmerged
  · intro h d hfail
    rcases h with hall | ⟨url, e, hfirst, hquiet⟩
    · exact absurd hall ((updateFirmware_fail d items).mp hfail)
    · exact applyFiles_quiet (d := { d with totalFileWrite := 0 }) hfirst hquiet

end RtkdataFw.Update
