import RtkdataFw.WebServer.BasicAuth

/-!
# Paths of `file_get_handler`

`get_path_from_uri` compares the whole path with its buffer.  What the handler appends, `index.html` and the
suffix of the hash, it compares with another limit and without the base path, or not at all.

* `getPathFromUri_eq` — what is stored for a URI, or that it is refused;
* `indexed_below_iff`, `plain_below` — the stores for a path that gets `index.html`, and for one that does not;
* `paths_fit_iff` — the paths whose stores leave their buffers.
-/

namespace RtkdataFw.WebServer

open RtkdataFw.Config RtkdataFw.Lib

/-! ### The code -/

/-- `ESP_VFS_PATH_MAX + CONFIG_SPIFFS_OBJ_NAME_LEN`. -/
def filePathMax : ℕ := 15 + 32

def fileHashSuffix : List UInt8 := ascii ".crc"

def wwwPartitionPath : List UInt8 := ascii "/www"

def indexHtml : List UInt8 := ascii "index.html"

def slash : UInt8 := 47

/-- `sizeof (file_path)`. -/
def filePathSize : ℕ := filePathMax - fileHashSuffix.length

/-- `strchr (s, c) - s`. -/
def strchr (s : CStr) (c : UInt8) : Option ℕ := s.bytes.findIdx? (· == c)

/-- The length of a URI without query and fragment. -/
def pathlen (uri : CStr) : ℕ :=
  let n := uri.length
  let n := match strchr uri 63 with
    | some quest => min n quest
    | none => n
  match strchr uri 35 with
  | some hash => min n hash
  | none => n

/-- The buffer after the two copies, or `NULL`. -/
def getPathFromUri (basePath : List UInt8) (uri : CStr) (destsize : ℕ) : Option StrBuf :=
  if basePath.length + pathlen uri + 1 > destsize then none
  else some ((StrBuf.new.strcpy 0 basePath).strcpy basePath.length (uri.bytes.take (pathlen uri)))

/-- How a request for a file ends. -/
inductive FileOutcome where
  | unauthorized
  | filenameTooLong
  | redirected
  | found
  deriving DecidableEq, Repr

/-- A request for a file, with the indices written to its two buffers. -/
structure FileGet where
  outcome : FileOutcome
  filePath : List ℕ
  fileHashPath : List ℕ
  deriving DecidableEq, Repr

/-- `index.html` behind a trailing `/`.  The byte before the file name is the last of the base path. -/
def appendIndex (file : StrBuf) : StrBuf :=
  if file.text.getD (file.text.length - 1) 0 = slash ∧
      file.text.length - wwwPartitionPath.length + indexHtml.length < filePathMax then
    file.strcpy file.text.length indexHtml
  else file

def hashPath (path : List UInt8) : StrBuf :=
  (StrBuf.new.strcpy 0 path).strcpy path.length fileHashSuffix

/-- The handler up to the ETag: `auth` is what `check_auth` returned, `stat` says which paths exist. -/
def fileGetHandler (auth : EspErr) (stat : List UInt8 → Bool) (uri : CStr) : FileGet :=
  if auth = .espFail then ⟨.unauthorized, [], []⟩
  else
    match getPathFromUri wwwPartitionPath uri filePathSize with
    | none => ⟨.filenameTooLong, [], []⟩
    | some file =>
        let file := appendIndex file
        if stat file.text = false then ⟨.redirected, file.writes, []⟩
        else ⟨.found, file.writes, (hashPath file.text).writes⟩

/-! ### In bounds -/

/-- The path of this URI does not fit the buffer. -/
def TooLong (uri : CStr) : Prop := filePathSize < wwwPartitionPath.length + pathlen uri + 1

/-- What the handler must do with its two buffers. -/
structure PathsFit (uri : CStr) (get : FileGet) : Prop where
  filePath : ∀ i ∈ get.filePath, i < filePathSize
  fileHashPath : ∀ i ∈ get.fileHashPath, i < filePathMax
  refused : TooLong uri → get.outcome = .unauthorized ∨ get.outcome = .filenameTooLong

/-- A path that ends in `/` and is 29 to 36 bytes long. -/
structure SlashBand (uri : CStr) : Prop where
  trailing : (uri.bytes.take (pathlen uri)).getLast? = some slash
  low : 29 ≤ pathlen uri
  high : pathlen uri ≤ 36

/-! ### Paths and their stores -/

theorem wwwPartitionPath_length : wwwPartitionPath.length = 4 := by decide

theorem indexHtml_length : indexHtml.length = 10 := by decide

theorem fileHashSuffix_length : fileHashSuffix.length = 4 := by decide

theorem filePathMax_eq : filePathMax = 47 := by decide

theorem filePathSize_eq : filePathSize = 43 := by decide

theorem pathlen_le (uri : CStr) : pathlen uri ≤ uri.length := by
  have hquest : (match strchr uri 63 with
      | some quest => min uri.length quest
      | none => uri.length) ≤ uri.length := by
    split
    · exact Nat.min_le_left _ _
    · exact Nat.le_refl _
  unfold pathlen
  dsimp only
  split
  · exact (Nat.min_le_left _ _).trans hquest
  · exact hquest

theorem path_length (uri : CStr) : (uri.bytes.take (pathlen uri)).length = pathlen uri :=
  List.length_take_of_le (pathlen_le uri)

/-- The file path of a URI. -/
def pathFile (uri : CStr) : StrBuf :=
  (StrBuf.new.strcpy 0 wwwPartitionPath).strcpy wwwPartitionPath.length (uri.bytes.take (pathlen uri))

theorem getPathFromUri_eq (uri : CStr) :
    getPathFromUri wwwPartitionPath uri filePathSize = if 38 < pathlen uri then none else some (pathFile uri) := by
  have hbase := wwwPartitionPath_length
  have hsize := filePathSize_eq
  unfold getPathFromUri
  rw [hbase, hsize]
  by_cases hlong : 38 < pathlen uri
  · rw [if_pos hlong, if_pos (by omega)]
  · rw [if_neg hlong, if_neg (by omega)]
    rfl

theorem tooLong_iff (uri : CStr) : TooLong uri ↔ 38 < pathlen uri := by
  have hbase := wwwPartitionPath_length
  have hsize := filePathSize_eq
  unfold TooLong
  omega

theorem pathFile_text (uri : CStr) :
    (pathFile uri).text = wwwPartitionPath ++ uri.bytes.take (pathlen uri) := by
  unfold pathFile StrBuf.strcpy
  simp [StrBuf.new]

theorem pathFile_length (uri : CStr) : (pathFile uri).text.length = 4 + pathlen uri := by
  rw [pathFile_text, List.length_append, path_length]
  rfl

theorem pathFile_below_iff (uri : CStr) {size : ℕ} :
    (∀ i ∈ (pathFile uri).writes, i < size) ↔ 4 + pathlen uri < size := by
  have hbase := wwwPartitionPath_length
  unfold pathFile
  rw [StrBuf.strcpy_below_iff, StrBuf.strcpy_below_iff, path_length, hbase]
  constructor
  · exact fun h => h.2
  · exact fun h => ⟨⟨List.forall_mem_nil _, by omega⟩, h⟩

theorem hashPath_below_iff (path : List UInt8) {size : ℕ} :
    (∀ i ∈ (hashPath path).writes, i < size) ↔ path.length + 4 < size := by
  have hsuffix := fileHashSuffix_length
  unfold hashPath
  rw [StrBuf.strcpy_below_iff, StrBuf.strcpy_below_iff, hsuffix]
  constructor
  · exact fun h => h.2
  · exact fun h => ⟨⟨List.forall_mem_nil _, by omega⟩, h⟩

/-- The last byte of the path; an empty one has the `w` of the base path there. -/
theorem trailing_iff (path : List UInt8) :
    (wwwPartitionPath ++ path).getD ((wwwPartitionPath ++ path).length - 1) 0 = slash ↔
      path.getLast? = some slash := by
  rcases List.eq_nil_or_concat' path with rfl | ⟨front, c, rfl⟩
  · decide
  · rw [List.getLast?_concat, Option.some.injEq, ← List.append_assoc, List.length_append,
      List.length_singleton, Nat.add_sub_cancel, List.getD_eq_getElem?_getD,
      List.getElem?_concat_length, Option.getD_some]

/-- Whether `index.html` is appended. -/
structure Indexed (uri : CStr) : Prop where
  trailing : (uri.bytes.take (pathlen uri)).getLast? = some slash
  short : pathlen uri < 37

theorem appendIndex_pathFile (uri : CStr) :
    (Indexed uri → appendIndex (pathFile uri) = (pathFile uri).strcpy (pathFile uri).text.length indexHtml) ∧
      (¬ Indexed uri → appendIndex (pathFile uri) = pathFile uri) := by
  have hguard : ((pathFile uri).text.getD ((pathFile uri).text.length - 1) 0 = slash ∧
      (pathFile uri).text.length - wwwPartitionPath.length + indexHtml.length < filePathMax) ↔ Indexed uri := by
    have hbase := wwwPartitionPath_length
    have hindex := indexHtml_length
    have hmax := filePathMax_eq
    have htrailing := trailing_iff (uri.bytes.take (pathlen uri))
    rw [← pathFile_text] at htrailing
    rw [htrailing, pathFile_length, hbase, hindex, hmax]
    constructor
    · intro h
      exact ⟨h.1, by omega⟩
    · intro h
      have hshort := h.short
      exact ⟨h.trailing, by omega⟩
  unfold appendIndex
  exact ⟨fun h => if_pos (hguard.mpr h), fun h => if_neg (mt hguard.mp h)⟩

/-- The stores for a path that gets `index.html`. -/
theorem indexed_below_iff {uri : CStr} (h : Indexed uri) {size : ℕ} :
    ((∀ i ∈ (appendIndex (pathFile uri)).writes, i < size) ↔ 14 + pathlen uri < size) ∧
      ((∀ i ∈ (hashPath (appendIndex (pathFile uri)).text).writes, i < size) ↔ 18 + pathlen uri < size) := by
  have hindex := indexHtml_length
  rw [(appendIndex_pathFile uri).1 h]
  constructor
  · rw [StrBuf.strcpy_below_iff, pathFile_below_iff, pathFile_length, hindex]
    omega
  · rw [hashPath_below_iff]
    unfold StrBuf.strcpy
    rw [List.take_length, List.length_append, pathFile_length, hindex]
    omega

/-- The stores for a path that does not. -/
theorem plain_below {uri : CStr} (h : ¬ Indexed uri) (hfits : ¬ TooLong uri) :
    (∀ i ∈ (appendIndex (pathFile uri)).writes, i < filePathSize) ∧
      (∀ i ∈ (hashPath (appendIndex (pathFile uri)).text).writes, i < filePathMax) := by
  rw [tooLong_iff] at hfits
  have hmax := filePathMax_eq
  have hsize := filePathSize_eq
  rw [(appendIndex_pathFile uri).2 h, pathFile_below_iff, hashPath_below_iff, pathFile_length]
  omega

/-! ### The band -/

section Authorised

variable {auth : EspErr} {uri : CStr}

theorem refused_fits (stat : List UInt8 → Bool) (hauth : auth ≠ .espFail) (hlong : TooLong uri) :
    PathsFit uri (fileGetHandler auth stat uri) := by
  unfold fileGetHandler
  rw [if_neg hauth, getPathFromUri_eq, if_pos ((tooLong_iff uri).mp hlong)]
  exact ⟨List.forall_mem_nil _, List.forall_mem_nil _, fun _ => Or.inr rfl⟩

/-- A path that is not refused is looked up with its `index.html`. -/
theorem served_eq (stat : List UInt8 → Bool) (hauth : auth ≠ .espFail) (hfits : ¬ TooLong uri) :
    fileGetHandler auth stat uri =
      if stat (appendIndex (pathFile uri)).text = false then ⟨.redirected, (appendIndex (pathFile uri)).writes, []⟩
      else ⟨.found, (appendIndex (pathFile uri)).writes, (hashPath (appendIndex (pathFile uri)).text).writes⟩ := by
  unfold fileGetHandler
  rw [if_neg hauth, getPathFromUri_eq, if_neg (mt (tooLong_iff uri).mpr hfits)]

theorem served_fits (stat : List UInt8 → Bool) (hauth : auth ≠ .espFail) (hfits : ¬ TooLong uri)
    (hfile : ∀ i ∈ (appendIndex (pathFile uri)).writes, i < filePathSize)
    (hhash : ∀ i ∈ (hashPath (appendIndex (pathFile uri)).text).writes, i < filePathMax) :
    PathsFit uri (fileGetHandler auth stat uri) := by
  rw [served_eq stat hauth hfits]
  split
  · exact ⟨hfile, List.forall_mem_nil _, fun hlong => absurd hlong hfits⟩
  · exact ⟨hfile, hhash, fun hlong => absurd hlong hfits⟩

theorem served_filePath (stat : List UInt8 → Bool) (hauth : auth ≠ .espFail) (hfits : ¬ TooLong uri) :
    (fileGetHandler auth stat uri).filePath = (appendIndex (pathFile uri)).writes := by
  rw [served_eq stat hauth hfits]
  split <;> rfl

/-- What the handler does with a request that is authorised. -/
theorem paths_fit_authorised (stat : List UInt8 → Bool) (hauth : auth ≠ .espFail) :
    PathsFit uri (fileGetHandler auth stat uri) ↔ ¬ SlashBand uri := by
  have hmax := filePathMax_eq
  have hsize := filePathSize_eq
  by_cases hlong : TooLong uri
  · apply iff_of_true (refused_fits stat hauth hlong)
    intro h
    have hhigh := h.high
    rw [tooLong_iff] at hlong
    omega
  by_cases hindexed : Indexed uri
  · have hbelow := fun size => @indexed_below_iff uri hindexed size
    have hshort := hindexed.short
    constructor
    · intro h hband
      have hlow := hband.low
      have hfile := h.filePath
      rw [served_filePath stat hauth hlong, (hbelow filePathSize).1] at hfile
      omega
    · intro h
      have hlow : pathlen uri < 29 := by
        by_contra hlow
        exact h ⟨hindexed.trailing, Nat.le_of_not_lt hlow, by omega⟩
      apply served_fits stat hauth hlong
      · exact (hbelow filePathSize).1.mpr (by omega)
      · exact (hbelow filePathMax).2.mpr (by omega)
  · obtain ⟨hfile, hhash⟩ := plain_below hindexed hlong
    apply iff_of_true (served_fits stat hauth hlong hfile hhash)
    intro h
    have hhigh := h.high
    exact hindexed ⟨h.trailing, by omega⟩

end Authorised

/-- **Paths leave their buffers exactly when they end in `/` and are 29 to 36 bytes long.** -/
theorem paths_fit_iff (auth : EspErr) (stat : List UInt8 → Bool) (uri : CStr) :
    PathsFit uri (fileGetHandler auth stat uri) ↔ ¬ (auth ≠ .espFail ∧ SlashBand uri) := by
  by_cases hauth : auth = .espFail
  · apply iff_of_true
    · unfold fileGetHandler
      rw [if_pos hauth]
      exact ⟨List.forall_mem_nil _, List.forall_mem_nil _,
        fun _ => Or.inl rfl⟩
    · exact fun h => h.1 hauth
  · rw [paths_fit_authorised stat hauth]
    exact ⟨fun h hband => h hband.2, fun h hband => h ⟨hauth, hband⟩⟩

/-- `/`, 27 letters and `/`: the terminator of `index.html` is stored behind the buffer. -/
theorem slash_overflows : ¬ PathsFit
    ⟨ascii "/aaaaaaaaaaaaaaaaaaaaaaaaaaa/", by decide⟩
    (fileGetHandler .espOk (fun _ => false) ⟨ascii "/aaaaaaaaaaaaaaaaaaaaaaaaaaa/", by decide⟩) := by
  intro h
  exact absurd (h.filePath 43 (by decide)) (by decide)

end RtkdataFw.WebServer
