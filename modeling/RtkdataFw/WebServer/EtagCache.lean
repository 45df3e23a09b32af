import Mathlib.Data.List.Infix
import RtkdataFw.Lib.FixedDigits
import RtkdataFw.Lib.Machine
import RtkdataFw.WebServer.FilePath

/-!
# The files of the web page and the caches of the browsers

`file_get_handler` keeps the checksum of a file beside it, in the file whose name ends in `.crc`, and sends it as the
ETag of the next reply; a browser that has the ETag asks with `If-None-Match` and is told that nothing changed when
it is the stored one.  Browsers and web images come and go; the store of a checksum may be cut short.

* `fileGet` — the handler, on the files of the partition;
* `web` — the partition and the caches of all browsers;
* `WebOk` — a checksum that is stored whole is that of its file, an ETag that is cached is that of its body;
* `web_coherent` — what a browser shows has the checksum of the file as it is.
-/

namespace RtkdataFw.WebServer

open RtkdataFw.Config RtkdataFw.Lib

/-! ### The code -/

/-- The files of the partition. -/
abbrev Www := List UInt8 → Option (List UInt8)

/-- `BUFFER_SIZE`. -/
def bufferSize : ℕ := 4096

/-- A `uint32_t` in memory. -/
def crcBytes (crc : UInt32) : List UInt8 := (fixedDigits 256 4 crc.toNat).map UInt8.ofNat

/-- `fread (&crc, sizeof (crc), 1, fd_hash)`. -/
def readCrc (bytes : List UInt8) : Option UInt32 :=
  if bytes.length < 4 then none else some (UInt32.ofNat (Nat.ofDigits 256 ((bytes.take 4).map UInt8.toNat)))

/-- A digit of `%X`. -/
def upperHex (d : ℕ) : UInt8 := if d < 10 then UInt8.ofNat (48 + d) else UInt8.ofNat (55 + d)

/-- `"\"%08X\""`. -/
def etagText (crc : UInt32) : List UInt8 := [34] ++ ((fixedDigits 16 8 crc.toNat).map upperHex).reverse ++ [34]

/-- What `file_check_etag_hash` returns. -/
inductive HashCheck where
  | ok
  | notFound
  | fail
  | invalidCrc
  | invalidArg
  deriving DecidableEq, Repr

/-- `file_check_etag_hash`, with the text in `etag`: `hash` is what stands in the hash file, `opens` that it opens. -/
def fileCheckEtagHash (hash : Option (List UInt8)) (opens : Bool) (ifNoneMatch : List UInt8) :
    HashCheck × List UInt8 :=
  match hash with
  | none => (.notFound, [])
  | some bytes =>
      if !opens then (.fail, [])
      else
        match readCrc bytes with
        | none => (.fail, [])
        | some crc =>
            if ifNoneMatch.length + 1 > 1 then
              (if etagText crc = ifNoneMatch then .ok else .invalidCrc, etagText crc)
            else (.invalidArg, etagText crc)

/-- The pieces of a file, as `fread` gives them, up to the first empty one. -/
def readPieces : ℕ → List UInt8 → List (List UInt8)
  | 0, _ => []
  | fuel + 1, text => if text = [] then [[]] else text.take bufferSize :: readPieces fuel (text.drop bufferSize)

def filePieces (text : List UInt8) : List (List UInt8) := readPieces (text.length + 1) text

/-- What the calls of one request return.  `cut` is where `fread` fails, `sendFails` the piece that cannot be sent,
`stored` how much of the checksum is stored, when the hash file opens. -/
structure FileIo where
  auth : EspErr
  hashOpens : Bool
  fileOpens : Bool
  cut : Option ℕ
  sendFails : Option ℕ
  stored : Option ℕ

/-- The reply to a request for a file, with the ETag, if any. -/
inductive FileReply where
  | unauthorized
  | filenameTooLong
  | redirected
  | notModified
  | unreadable
  | aborted (etag sent : List UInt8)
  | full (etag body : List UInt8)
  deriving DecidableEq, Repr

/-- The file that a URI names. -/
def servedPath (uri : CStr) : Option (List UInt8) :=
  (getPathFromUri wwwPartitionPath uri filePathSize).map fun file => (appendIndex file).text

def FileIo.read (io : FileIo) (text : List UInt8) : List UInt8 :=
  match io.cut with
  | none => text
  | some n => text.take n

section Rom

-- `crc32_le` is in the ROM.
variable (crc32Le : UInt32 → List UInt8 → UInt32)

/-- The loop over the pieces: what is sent, and the checksum, unless a piece cannot be sent. -/
def sendPieces : List (List UInt8) → Option ℕ → UInt32 → List UInt8 × Option UInt32
  | [], _, crc => ([], some crc)
  | piece :: pieces, fails, crc =>
      if fails = some 0 then ([], none)
      else
        let rest := sendPieces pieces (fails.map Nat.pred) (crc32Le crc piece)
        (piece ++ rest.1, rest.2)

/-- `file_get_handler`, for a request with this `If-None-Match`; an empty one is none. -/
def fileGet (www : Www) (uri : CStr) (ifNoneMatch : List UInt8) (io : FileIo) : Www × FileReply :=
  if io.auth = .espFail then (www, .unauthorized)
  else
    match servedPath uri with
    | none => (www, .filenameTooLong)
    | some path =>
        match www path with
        | none => (www, .redirected)
        | some text =>
            let hash := (hashPath path).text
            let check := fileCheckEtagHash (www hash) io.hashOpens ifNoneMatch
            if check.1 = .ok then (www, .notModified)
            else if !io.fileOpens then (www, .unreadable)
            else
              match sendPieces crc32Le (filePieces (io.read text)) io.sendFails 0 with
              | (sent, none) => (www, .aborted check.2 sent)
              | (sent, some crc) =>
                  match io.stored with
                  | none => (www, .full check.2 sent)
                  | some n => (Function.update www hash (some ((crcBytes crc).take n)), .full check.2 sent)

/-! ### The browsers -/

/-- What a browser has of a URI; without an ETag the text is empty. -/
structure Cached where
  body : List UInt8
  etag : List UInt8
  deriving DecidableEq, Repr

structure Web where
  www : Www
  cache : ℕ → CStr → Option Cached

def webInit : Web := ⟨fun _ => none, fun _ _ => none⟩

inductive WebEvent where
  /-- A browser asks for a URI.  It may take a body that was broken off for the whole. -/
  | get (browser : ℕ) (uri : CStr) (io : FileIo) (takesAborted : Bool)
  /-- Anyone asks, with any header. -/
  | ask (uri : CStr) (ifNoneMatch : List UInt8) (io : FileIo)
  | forget (browser : ℕ) (uri : CStr)
  /-- A new web image. -/
  | flash (files : List (List UInt8 × List UInt8))

inductive WebObs where
  /-- A browser shows `body`, received now when `fresh`, while the partition has `file`. -/
  | shown (uri : CStr) (body : List UInt8) (file : Option (List UInt8)) (fresh : Bool)
  deriving DecidableEq

namespace Web

variable (s : Web)

def ifNoneMatch (browser : ℕ) (uri : CStr) : List UInt8 := ((s.cache browser uri).map Cached.etag).getD []

def file (uri : CStr) : Option (List UInt8) := (servedPath uri).bind s.www

def keep (browser : ℕ) (uri : CStr) (c : Option Cached) : ℕ → CStr → Option Cached :=
  Function.update s.cache browser (Function.update (s.cache browser) uri c)

/-- What a browser makes of a reply. -/
def receive (browser : ℕ) (uri : CStr) (takesAborted : Bool) :
    FileReply → (ℕ → CStr → Option Cached) × List WebObs
  | .full etag body => (s.keep browser uri (some ⟨body, etag⟩), [.shown uri body (s.file uri) true])
  | .aborted etag sent =>
      if takesAborted then (s.keep browser uri (some ⟨sent, etag⟩), [.shown uri sent (s.file uri) true])
      else (s.cache, [])
  | .notModified =>
      match s.cache browser uri with
      | none => (s.cache, [])
      | some c => (s.cache, [.shown uri c.body (s.file uri) false])
  | .unauthorized | .filenameTooLong | .redirected | .unreadable => (s.cache, [])

def next : WebEvent → Web × List WebObs
  | .get browser uri io takesAborted =>
      let r := fileGet crc32Le s.www uri (s.ifNoneMatch browser uri) io
      let seen := s.receive browser uri takesAborted r.2
      (⟨r.1, seen.1⟩, seen.2)
  | .ask uri ifNoneMatch io => ({ s with www := (fileGet crc32Le s.www uri ifNoneMatch io).1 }, [])
  | .forget browser uri => ({ s with cache := s.keep browser uri none }, [])
  | .flash files => ({ s with www := fun path => files.lookup path }, [])

end Web

def web : Machine Web WebEvent WebObs where
  step s e := (s.next crc32Le e).1
  out s e := (s.next crc32Le e).2

end Rom

/-- The path of a hash file. -/
def HashPath (path : List UInt8) : Prop := fileHashSuffix <:+ path

instance (path : List UInt8) : Decidable (HashPath path) := inferInstanceAs (Decidable (_ <:+ _))

/-- Files are read to their end, a body that was broken off is not taken for the whole, and no web image comes with
hash files. -/
def Sound : WebEvent → Prop
  | .get _ _ io takesAborted => io.cut = none ∧ takesAborted = false
  | .ask _ _ io => io.cut = none
  | .forget _ _ => True
  | .flash files => ∀ f ∈ files, ¬ HashPath f.1

instance (e : WebEvent) : Decidable (Sound e) :=
  match e with
  | .get _ _ io takesAborted => inferInstanceAs (Decidable (io.cut = none ∧ takesAborted = false))
  | .ask _ _ io => inferInstanceAs (Decidable (io.cut = none))
  | .forget _ _ => isTrue trivial
  | .flash files => inferInstanceAs (Decidable (∀ f ∈ files, ¬ HashPath f.1))

/-! ### Checksums in files and in headers -/

theorem toNat_ofNat_below : ∀ d < 256, (UInt8.ofNat d).toNat = d := by
  intro d hd
  rw [UInt8.toNat_ofNat', Nat.mod_eq_of_lt hd]

theorem crcBytes_length (crc : UInt32) : (crcBytes crc).length = 4 := by
  rw [crcBytes, List.length_map, fixedDigits_length]

/-- **A stored checksum reads back.** -/
theorem readCrc_crcBytes (crc : UInt32) : readCrc (crcBytes crc) = some crc := by
  have hlen := crcBytes_length crc
  have hlt : crc.toNat < 256 ^ 4 := crc.toNat_lt
  rw [readCrc, if_neg (by omega), List.take_of_length_le (by omega), crcBytes,
    ofDigits_chars (by decide) toNat_ofNat_below hlt, UInt32.ofNat_toNat]

/-- What reads back from a store that may be cut short. -/
theorem readCrc_take {crc c : UInt32} {n : ℕ} (h : readCrc ((crcBytes crc).take n) = some c) : c = crc := by
  by_cases hn : n < 4
  · rw [readCrc, if_pos (by rw [List.length_take]; omega)] at h
    exact absurd h (by simp)
  · rw [List.take_of_length_le (by rw [crcBytes_length]; omega), readCrc_crcBytes, Option.some.injEq] at h
    exact h.symm

def upperHexValue (c : UInt8) : ℕ := if c.toNat < 58 then c.toNat - 48 else c.toNat - 55

theorem upperHexValue_upperHex : ∀ d < 16, upperHexValue (upperHex d) = d := by decide

theorem etagText_inj {c d : UInt32} : etagText c = etagText d ↔ c = d := by
  have hc : c.toNat < 16 ^ 8 := c.toNat_lt
  have hd : d.toNat < 16 ^ 8 := d.toNat_lt
  rw [etagText, etagText, List.append_cancel_right_eq, List.append_cancel_left_eq, List.reverse_inj,
    fixedChars_inj (by decide) upperHexValue_upperHex hc hd, UInt32.toNat_inj]

theorem etagText_ne_nil (c : UInt32) : etagText c ≠ [] := by simp [etagText]

theorem fileCheckEtagHash_etag {hash : Option (List UInt8)} {opens : Bool} {ifNoneMatch : List UInt8}
    (h : (fileCheckEtagHash hash opens ifNoneMatch).2 ≠ []) :
    ∃ bytes crc, hash = some bytes ∧ readCrc bytes = some crc ∧
      (fileCheckEtagHash hash opens ifNoneMatch).2 = etagText crc := by
  cases hash with
  | none => exact absurd rfl h
  | some bytes =>
      unfold fileCheckEtagHash at h ⊢
      dsimp only at h ⊢
      split at h
      · exact absurd rfl h
      · rw [if_neg ‹_›]
        cases hcrc : readCrc bytes with
        | none =>
            rw [hcrc] at h
            exact absurd rfl h
        | some crc =>
            refine ⟨bytes, crc, rfl, hcrc, ?_⟩
            dsimp only
            split
            · rfl
            · rfl

theorem fileCheckEtagHash_ok {hash : Option (List UInt8)} {opens : Bool} {ifNoneMatch : List UInt8} :
    (fileCheckEtagHash hash opens ifNoneMatch).1 = .ok ↔
      opens = true ∧ ∃ bytes crc, hash = some bytes ∧ readCrc bytes = some crc ∧ ifNoneMatch = etagText crc := by
  cases hash with
  | none => simp [fileCheckEtagHash]
  | some bytes =>
      cases opens with
      | false => simp [fileCheckEtagHash]
      | true =>
          cases hcrc : readCrc bytes with
          | none => simp [fileCheckEtagHash, hcrc]
          | some crc =>
              have hlen : 0 < (etagText crc).length := List.length_pos_iff.mpr (etagText_ne_nil crc)
              simp only [fileCheckEtagHash, hcrc, Bool.not_true, Bool.false_eq_true, if_false, true_and,
                Option.some.injEq, exists_eq_left', exists_and_left]
              by_cases heq : etagText crc = ifNoneMatch
              · rw [← heq, if_pos (by omega), if_pos rfl]
                simp
              · have hne : ifNoneMatch ≠ etagText crc := Ne.symm heq
                rw [if_neg heq]
                split
                · simpa using hne
                · simpa using hne

/-! ### Bodies -/

theorem readPieces_flatten (fuel : ℕ) (text : List UInt8) (hfuel : text.length < fuel) :
    (readPieces fuel text).flatten = text := by
  induction fuel generalizing text with
  | zero => omega
  | succ fuel ih =>
      rw [readPieces]
      split
      · rename_i hnil
        rw [hnil]
        rfl
      · rename_i hne
        have hpos := List.length_pos_iff.mpr hne
        have hsize : bufferSize = 4096 := rfl
        have hdrop : (text.drop bufferSize).length < fuel := by
          rw [List.length_drop]
          omega
        rw [List.flatten_cons, ih _ hdrop, List.take_append_drop]

section Rom

variable {crc32Le : UInt32 → List UInt8 → UInt32}

theorem sendPieces_done {pieces : List (List UInt8)} {fails : Option ℕ} {crc c : UInt32} {sent : List UInt8}
    (h : sendPieces crc32Le pieces fails crc = (sent, some c)) :
    sent = pieces.flatten ∧ c = pieces.foldl crc32Le crc := by
  induction pieces generalizing fails crc sent with
  | nil =>
      rw [sendPieces, Prod.mk.injEq, Option.some.injEq] at h
      exact ⟨h.1.symm, h.2.symm⟩
  | cons piece pieces ih =>
      rw [sendPieces] at h
      split at h
      · exact absurd (congrArg Prod.snd h) (by simp)
      · dsimp only at h
        rw [Prod.mk.injEq] at h
        obtain ⟨hsent, hcrc⟩ := ih (Prod.ext rfl h.2)
        refine ⟨?_, hcrc⟩
        rw [List.flatten_cons, ← hsent]
        exact h.1.symm

variable (crc32Le) in
/-- The checksum of a file, as the loop computes it. -/
def fileCrc (text : List UInt8) : UInt32 := (filePieces text).foldl crc32Le 0

/-- A body that is sent to its end is the file. -/
theorem sendPieces_file {text : List UInt8} {fails : Option ℕ} {c : UInt32} {sent : List UInt8}
    (h : sendPieces crc32Le (filePieces text) fails 0 = (sent, some c)) : sent = text ∧ c = fileCrc crc32Le text := by
  obtain ⟨hsent, hcrc⟩ := sendPieces_done h
  exact ⟨hsent.trans (readPieces_flatten _ text (Nat.lt_succ_self _)), hcrc⟩

theorem hashPath_text (path : List UInt8) : (hashPath path).text = path ++ fileHashSuffix := by
  simp [hashPath, StrBuf.strcpy, StrBuf.new]

/-! ### One request -/

variable {www : Www} {uri : CStr} {ifNoneMatch : List UInt8} {io : FileIo} {path text : List UInt8}

/-- The file that a request names is there. -/
structure Names (www : Www) (uri : CStr) (path text : List UInt8) : Prop where
  served : servedPath uri = some path
  there : www path = some text

/-- What a stored checksum says. -/
def storedCrc (www : Www) (path : List UInt8) : Option UInt32 := (www (path ++ fileHashSuffix)).bind readCrc

/-- What a request can come to, when files are read to their end. -/
inductive Served (crc32Le : UInt32 → List UInt8 → UInt32) (www : Www) (uri : CStr) (ifNoneMatch : List UInt8) :
    Www × FileReply → Prop where
  | quiet (reply : FileReply) (hquiet : ∀ etag body, reply ≠ .full etag body) (hother : reply ≠ .notModified) :
      Served crc32Le www uri ifNoneMatch (www, reply)
  | notModified (path text : List UInt8) (crc : UInt32) (hnames : Names www uri path text)
      (hcrc : storedCrc www path = some crc) (hmatch : ifNoneMatch = etagText crc) :
      Served crc32Le www uri ifNoneMatch (www, .notModified)
  | full (path text etag : List UInt8) (www' : Www) (hnames : Names www uri path text)
      (hetag : etag ≠ [] → ∃ crc, storedCrc www path = some crc ∧ etag = etagText crc)
      (hstore : www' = www ∨ ∃ n, www' = Function.update www (path ++ fileHashSuffix)
        (some ((crcBytes (fileCrc crc32Le text)).take n))) :
      Served crc32Le www uri ifNoneMatch (www', .full etag text)

theorem fileGet_served (hcut : io.cut = none) :
    Served crc32Le www uri ifNoneMatch (fileGet crc32Le www uri ifNoneMatch io) := by
  unfold fileGet
  split
  · exact .quiet _ (by simp) (by simp)
  cases hpath : servedPath uri with
  | none => exact .quiet _ (by simp) (by simp)
  | some path =>
      cases htext : www path with
      | none => simpa [htext] using Served.quiet _ (by simp) (by simp)
      | some text =>
          have hnames : Names www uri path text := ⟨hpath, htext⟩
          have hread : io.read text = text := by rw [FileIo.read, hcut]
          simp only [htext, hread, hashPath_text]
          split
          · rename_i hok
            obtain ⟨-, bytes, crc, hbytes, hcrc, hmatch⟩ := fileCheckEtagHash_ok.mp hok
            exact .notModified path text crc hnames (by rw [storedCrc, hbytes]; exact hcrc) hmatch
          split
          · exact .quiet _ (by simp) (by simp)
          have hetag : (fileCheckEtagHash (www (path ++ fileHashSuffix)) io.hashOpens ifNoneMatch).2 ≠ [] →
              ∃ crc, storedCrc www path = some crc ∧
                (fileCheckEtagHash (www (path ++ fileHashSuffix)) io.hashOpens ifNoneMatch).2 = etagText crc := by
            intro hne
            obtain ⟨bytes, crc, hbytes, hcrc, heq⟩ := fileCheckEtagHash_etag hne
            exact ⟨crc, by rw [storedCrc, hbytes]; exact hcrc, heq⟩
          split
          · exact .quiet _ (by simp) (by simp)
          · rename_i sent crc hsent
            obtain ⟨rfl, rfl⟩ := sendPieces_file hsent
            cases io.stored with
            | none => exact .full path sent _ www hnames hetag (.inl rfl)
            | some n => exact .full path sent _ _ hnames hetag (.inr ⟨n, rfl⟩)

/-! ### Runs -/

/-- The URI does not name a hash file. -/
def PlainUri (uri : CStr) : Prop := ∀ path, servedPath uri = some path → ¬ HashPath path

variable (crc32Le) in
/-- What is stored whole is the checksum of the file. -/
def HashesOk (www : Www) : Prop :=
  ∀ path text crc, ¬ HashPath path → www path = some text → storedCrc www path = some crc →
    crc = fileCrc crc32Le text

variable (crc32Le) in
/-- A cached ETag is that of the body. -/
def CachesOk (cache : ℕ → CStr → Option Cached) : Prop :=
  ∀ browser uri c, cache browser uri = some c → c.etag ≠ [] → PlainUri uri →
    c.etag = etagText (fileCrc crc32Le c.body)

variable (crc32Le) in
structure WebOk (s : Web) : Prop where
  hashes : HashesOk crc32Le s.www
  caches : CachesOk crc32Le s.cache

/-- A checksum is stored beside its file, and no other file changes. -/
theorem HashesOk.store (h : HashesOk crc32Le www) (hthere : www path = some text) (n : ℕ) :
    HashesOk crc32Le
      (Function.update www (path ++ fileHashSuffix) (some ((crcBytes (fileCrc crc32Le text)).take n))) := by
  intro p t crc hplain ht hcrc
  have hne : p ≠ path ++ fileHashSuffix := by
    rintro rfl
    exact hplain (List.suffix_append _ _)
  rw [Function.update_of_ne hne] at ht
  rw [storedCrc] at hcrc
  by_cases hsame : p = path
  · rw [hsame, Function.update_self] at hcrc
    rw [hsame, hthere, Option.some.injEq] at ht
    rw [← ht]
    exact readCrc_take hcrc
  · rw [Function.update_of_ne fun heq => hsame (List.append_cancel_right heq)] at hcrc
    exact h p t crc hplain ht hcrc

theorem Served.hashes {r : Www × FileReply} (hr : Served crc32Le www uri ifNoneMatch r) (h : HashesOk crc32Le www) :
    HashesOk crc32Le r.1 := by
  cases hr with
  | quiet | notModified => exact h
  | full path text etag www' hnames hetag hstore =>
      rcases hstore with rfl | ⟨n, rfl⟩
      · exact h
      · exact h.store hnames.there n

/-- What is shown has the checksum of the file, and is the file, when it has just come. -/
def Coherent (crc32Le : UInt32 → List UInt8 → UInt32) : WebObs → Prop
  | .shown uri body file fresh => PlainUri uri →
      ∃ text, file = some text ∧ fileCrc crc32Le body = fileCrc crc32Le text ∧ (fresh = true → body = text)

variable {s : Web}

theorem CachesOk.keep (h : CachesOk crc32Le s.cache) (browser : ℕ) {new : Option Cached}
    (hnew : ∀ c, new = some c → c.etag ≠ [] → PlainUri uri → c.etag = etagText (fileCrc crc32Le c.body)) :
    CachesOk crc32Le (s.keep browser uri new) := by
  intro b u c hc
  unfold Web.keep at hc
  by_cases hb : b = browser
  · rw [hb, Function.update_self] at hc
    by_cases hu : u = uri
    · rw [hu, Function.update_self] at hc
      rw [hu]
      exact hnew c hc
    · rw [Function.update_of_ne hu] at hc
      exact h browser u c hc
  · rw [Function.update_of_ne hb] at hc
    exact h b u c hc

theorem Names.file (h : Names s.www uri path text) : s.file uri = some text := by
  rw [Web.file, h.served, Option.bind_some, h.there]

/-- A browser takes the reply to its own request. -/
theorem Served.receive {browser : ℕ} {r : Www × FileReply} (hok : WebOk crc32Le s)
    (hr : Served crc32Le s.www uri (s.ifNoneMatch browser uri) r) :
    CachesOk crc32Le (s.receive browser uri false r.2).1 ∧
      ∀ o ∈ (s.receive browser uri false r.2).2, Coherent crc32Le o := by
  cases hr with
  | quiet reply hquiet hother =>
      cases reply with
      | full etag body => exact absurd rfl (hquiet etag body)
      | notModified => exact absurd rfl hother
      | unauthorized | filenameTooLong | redirected | unreadable | aborted =>
          exact ⟨hok.caches, List.forall_mem_nil _⟩
  | notModified path text crc hnames hcrc hmatch =>
      rw [Web.receive]
      cases hc : s.cache browser uri with
      | none => exact ⟨hok.caches, List.forall_mem_nil _⟩
      | some c =>
          refine ⟨hok.caches, ?_⟩
          rw [List.forall_mem_singleton]
          intro hplain
          have hetag : c.etag = etagText crc := by
            rw [Web.ifNoneMatch, hc] at hmatch
            exact hmatch
          have hbody := hok.caches browser uri c hc (by rw [hetag]; exact etagText_ne_nil crc) hplain
          rw [hetag, etagText_inj, hok.hashes path text crc (hplain path hnames.served) hnames.there hcrc] at hbody
          exact ⟨text, hnames.file, hbody.symm, by simp⟩
  | full path text etag www' hnames hetag hstore =>
      refine ⟨hok.caches.keep browser ?_, ?_⟩
      · intro c hc hne hplain
        cases hc
        obtain ⟨crc, hcrc, heq⟩ := hetag hne
        rw [← hok.hashes path text crc (hplain path hnames.served) hnames.there hcrc]
        exact heq
      · rw [Web.receive, List.forall_mem_singleton]
        exact fun _ => ⟨text, hnames.file, rfl, fun _ => rfl⟩

theorem storedCrc_flash {files : List (List UInt8 × List UInt8)} (hfiles : ∀ f ∈ files, ¬ HashPath f.1)
    (path : List UInt8) : storedCrc (fun p => files.lookup p) path = none := by
  have hnone : files.lookup (path ++ fileHashSuffix) = none := by
    rw [List.lookup_eq_none_iff]
    intro f hf
    rw [bne_iff_ne]
    intro heq
    exact hfiles f hf (heq ▸ List.suffix_append _ _)
  rw [storedCrc, hnone, Option.bind_none]

theorem web_step (h : WebOk crc32Le s) (e : WebEvent) (hsound : Sound e) :
    WebOk crc32Le ((web crc32Le).step s e) ∧ ∀ o ∈ (web crc32Le).out s e, Coherent crc32Le o := by
  cases e with
  | get browser uri io takesAborted =>
      obtain ⟨hcut, rfl⟩ := hsound
      have hr : Served crc32Le s.www uri (s.ifNoneMatch browser uri)
          (fileGet crc32Le s.www uri (s.ifNoneMatch browser uri) io) := fileGet_served hcut
      obtain ⟨hcaches, hout⟩ := hr.receive h
      exact ⟨⟨hr.hashes h.hashes, hcaches⟩, hout⟩
  | ask uri ifNoneMatch io =>
      exact ⟨⟨(fileGet_served hsound).hashes h.hashes, h.caches⟩, List.forall_mem_nil _⟩
  | forget browser uri => exact ⟨⟨h.hashes, h.caches.keep browser (by simp)⟩, List.forall_mem_nil _⟩
  | flash files =>
      refine ⟨⟨?_, h.caches⟩, List.forall_mem_nil _⟩
      intro path text crc _ _ hcrc
      exact absurd (hcrc.symm.trans (storedCrc_flash hsound path)) (by simp)

/-- When the whole checksum is stored, the handler says that nothing changed exactly for its own ETag. -/
theorem notModified_iff {crc : UInt32} (hnames : Names www uri path text) (hcrc : storedCrc www path = some crc)
    (hauth : io.auth ≠ .espFail) (hopens : io.hashOpens = true) :
    (fileGet crc32Le www uri ifNoneMatch io).2 = .notModified ↔ ifNoneMatch = etagText crc := by
  obtain ⟨bytes, hbytes, hread⟩ := Option.bind_eq_some_iff.mp hcrc
  have hok : (fileCheckEtagHash (www (path ++ fileHashSuffix)) io.hashOpens ifNoneMatch).1 = .ok ↔
      ifNoneMatch = etagText crc := by
    rw [fileCheckEtagHash_ok, hopens]
    constructor
    · rintro ⟨-, bytes', crc', hbytes', hread', hmatch⟩
      rw [hbytes, Option.some.injEq] at hbytes'
      rw [← hbytes', hread, Option.some.injEq] at hread'
      rw [hmatch, hread']
    · exact fun hmatch => ⟨rfl, bytes, crc, hbytes, hread, hmatch⟩
  unfold fileGet
  simp only [if_neg hauth, hnames.served, hnames.there, hashPath_text]
  rw [← hok]
  split
  · rename_i hcheck
    exact iff_of_true rfl hcheck
  · rename_i hcheck
    refine iff_of_false ?_ hcheck
    split
    · simp
    · split
      · simp
      · split <;> simp

end Rom

/-- How far the handler came, in the terms of `fileGetHandler`. -/
def FileReply.outcome : FileReply → FileOutcome
  | .unauthorized => .unauthorized
  | .filenameTooLong => .filenameTooLong
  | .redirected => .redirected
  | .notModified | .unreadable | .aborted _ _ | .full _ _ => .found

theorem fileGet_outcome (crc32Le : UInt32 → List UInt8 → UInt32) (www : Www) (uri : CStr) (ifNoneMatch : List UInt8)
    (io : FileIo) :
    (fileGet crc32Le www uri ifNoneMatch io).2.outcome =
      (fileGetHandler io.auth (fun path => (www path).isSome) uri).outcome := by
  unfold fileGetHandler fileGet servedPath
  split
  · rfl
  · cases getPathFromUri wwwPartitionPath uri filePathSize with
    | none => rfl
    | some file =>
        cases htext : www (appendIndex file).text with
        | none =>
            simp only [Option.map_some, htext, Option.isSome_none, if_true]
            rfl
        | some text =>
            simp only [Option.map_some, htext, Option.isSome_some, Bool.true_eq_false, if_false]
            split
            · rfl
            split
            · rfl
            split
            · rfl
            · split
              · rfl
              · rfl

/-- `crc32_le`, bit by bit. -/
def crc32Rom (crc : UInt32) (text : List UInt8) : UInt32 :=
  let shift (c : UInt32) : UInt32 := if c &&& 1 = 1 then (c >>> 1) ^^^ 0xEDB88320 else c >>> 1
  ~~~ text.foldl (fun c b => shift^[8] (c ^^^ b.toUInt32)) (~~~ crc)

example : crc32Rom 0 (ascii "123456789") = 0xCBF43926 := by decide +kernel

def demoUri : CStr := CStr.ofBytes (ascii "/a")

/-- Calls that succeed. -/
def demoIo : FileIo := ⟨.espOk, true, true, none, none, some 4⟩

/-- An image of one file, which a browser asks for three times. -/
def demoWeb : List WebEvent := .flash [(ascii "/www/a", [97])] :: List.replicate 3 (.get 0 demoUri demoIo false)

/-- `fread` fails at once for the second of them, and the handler takes that for the end of the file. -/
def demoCut : List WebEvent :=
  .flash [(ascii "/www/a", [97])] ::
    [.get 0 demoUri demoIo false, .get 0 demoUri { demoIo with cut := some 0 } false, .get 1 demoUri demoIo false,
      .get 0 demoUri demoIo false]

example : WebObs.shown demoUri [] (some [97]) false ∈ (web crc32Rom).outputs webInit demoCut := by decide +kernel

end RtkdataFw.WebServer
