import RtkdataFw.Config
import RtkdataFw.Lib.Base64
import RtkdataFw.Lib.Numeral

/-!
# Basic authentication

`basic_auth` compares the whole header with the one that the credentials encode to, and the comparison ignores
case.  Base64 does not.

* `accepted_iff` — which headers are accepted;
* `recased_refused` — the same text in other letters never decodes to the credentials;
* `basic_auth_sound_iff` — the only headers that are accepted wrongly.
-/

namespace RtkdataFw.WebServer

open RtkdataFw.Config RtkdataFw.Lib

/-! ### The code -/

/-- `asprintf (&user_info, "%s:%s", username, password)`. -/
def userInfo (username password : CStr) : List UInt8 := username.bytes ++ ascii ":" ++ password.bytes

def httpAuthBasicHeader (username password : CStr) : List UInt8 :=
  ascii "Basic " ++ Base64.encode (userInfo username password)

/-- `basic_auth` on a request with this `Authorization` header. -/
def basicAuth (username password header : CStr) : EspErr :=
  if strcasecmp (httpAuthBasicHeader username password) header.bytes = 0 then .espOk else .espFail

/-! ### The meaning of the header -/

/-- What follows the scheme `Basic`, whose case does not matter in HTTP. -/
def basicToken (header : CStr) : Option (List UInt8) :=
  if (header.bytes.take 6).map lower = (ascii "Basic ").map lower then some (header.bytes.drop 6) else none

/-- The header presents these credentials. -/
def Presents (header : CStr) (info : List UInt8) : Prop :=
  (basicToken header).bind Base64.decode = some info

instance (header : CStr) (info : List UInt8) : Decidable (Presents header info) :=
  inferInstanceAs (Decidable (_ = _))

/-- What follows the scheme is the encoded text with some letters in the other case. -/
def Recased (header : CStr) (encoded : List UInt8) : Prop :=
  ∃ text, basicToken header = some text ∧ text.map lower = encoded.map lower ∧ text ≠ encoded

/-! ### The comparison -/

theorem zero_notMem_header (username password : CStr) : 0 ∉ httpAuthBasicHeader username password := by
  intro h
  rcases List.mem_append.mp h with h | h
  · exact absurd h (by decide)
  · exact Base64.zero_notMem_encode _ h

/-- **Which headers are accepted.** -/
theorem accepted_iff (username password header : CStr) :
    basicAuth username password header = .espOk ↔
      ∃ text, basicToken header = some text ∧
        text.map lower = (Base64.encode (userInfo username password)).map lower := by
  have hlen : ((ascii "Basic ").map lower).length = 6 := by decide
  have hcompare := strcasecmp_eq_zero_iff (zero_notMem_header username password) header.noNul
  have hsplit : header.bytes.map lower = (header.bytes.take 6).map lower ++ (header.bytes.drop 6).map lower := by
    rw [← List.map_append, List.take_append_drop]
  have hmap : (httpAuthBasicHeader username password).map lower =
      (ascii "Basic ").map lower ++ (Base64.encode (userInfo username password)).map lower :=
    List.map_append
  unfold basicAuth basicToken
  constructor
  · intro h
    split at h
    · rename_i hzero
      rw [hcompare, hmap] at hzero
      have htake := congrArg (List.take 6) hzero
      have hdrop := congrArg (List.drop 6) hzero
      rw [List.take_left' hlen, ← List.map_take] at htake
      rw [List.drop_left' hlen, ← List.map_drop] at hdrop
      rw [if_pos htake.symm]
      exact ⟨_, rfl, hdrop.symm⟩
    · cases h
  · intro h
    obtain ⟨text, htoken, hcase⟩ := h
    split at htoken
    · rename_i hscheme
      rw [Option.some.injEq] at htoken
      rw [if_pos]
      rw [hcompare, hmap, hsplit, hscheme, htoken, hcase]
    · cases htoken

/-! ### Soundness -/

/-- A recased text never decodes to the credentials. -/
theorem recased_refused {text info : List UInt8} (hcase : text.map lower = (Base64.encode info).map lower)
    (hne : text ≠ Base64.encode info) : Base64.decode text ≠ some info := by
  intro hdecode
  exact hne (Base64.eq_of_decode hcase hdecode (Base64.decode_encode info))

/-- **Only recased headers are accepted wrongly.** -/
theorem basic_auth_sound_iff (username password header : CStr) :
    (basicAuth username password header = .espOk → Presents header (userInfo username password)) ↔
      ¬ Recased header (Base64.encode (userInfo username password)) := by
  rw [accepted_iff]
  unfold Presents Recased
  constructor
  · intro h hrecased
    obtain ⟨text, htoken, hcase, hne⟩ := hrecased
    have hpresents := h ⟨text, htoken, hcase⟩
    rw [htoken, Option.bind_some] at hpresents
    exact recased_refused hcase hne hpresents
  · intro h haccepted
    obtain ⟨text, htoken, hcase⟩ := haccepted
    have hsame : text = Base64.encode (userInfo username password) := by
      by_contra hne
      exact h ⟨text, htoken, hcase, hne⟩
    rw [htoken, Option.bind_some, hsame, Base64.decode_encode]

/-- The user `a` with the password `b` is `YTpi`; `ytpi` is something else. -/
theorem recased_accepted :
    basicAuth ⟨ascii "a", by decide⟩ ⟨ascii "b", by decide⟩ ⟨ascii "Basic ytpi", by decide⟩ = .espOk ∧
      ¬ Presents ⟨ascii "Basic ytpi", by decide⟩ (userInfo ⟨ascii "a", by decide⟩ ⟨ascii "b", by decide⟩) := by
  decide

end RtkdataFw.WebServer
