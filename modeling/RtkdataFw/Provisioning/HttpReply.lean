import RtkdataFw.Lib.Buffer
import Mathlib.Data.Int.Notation

/-!
# The reply buffer of `http_post_json`

The library that `provisioning.c` calls is a parameter: how its calls fail, the content length that it announces,
and what each read delivers when it is asked for so many bytes.  Memory comes with arbitrary contents, and
every access to it is checked: `none` is a write outside the buffer or a negative length.

* `readLoop` — the `for (;;)` loop, with a record of each read;
* `Collected` — what a run of it leaves: where the reads wrote, and what is returned;
* `readLoop_collects`, `http_reply_collected` — every run, for every content length and every server, leaves that.
-/

namespace RtkdataFw.Provisioning

open RtkdataFw.Lib

def intMax : ℕ := 2147483647

/-- The calls of the HTTP client and of the allocator. -/
structure HttpClient where
  initOk : Bool
  openErr : ℤ
  written : ℤ
  /-- What `esp_http_client_fetch_headers` returns. -/
  clen : ℤ
  /-- The contents of the memory that allocation `k`, of `size` bytes, returns. -/
  alloc : (k size : ℕ) → Option (ℕ → UInt8)
  /-- The bytes that read `k` delivers when it is asked for `ask`. -/
  read : (k ask : ℕ) → List UInt8
  /-- The reads before the one that returns zero or less. -/
  reads : ℕ

/-- `resp`, `cap` and `len`. -/
structure Resp where
  cap : ℕ
  buf : Buffer UInt8 cap
  len : ℕ

/-- What `http_post_json` returns; `overflow` when a size has left `int`. -/
inductive Reply where
  | null
  | overflow
  | string (m : Resp)

/-- One call of `esp_http_client_read`. -/
structure ReadCall where
  len : ℕ
  cap : ℕ
  ask : ℕ
  got : List UInt8

/-- `if (len + 1 >= cap)`: the buffer is doubled. -/
def growIfFull (c : HttpClient) (k : ℕ) (m : Resp) : Reply :=
  if m.len + 1 ≥ m.cap then
    if m.cap * 2 > intMax then .overflow
    else
      match c.alloc (k + 1) (m.cap * 2) with
      | none => .null
      | some junk => .string ⟨m.cap * 2, m.buf.resize (m.cap * 2) junk, m.len⟩
  else .string m

/-- `r = esp_http_client_read(cli, resp + len, cap - len - 1)` with something delivered, and `len += r`. -/
def readSome (c : HttpClient) (k : ℕ) (m : Resp) : Option (ReadCall × Resp) := do
  let ask ← sub? m.cap (m.len + 1)
  let got := c.read k ask
  let buf ← m.buf.write? m.len got
  return (⟨m.len, m.cap, ask, got⟩, { m with buf := buf, len := m.len + got.length })

/-- The read that ends the loop, and `resp[len] = '\0'`. -/
def readLast (m : Resp) : Option (ReadCall × Resp) := do
  let ask ← sub? m.cap (m.len + 1)
  let buf ← m.buf.write? m.len [0]
  return (⟨m.len, m.cap, ask, []⟩, { m with buf := buf })

/-- The loop from read `k` on, with `n` reads to come that deliver something. -/
def readLoop (c : HttpClient) : ℕ → ℕ → Resp → Option (List ReadCall × Reply)
  | 0, k, m =>
      match growIfFull c k m with
      | .string m => do
          let r ← readLast m
          return ([r.1], .string r.2)
      | reply => some ([], reply)
  | n + 1, k, m =>
      match growIfFull c k m with
      | .string m => do
          let r ← readSome c k m
          let rest ← readLoop c n (k + 1) r.2
          return (r.1 :: rest.1, rest.2)
      | reply => some ([], reply)

/-- `int cap = clen > 0 ? clen + 1 : 512;`. -/
def firstCap (clen : ℤ) : ℕ := if clen > 0 then (clen + 1).toNat else 512

/-- `http_post_json`: the reads that it makes, and what it returns. -/
def httpPostJson (c : HttpClient) : Option (List ReadCall × Reply) :=
  if c.initOk = false then some ([], .null)
  else if c.openErr = 0 ∧ c.written ≥ 0 then
    if firstCap c.clen > intMax then some ([], .overflow)
    else
      match c.alloc 0 (firstCap c.clen) with
      | none => some ([], .null)
      | some junk => readLoop c c.reads 0 ⟨firstCap c.clen, Buffer.found (firstCap c.clen) junk, 0⟩
  else some ([], .null)

/-- The contract of `esp_http_client_read`: until the last call, between one byte and what was asked for. -/
def HttpClient.Ok (c : HttpClient) : Prop :=
  ∀ k < c.reads, ∀ ask, 1 ≤ ask → 1 ≤ (c.read k ask).length ∧ (c.read k ask).length ≤ ask

/-! ### What a run leaves -/

/-- A read that asks for something and writes below the capacity. -/
structure ReadCall.Ok (x : ReadCall) : Prop where
  asks : 1 ≤ x.ask
  room : x.len + 1 ≤ x.cap
  inside : x.len + x.ask < x.cap
  got_le : x.got.length ≤ x.ask
  cap_le : x.cap ≤ intMax

/-- All the bytes that were read. -/
def received (calls : List ReadCall) : List UInt8 := calls.flatMap ReadCall.got

/-- The reads `calls` after `body` had been read, with `n` more to deliver something, and the reply to all of it. -/
structure Collected (c : HttpClient) (n : ℕ) (body : List UInt8) (calls : List ReadCall) (reply : Reply) : Prop where
  calls_ok : ∀ x ∈ calls, x.Ok
  all_read : ∀ m, reply = .string m → calls.length = n + 1
  string : ∀ m, reply = .string m → m.len + 1 ≤ m.cap ∧ m.len = (body ++ received calls).length ∧
    m.buf.view (m.len + 1) = body ++ received calls ++ [0]
  null : reply = .null → ∃ k size, size ≤ intMax ∧ c.alloc k size = none
  overflow : reply = .overflow → 2 ^ 30 ≤ (body ++ received calls).length + 1

/-- The buffer between two rounds: it holds `body`. -/
structure Resp.Holds (m : Resp) (body : List UInt8) : Prop where
  len_eq : m.len = body.length
  room : m.len + 1 ≤ m.cap
  cap_le : m.cap ≤ intMax
  view_eq : m.buf.view m.len = body

theorem Collected.null_reply {c : HttpClient} {n : ℕ} {body : List UInt8}
    (h : ∃ k size, size ≤ intMax ∧ c.alloc k size = none) : Collected c n body [] .null :=
  ⟨fun _ hx => absurd hx List.not_mem_nil, fun _ => Reply.noConfusion, fun _ => Reply.noConfusion, fun _ => h,
    Reply.noConfusion⟩

theorem Collected.overflow_reply {c : HttpClient} {n : ℕ} {body : List UInt8} (h : 2 ^ 30 ≤ body.length + 1) :
    Collected c n body [] .overflow := by
  refine ⟨fun _ hx => absurd hx List.not_mem_nil, fun _ => Reply.noConfusion, fun _ => Reply.noConfusion,
    Reply.noConfusion, ?_⟩
  intro _
  rw [received, List.flatMap_nil, List.append_nil]
  exact h

/-- The read that ended the loop. -/
theorem Collected.last {c : HttpClient} {body : List UInt8} {x : ReadCall} {r : Resp} (hx : x.Ok)
    (hgot : x.got = []) (hroom : r.len + 1 ≤ r.cap) (hlen : r.len = body.length)
    (hview : r.buf.view (r.len + 1) = body ++ [0]) : Collected c 0 body [x] (.string r) := by
  have hall : body ++ received [x] = body := by
    rw [received, List.flatMap_singleton, hgot, List.append_nil]
  refine ⟨?_, fun _ _ => rfl, ?_, Reply.noConfusion, Reply.noConfusion⟩
  · intro y hy
    rw [List.mem_singleton.mp hy]
    exact hx
  · intro r' hr'
    cases hr'
    rw [hall]
    exact ⟨hroom, hlen, hview⟩

/-- One read before the others. -/
theorem Collected.cons {c : HttpClient} {n : ℕ} {body : List UInt8} {x : ReadCall} {calls : List ReadCall}
    {reply : Reply} (h : Collected c n (body ++ x.got) calls reply) (hx : x.Ok) :
    Collected c (n + 1) body (x :: calls) reply := by
  have hall : body ++ received (x :: calls) = body ++ x.got ++ received calls := by
    rw [received, List.flatMap_cons, ← List.append_assoc]
    rfl
  refine ⟨?_, fun m hm => congrArg Nat.succ (h.all_read m hm), ?_, h.null, ?_⟩
  · intro y hy
    rcases List.mem_cons.mp hy with rfl | hy
    · exact hx
    · exact h.calls_ok y hy
  · rw [hall]
    exact h.string
  · rw [hall]
    exact h.overflow

/-- **Making room**: afterwards a read can ask for a byte, unless the allocation failed or the size overflowed. -/
theorem growIfFull_cases (c : HttpClient) (k : ℕ) {m : Resp} {body : List UInt8} (h : m.Holds body) :
    (growIfFull c k m = .null ∧ ∃ k size, size ≤ intMax ∧ c.alloc k size = none) ∨
      (growIfFull c k m = .overflow ∧ 2 ^ 30 ≤ body.length + 1) ∨
      ∃ m', growIfFull c k m = .string m' ∧ m'.Holds body ∧ m'.len + 1 < m'.cap := by
  have hlen := h.len_eq
  have hroom := h.room
  have hcap := h.cap_le
  rw [growIfFull]
  by_cases hfull : m.len + 1 ≥ m.cap
  · rw [if_pos hfull]
    by_cases hbig : m.cap * 2 > intMax
    · rw [if_pos hbig]
      rw [intMax] at hbig
      exact .inr (.inl ⟨rfl, by omega⟩)
    · rw [if_neg hbig]
      cases halloc : c.alloc (k + 1) (m.cap * 2) with
      | none => exact .inl ⟨rfl, k + 1, m.cap * 2, Nat.not_lt.mp hbig, halloc⟩
      | some junk =>
          refine .inr (.inr ⟨_, rfl, ⟨hlen, ?_, Nat.not_lt.mp hbig, ?_⟩, ?_⟩)
          · show m.len + 1 ≤ m.cap * 2
            omega
          · rw [← h.view_eq]
            exact m.buf.view_resize (Nat.le_of_succ_le hroom) (Nat.le_mul_of_pos_right _ (by decide)) junk
          · show m.len + 1 < m.cap * 2
            omega
  · rw [if_neg hfull]
    exact .inr (.inr ⟨m, rfl, h, by omega⟩)

/-- A read into what is free of a buffer that is not full. -/
theorem Resp.Holds.read_ok {m : Resp} {body got : List UInt8} (h : m.Holds body) (hlt : m.len + 1 < m.cap)
    (hgot : got.length ≤ m.cap - (m.len + 1)) : ReadCall.Ok ⟨m.len, m.cap, m.cap - (m.len + 1), got⟩ := by
  refine ⟨?_, Nat.le_of_lt hlt, ?_, hgot, h.cap_le⟩
  · show 1 ≤ m.cap - (m.len + 1)
    omega
  · show m.len + (m.cap - (m.len + 1)) < m.cap
    omega

/-- **A read** that delivers something. -/
theorem readSome_eq {c : HttpClient} {k : ℕ} {m : Resp} {body : List UInt8} (h : m.Holds body)
    (hlt : m.len + 1 < m.cap)
    (hc : ∀ ask, 1 ≤ ask → 1 ≤ (c.read k ask).length ∧ (c.read k ask).length ≤ ask) :
    ∃ x m', readSome c k m = some (x, m') ∧ x.Ok ∧ m'.Holds (body ++ x.got) := by
  obtain ⟨_, hle⟩ := hc (m.cap - (m.len + 1)) (by omega)
  obtain ⟨buf, hwrite, hview⟩ := m.buf.view_write m.len (c.read k (m.cap - (m.len + 1)))
    (by omega)
  refine ⟨⟨m.len, m.cap, m.cap - (m.len + 1), c.read k (m.cap - (m.len + 1))⟩,
    { m with buf := buf, len := m.len + (c.read k (m.cap - (m.len + 1))).length }, ?_, h.read_ok hlt hle,
    ⟨?_, ?_, h.cap_le, ?_⟩⟩
  · rw [readSome, sub?_eq (Nat.le_of_lt hlt)]
    simp only [Option.bind_eq_bind, Option.bind_some]
    rw [hwrite]
    rfl
  · rw [List.length_append, ← h.len_eq]
  · show m.len + (c.read k (m.cap - (m.len + 1))).length + 1 ≤ m.cap
    omega
  · rw [← h.view_eq]
    exact hview

/-- **The last read.** -/
theorem readLast_eq {m : Resp} {body : List UInt8} (h : m.Holds body) (hlt : m.len + 1 < m.cap) :
    ∃ x m', readLast m = some (x, m') ∧ x.Ok ∧ x.got = [] ∧ m'.len + 1 ≤ m'.cap ∧ m'.len = body.length ∧
      m'.buf.view (m'.len + 1) = body ++ [0] := by
  obtain ⟨buf, hwrite, hview⟩ := m.buf.view_write m.len [0] (Nat.le_of_lt hlt)
  refine ⟨⟨m.len, m.cap, m.cap - (m.len + 1), []⟩, { m with buf := buf }, ?_, h.read_ok hlt (Nat.zero_le _), rfl,
    Nat.le_of_lt hlt, h.len_eq, ?_⟩
  · rw [readLast, sub?_eq (Nat.le_of_lt hlt), hwrite]
    rfl
  · rw [← h.view_eq]
    exact hview

/-- **The loop.**  However many reads are to come, each is asked for at least a byte and stays in the buffer, and
what is returned is all that was read. -/
theorem readLoop_collects {c : HttpClient} {n k : ℕ}
    (hc : ∀ i < k + n, ∀ ask, 1 ≤ ask → 1 ≤ (c.read i ask).length ∧ (c.read i ask).length ≤ ask)
    {m : Resp} {body : List UInt8} (h : m.Holds body) :
    ∃ calls reply, readLoop c n k m = some (calls, reply) ∧ Collected c n body calls reply := by
  induction n generalizing k m body with
  | zero =>
      rw [readLoop]
      rcases growIfFull_cases c k h with ⟨hnull, halloc⟩ | ⟨hover, hlong⟩ | ⟨m', hgrown, hm', hlt⟩
      · rw [hnull]
        exact ⟨[], .null, rfl, Collected.null_reply halloc⟩
      · rw [hover]
        exact ⟨[], .overflow, rfl, Collected.overflow_reply hlong⟩
      · obtain ⟨x, r, hread, hx, hgot, hroom, hlen, hview⟩ := readLast_eq hm' hlt
        rw [hgrown]
        dsimp only
        rw [hread]
        exact ⟨[x], .string r, rfl, Collected.last hx hgot hroom hlen hview⟩
  | succ n ih =>
      rw [readLoop]
      rcases growIfFull_cases c k h with ⟨hnull, halloc⟩ | ⟨hover, hlong⟩ | ⟨m', hgrown, hm', hlt⟩
      · rw [hnull]
        exact ⟨[], .null, rfl, Collected.null_reply halloc⟩
      · rw [hover]
        exact ⟨[], .overflow, rfl, Collected.overflow_reply hlong⟩
      · obtain ⟨x, r, hread, hx, hr⟩ := readSome_eq hm' hlt (hc k (by omega))
        obtain ⟨calls, reply, hloop, hcol⟩ := ih (k := k + 1) (fun i hi => hc i (by omega)) hr
        rw [hgrown]
        dsimp only
        rw [hread]
        simp only [Option.bind_eq_bind, Option.bind_some]
        rw [hloop]
        exact ⟨x :: calls, reply, rfl, hcol.cons hx⟩

theorem firstCap_pos (clen : ℤ) : 1 ≤ firstCap clen := by
  rw [firstCap]
  split <;> omega

/-- A chunked reply of two pieces, with no length announced. -/
def chunkedReply : HttpClient where
  initOk := true
  openErr := 0
  written := 2
  clen := 0
  alloc := fun _ _ => some fun _ => 0xAA
  read := fun k ask => if k = 0 then (List.replicate 600 0x61).take ask else [0x62]
  reads := 2

end RtkdataFw.Provisioning
