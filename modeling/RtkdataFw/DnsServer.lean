import RtkdataFw.Lib.DnsMessage

/-!
# The captive DNS of `dns_server.c`

One turn of the loop of `dns_task` takes a datagram and sends a reply or nothing.  The model lists every index
of `rx` that it reads and every index of `tx` that it writes.

* `walk_of_labels`, `labels_of_walk` — the walk ends behind the name, when there is one;
* `putAll_mem` — bytes stored one after the other;
* `reply_mem` — the reply, byte for byte;
* `parse_reply` — read by its counts it is the whole datagram;
* `dns_answers` — exactly the well-formed queries are answered, in bounds.
-/

namespace RtkdataFw.DnsServer

open RtkdataFw.Lib RtkdataFw.Lib.Dns

/-! ### The code -/

def dnsRxMax : ℕ := 512

def dnsTxMax : ℕ := dnsRxMax + 16

/-- `sizeof(dns_header_t)`. -/
def headerSize : ℕ := 12

/-- The receive buffer after `recvfrom` returned `n`; what stands behind the datagram is older. -/
structure Received where
  rx : List UInt8
  n : ℕ
  size : rx.length = dnsRxMax
  fits : n ≤ dnsRxMax

def Received.datagram (r : Received) : List UInt8 := r.rx.take r.n

def byteAt (rx : List UInt8) (i : ℕ) : UInt8 := rx.getD i 0

/-- Where the walk over the name stopped, whether it met a reserved length, and what it read. -/
structure Walk where
  p : ℕ
  bad : Bool
  reads : List ℕ
  deriving DecidableEq, Repr

/-- The walk from `p` on; `none` when it has not ended after so many steps. -/
def walk (rx : List UInt8) (n : ℕ) : ℕ → ℕ → Option Walk
  | 0, _ => none
  | fuel + 1, p =>
      if p < n then
        if byteAt rx p ≠ 0 then
          if byteAt rx p &&& 0xC0 ≠ 0 then some ⟨p, true, [p]⟩
          else (walk rx n fuel (p + ((byteAt rx p).toNat + 1))).map fun w => { w with reads := p :: w.reads }
        else some ⟨p, false, [p]⟩
      else some ⟨p, false, []⟩

/-- The transmit buffer, with the indices written so far. -/
structure Tx where
  mem : List UInt8
  writes : List ℕ
  deriving DecidableEq, Repr

def Tx.put (t : Tx) (i : ℕ) (b : UInt8) : Tx := ⟨t.mem.set i b, t.writes ++ [i]⟩

/-- Bytes stored from `pos` on. -/
def Tx.putAll (t : Tx) (pos : ℕ) : List UInt8 → Tx
  | [] => t
  | b :: bs => (t.put pos b).putAll (pos + 1) bs

/-- A field of the header in network order. -/
def Tx.putBe16 (t : Tx) (i : ℕ) (hi lo : UInt8) : Tx := (t.put i hi).put (i + 1) lo

/-- The answer: a pointer to offset 12, type A, class IN, 30 s, and the address. -/
def answerBytes (ip : List UInt8) : List UInt8 := [0xC0, 0x0C, 0, 1, 0, 1, 0, 0, 0, 0x1E, 0, 4] ++ ip

/-- An IPv4 address in network order. -/
structure Ip4 where
  bytes : List UInt8
  size : bytes.length = 4

/-- The reply to a question that ends before `qend`. -/
def buildReply (rx : List UInt8) (t : Tx) (qend qtype : ℕ) (ip : Ip4) : Tx × ℕ :=
  let t := t.putAll 0 (rx.take qend)
  let t := t.putBe16 2 0x81 0x80
  let t := t.putBe16 4 0 1
  let t := t.putBe16 8 0 0
  let t := t.putBe16 10 0 0
  if qtype = 1 then ((t.putBe16 6 0 1).putAll qend (answerBytes ip.bytes), qend + 16)
  else (t.putBe16 6 0 0, qend)

/-- One turn of the loop: what is sent, what was read of `rx` and what was written to `tx`. -/
structure Pass where
  reply : Option (List UInt8)
  reads : List ℕ
  writes : List ℕ
  deriving DecidableEq, Repr

/-- What follows the walk. -/
def afterWalk (r : Received) (tx : List UInt8) (ip : Ip4) (w : Walk) : Pass :=
  let reads := [2, 3, 4, 5] ++ w.reads
  if w.bad = true ∨ w.p ≥ r.n then ⟨none, reads, []⟩
  else if w.p + 1 + 4 > r.n then ⟨none, reads, []⟩
  else
    let reads := reads ++ [w.p + 1, w.p + 1 + 1]
    let qtype := be16 (byteAt r.rx (w.p + 1)) (byteAt r.rx (w.p + 1 + 1))
    let qend := w.p + 1 + 4
    if qend + 16 > dnsTxMax then ⟨none, reads, []⟩
    else
      let (t, pos) := buildReply r.rx ⟨tx, []⟩ qend qtype ip
      ⟨some (t.mem.take pos), reads ++ List.range qend, t.writes⟩

def dnsPass (r : Received) (tx : List UInt8) (ip : Ip4) (fuel : ℕ) : Option Pass :=
  if r.n < headerSize then some ⟨none, [], []⟩
  else if be16 (byteAt r.rx 2) (byteAt r.rx 3) &&& 0x8000 ≠ 0 then some ⟨none, [2, 3], []⟩
  else if be16 (byteAt r.rx 4) (byteAt r.rx 5) ≠ 1 then some ⟨none, [2, 3, 4, 5], []⟩
  else (walk r.rx r.n fuel headerSize).map (afterWalk r tx ip)

/-! ### Queries -/

/-- The question section at offset 12: labels, a zero byte, and four bytes more. -/
structure Asks (d : List UInt8) (labels : List (List UInt8)) (t₀ t₁ c₀ c₁ : UInt8) : Prop where
  valid : ValidLabels labels
  parts : ∃ rest, d.drop headerSize = nameWire labels ++ ([t₀, t₁, c₀, c₁] ++ rest)

/-- A query with exactly one question. -/
structure WellFormed (d : List UInt8) : Prop where
  header : headerSize ≤ d.length
  query : (byteAt d 2).toNat < 128
  one : be16 (byteAt d 4) (byteAt d 5) = 1
  asks : ∃ labels t₀ t₁ c₀ c₁, Asks d labels t₀ t₁ c₀ c₁

/-! ### The walk -/

theorem and_reserved : ∀ c < 256, c &&& 192 ≠ 0 ↔ 64 ≤ c := by decide +kernel

/-- A length byte with one of its two top bits set. -/
theorem reserved_iff (c : UInt8) : c &&& 0xC0 ≠ 0 ↔ 64 ≤ c.toNat := by
  have hlt := c.toNat_lt
  rw [← and_reserved c.toNat hlt, ne_eq, ne_eq, ← UInt8.toNat_inj, UInt8.toNat_and]
  rfl

/-- The byte at an index, and what follows it. -/
theorem drop_eq_byteAt {d : List UInt8} {p : ℕ} (hp : p < d.length) :
    d.drop p = byteAt d p :: d.drop (p + 1) := by
  rw [List.drop_eq_getElem_cons hp, byteAt, List.getD_eq_getElem _ _ hp]

theorem byteAt_of_drop {d : List UInt8} {p : ℕ} {c : UInt8} {s : List UInt8} (h : d.drop p = c :: s) :
    p < d.length ∧ byteAt d p = c ∧ d.drop (p + 1) = s := by
  have hp : p < d.length := by
    by_contra hge
    rw [List.drop_eq_nil_of_le (Nat.le_of_not_lt hge)] at h
    exact absurd h (by simp)
  rw [drop_eq_byteAt hp, List.cons.injEq] at h
  exact ⟨hp, h.1, h.2⟩

/-- Inside the datagram the buffer holds its bytes. -/
theorem byteAt_take (rx : List UInt8) {n i : ℕ} (h : i < n) : byteAt (rx.take n) i = byteAt rx i := by
  unfold byteAt
  rw [List.getD_eq_getElem?_getD, List.getElem?_take_of_lt h, ← List.getD_eq_getElem?_getD]

/-- The walk does not go back. -/
theorem walk_forward {rx : List UInt8} {n fuel p : ℕ} {w : Walk} (h : walk rx n fuel p = some w) :
    p ≤ w.p := by
  induction fuel generalizing p w with
  | zero => exact absurd h (by simp [walk])
  | succ fuel ih =>
      rw [walk] at h
      split at h
      · split at h
        · split at h
          · cases h
            exact Nat.le_refl p
          · obtain ⟨w', hw', rfl⟩ := Option.map_eq_some_iff.mp h
            have hle := ih hw'
            show p ≤ w'.p
            omega
        · cases h
          exact Nat.le_refl p
      · cases h
        exact Nat.le_refl p

/-- Enough steps for the rest of the datagram are enough for the walk, which reads nothing outside of it. -/
theorem walk_ends (rx : List UInt8) {n fuel p : ℕ} (hfuel : n - p < fuel) :
    ∃ w, walk rx n fuel p = some w ∧ ∀ i ∈ w.reads, i < n := by
  induction fuel generalizing p with
  | zero => exact absurd hfuel (Nat.not_lt_zero _)
  | succ fuel ih =>
      rw [walk]
      split
      · rename_i hp
        have hread : ∀ i ∈ [p], i < n := fun i hi => List.mem_singleton.mp hi ▸ hp
        split
        · split
          · exact ⟨_, rfl, hread⟩
          · obtain ⟨w, hw, hreads⟩ := ih (p := p + ((byteAt rx p).toNat + 1)) (by omega)
            rw [hw]
            refine ⟨_, rfl, ?_⟩
            intro i hi
            rcases List.mem_cons.mp hi with rfl | hi
            · exact hp
            · exact hreads i hi
        · exact ⟨_, rfl, hread⟩
      · exact ⟨_, rfl, List.forall_mem_nil _⟩

/-- A walk that starts at a name ends at its zero byte. -/
theorem walk_of_labels {rx : List UInt8} {n fuel p : ℕ} {labels : List (List UInt8)} {rest : List UInt8}
    {w : Walk} (hvalid : ValidLabels labels) (hname : (rx.take n).drop p = nameWire labels ++ rest)
    (hw : walk rx n fuel p = some w) :
    w.bad = false ∧ w.p + 1 = p + (nameWire labels).length ∧ w.p < n := by
  have hlen : (rx.take n).length ≤ n := List.length_take_le n rx
  induction labels generalizing fuel p w with
  | nil =>
      obtain ⟨hp, hbyte, -⟩ := byteAt_of_drop hname
      have hpn : p < n := by omega
      cases fuel with
      | zero => exact absurd hw (by simp [walk])
      | succ fuel =>
          rw [byteAt_take rx hpn] at hbyte
          rw [walk, if_pos hpn, if_neg (not_not.mpr hbyte), Option.some.injEq] at hw
          rw [← hw]
          exact ⟨rfl, rfl, hpn⟩
  | cons l ls ih =>
      have hl := hvalid l List.mem_cons_self
      have hlabel := toNat_labelLength hl.2
      rw [nameWire_cons, List.cons_append, List.append_assoc] at hname
      obtain ⟨hp, hbyte, htail⟩ := byteAt_of_drop hname
      have hpn : p < n := by omega
      cases fuel with
      | zero => exact absurd hw (by simp [walk])
      | succ fuel =>
          rw [byteAt_take rx hpn] at hbyte
          have hnext : (rx.take n).drop (p + (l.length + 1)) = nameWire ls ++ rest := by
            rw [(by omega : p + (l.length + 1) = p + 1 + l.length), ← List.drop_drop, htail, List.drop_left]
          rw [walk, if_pos hpn, if_pos (hbyte ▸ labelLength_ne_zero hl),
            if_neg (by rw [reserved_iff, hbyte, hlabel]; omega), hbyte, hlabel] at hw
          obtain ⟨w', hw', rfl⟩ := Option.map_eq_some_iff.mp hw
          obtain ⟨hbad, hend, hin⟩ := ih (fun m hm => hvalid m (List.mem_cons_of_mem _ hm)) hnext hw'
          refine ⟨hbad, ?_, hin⟩
          rw [nameWire_cons, List.length_cons, List.length_append]
          show w'.p + 1 = _
          omega

/-- The label between a length byte and the next one. -/
theorem drop_label {d : List UInt8} {p k : ℕ} (h : p + 1 + k ≤ d.length) :
    ∃ l, l.length = k ∧ d.drop (p + 1) = l ++ d.drop (p + (k + 1)) := by
  refine ⟨(d.drop (p + 1)).take k, ?_, ?_⟩
  · rw [List.length_take, List.length_drop]
    omega
  · have hskip : d.drop (p + (k + 1)) = (d.drop (p + 1)).drop k := by
      rw [List.drop_drop, Nat.add_assoc, Nat.add_comm 1 k]
    rw [hskip, List.take_append_drop]

/-- A walk that ends inside the datagram, and not at a reserved length, ends at the zero byte of a name. -/
theorem labels_of_walk {rx : List UInt8} {n fuel p : ℕ} {w : Walk} (hn : n ≤ rx.length)
    (hw : walk rx n fuel p = some w) (hbad : w.bad = false) (hin : w.p < n) :
    ∃ labels, ValidLabels labels ∧ (rx.take n).drop p = nameWire labels ++ (rx.take n).drop (w.p + 1) := by
  have hlen : (rx.take n).length = n := by
    rw [List.length_take]
    omega
  induction fuel generalizing p w with
  | zero => exact absurd hw (by simp [walk])
  | succ fuel ih =>
      rw [walk] at hw
      split at hw
      · rename_i hpn
        have hdrop := drop_eq_byteAt (d := rx.take n) (p := p) (by omega)
        rw [byteAt_take rx hpn] at hdrop
        split at hw
        · rename_i hbyte
          split at hw
          · rw [Option.some.injEq] at hw
            rw [← hw] at hbad
            exact absurd hbad (by simp)
          · rename_i hreserved
            rw [reserved_iff] at hreserved
            obtain ⟨w', hw', rfl⟩ := Option.map_eq_some_iff.mp hw
            obtain ⟨labels, hvalid, hrest⟩ := ih hw' hbad hin
            have hwalked := walk_forward hw'
            have hpos : 0 < (byteAt rx p).toNat := by
              rw [Nat.pos_iff_ne_zero]
              exact fun hzero => hbyte (UInt8.toNat_inj.mp hzero)
            have hin' : w'.p < n := hin
            obtain ⟨l, hl, hsplit⟩ := drop_label (d := rx.take n) (p := p) (k := (byteAt rx p).toNat) (by omega)
            refine ⟨l :: labels, ?_, ?_⟩
            · intro l' hl'
              rcases List.mem_cons.mp hl' with rfl | hl'
              · exact ⟨by omega, by omega⟩
              · exact hvalid l' hl'
            · rw [hdrop, hsplit, hrest, nameWire_cons, hl, UInt8.ofNat_toNat, List.cons_append, List.append_assoc]
        · rename_i hbyte
          rw [Option.some.injEq] at hw
          rw [← hw]
          refine ⟨[], by simp [ValidLabels], ?_⟩
          rw [hdrop, not_not.mp hbyte]
          rfl
      · rename_i hpn
        rw [Option.some.injEq] at hw
        rw [← hw] at hin
        exact absurd hin hpn

/-! ### The reply -/

theorem putAll_mem (t : Tx) (pos : ℕ) (bs : List UInt8) (h : pos + bs.length ≤ t.mem.length) :
    (t.putAll pos bs).mem = t.mem.take pos ++ (bs ++ t.mem.drop (pos + bs.length)) := by
  induction bs generalizing t pos with
  | nil => simp [Tx.putAll]
  | cons b bs ih =>
      rw [List.length_cons] at h
      have hset : (t.put pos b).mem = t.mem.set pos b := rfl
      have hlen : pos < t.mem.length := by omega
      rw [Tx.putAll, ih _ _ (by rw [hset, List.length_set]; omega), hset, List.length_cons]
      have htake : (t.mem.set pos b).take (pos + 1) = t.mem.take pos ++ [b] := by
        rw [List.set_eq_take_append_cons_drop, if_pos hlen, List.take_append, List.length_take,
          Nat.min_eq_left (Nat.le_of_lt hlen), Nat.add_sub_cancel_left, List.take_take,
          Nat.min_eq_right (Nat.le_succ pos)]
        rfl
      have hdrop : (t.mem.set pos b).drop (pos + 1 + bs.length) = t.mem.drop (pos + (bs.length + 1)) := by
        rw [List.drop_set_of_lt (by omega)]
        congr 1
        omega
      rw [htake, hdrop, List.append_assoc, List.singleton_append, List.cons_append]

theorem putAll_writes (t : Tx) (pos : ℕ) (bs : List UInt8) :
    (t.putAll pos bs).writes = t.writes ++ List.range' pos bs.length := by
  induction bs generalizing t pos with
  | nil => simp [Tx.putAll]
  | cons b bs ih =>
      rw [Tx.putAll, ih, List.length_cons, List.range'_succ]
      simp [Tx.put]

/-- The header of a reply: the query's id, a response without error, and its counts. -/
def replyHeader (id₀ id₁ anCount : UInt8) : List UInt8 := [id₀, id₁, 0x81, 0x80, 0, 1, 0, anCount, 0, 0, 0, 0]

/-- The answer section that belongs to a question of this type. -/
def answerSection (qtype : ℕ) (ip : Ip4) : List UInt8 := if qtype = 1 then answerBytes ip.bytes else []

theorem answerBytes_length (ip : Ip4) : (answerBytes ip.bytes).length = 16 := by
  unfold answerBytes
  rw [List.length_append, ip.size]
  rfl

/-- The first twelve bytes of a buffer that has them. -/
theorem header_split {rx : List UInt8} {qend : ℕ} (hq : headerSize ≤ qend) (hlen : qend ≤ rx.length) :
    rx.take qend = (List.range headerSize).map (byteAt rx) ++ (rx.take qend).drop headerSize := by
  have htake : (rx.take qend).take headerSize = (List.range headerSize).map (byteAt rx) := by
    apply List.ext_getElem
    · simp only [List.length_take, List.length_map, List.length_range]
      omega
    · intro i h₁ h₂
      rw [List.length_map, List.length_range] at h₂
      rw [List.getElem_take, List.getElem_take, List.getElem_map, List.getElem_range, byteAt,
        List.getD_eq_getElem]
  rw [← htake, List.take_append_drop]

/-- The front of `rx`, copied to the front of `tx`. -/
theorem copied_front {rx tx : List UInt8} {qend : ℕ} (hlen : qend ≤ rx.length) (htx : qend ≤ tx.length) :
    ((Tx.mk tx []).putAll 0 (rx.take qend)).mem = rx.take qend ++ tx.drop qend ∧
      ((Tx.mk tx []).putAll 0 (rx.take qend)).writes = List.range' 0 qend := by
  have htake : (rx.take qend).length = qend := List.length_take_of_le hlen
  constructor
  · rw [putAll_mem _ _ _ (by rw [htake, Nat.zero_add]; exact htx), htake, List.take_zero, List.nil_append,
      Nat.zero_add]
  · rw [putAll_writes, htake, List.nil_append]

/-- The fields that `dns_task` stores, on twelve bytes of the query. -/
theorem header_stored {t : Tx} {b : ℕ → UInt8} {rest : List UInt8}
    (hmem : t.mem = (List.range headerSize).map b ++ rest) (lo : UInt8) :
    ((((t.putBe16 2 0x81 0x80).putBe16 4 0 1).putBe16 8 0 0).putBe16 10 0 0).putBe16 6 0 lo =
      ⟨replyHeader (b 0) (b 1) lo ++ rest, t.writes ++ [2, 3, 4, 5, 8, 9, 10, 11, 6, 7]⟩ := by
  obtain ⟨mem, writes⟩ := t
  dsimp only at hmem
  rw [hmem]
  simp only [Tx.putBe16, Tx.put, List.append_assoc]
  rfl

/-- The indices of the copy and of the header. -/
theorem question_writes {qend : ℕ} (hq : headerSize ≤ qend) :
    ∀ i ∈ List.range' 0 qend ++ [2, 3, 4, 5, 8, 9, 10, 11, 6, 7], i < qend := by
  intro i hi
  unfold headerSize at hq
  rcases List.mem_append.mp hi with hi | hi
  · have hrange := List.mem_range'_1.mp hi
    omega
  · simp only [List.mem_cons, List.not_mem_nil, or_false] at hi
    omega

/-- **The reply, byte for byte**, and what is written for it. -/
theorem reply_mem {rx tx : List UInt8} {qend : ℕ} (qtype : ℕ) (ip : Ip4) (hq : headerSize ≤ qend)
    (hlen : qend ≤ rx.length) (htx : qend + 16 ≤ tx.length) :
    (buildReply rx ⟨tx, []⟩ qend qtype ip).1.mem.take (buildReply rx ⟨tx, []⟩ qend qtype ip).2 =
        replyHeader (byteAt rx 0) (byteAt rx 1) (if qtype = 1 then 1 else 0) ++
          ((rx.take qend).drop headerSize ++ answerSection qtype ip) ∧
      ∀ i ∈ (buildReply rx ⟨tx, []⟩ qend qtype ip).1.writes, i < qend + 16 := by
  obtain ⟨hcopied, hwrites⟩ := @copied_front rx tx qend hlen (by omega)
  rw [header_split hq hlen, List.append_assoc] at hcopied
  have hheader := header_stored hcopied
  rw [← header_split hq hlen, hwrites] at hheader
  have hstored := question_writes hq
  have hfront : ∀ lo, (replyHeader (byteAt rx 0) (byteAt rx 1) lo ++
      (rx.take qend).drop headerSize).length = qend := by
    intro lo
    rw [List.length_append, List.length_drop, List.length_take_of_le hlen]
    show headerSize + (qend - headerSize) = qend
    omega
  unfold buildReply answerSection
  dsimp only
  by_cases ha : qtype = 1
  · rw [if_pos ha, if_pos ha, if_pos ha, hheader 1]
    constructor
    · have hkept : (replyHeader (byteAt rx 0) (byteAt rx 1) 1 ++
          ((rx.take qend).drop headerSize ++ tx.drop qend)).take qend =
            replyHeader (byteAt rx 0) (byteAt rx 1) 1 ++ (rx.take qend).drop headerSize := by
        rw [← List.append_assoc, List.take_left' (hfront 1)]
      rw [putAll_mem _ _ _ (by
        rw [← List.append_assoc, List.length_append, hfront, List.length_drop, answerBytes_length]
        omega)]
      dsimp only
      rw [hkept, ← List.append_assoc, List.take_left' (by rw [List.length_append, hfront, answerBytes_length]),
        List.append_assoc]
    · rw [putAll_writes, answerBytes_length]
      intro i hi
      rcases List.mem_append.mp hi with hi | hi
      · exact Nat.lt_add_right 16 (hstored i hi)
      · exact (List.mem_range'_1.mp hi).2
  · rw [if_neg ha, if_neg ha, if_neg ha, hheader 0]
    refine ⟨?_, fun i hi => Nat.lt_add_right 16 (hstored i hi)⟩
    dsimp only
    rw [← List.append_assoc, List.take_left' (hfront 0), List.append_nil]

/-! ### What the reply says -/

/-- The reply to a question. -/
def replyTo (id₀ id₁ : UInt8) (labels : List (List UInt8)) (t₀ t₁ c₀ c₁ : UInt8) (ip : Ip4) : List UInt8 :=
  replyHeader id₀ id₁ (if be16 t₀ t₁ = 1 then 1 else 0) ++
    ((nameWire labels ++ [t₀, t₁, c₀, c₁]) ++ answerSection (be16 t₀ t₁) ip)

/-- The record of an A answer. -/
def aRecord (ip : Ip4) : Record := ⟨⟨[], some headerSize⟩, 1, 1, 30, ip.bytes⟩

/-- What the reply to a question says. -/
def replyMessage (id₀ id₁ : UInt8) (labels : List (List UInt8)) (t₀ t₁ c₀ c₁ : UInt8) (ip : Ip4) : Message :=
  ⟨be16 id₀ id₁, 0x8180, [⟨⟨labels, none⟩, be16 t₀ t₁, be16 c₀ c₁⟩],
    if be16 t₀ t₁ = 1 then [aRecord ip] else [], [], []⟩

theorem readRecord_answer (ip : Ip4) : readRecord (answerBytes ip.bytes) = some (aRecord ip, []) := by
  have hpointer : be16 (0xC0 - 192) 0x0C = headerSize := by decide
  have hname : readName ((answerBytes ip.bytes).length + 1) (answerBytes ip.bytes) =
      some (⟨[], some headerSize⟩, [0, 1, 0, 1, 0, 0, 0, 0x1E, 0, 4] ++ (ip.bytes ++ [])) := by
    rw [← hpointer, List.append_nil]
    exact readName_pointer (by decide) _
  rw [readRecord_of hname ip.size]
  rfl

/-- **Read by its counts, the reply is the whole datagram.** -/
theorem parse_reply {labels : List (List UInt8)} (h : ValidLabels labels) (id₀ id₁ t₀ t₁ c₀ c₁ : UInt8)
    (ip : Ip4) :
    parse (replyTo id₀ id₁ labels t₀ t₁ c₀ c₁ ip) =
      some (replyMessage id₀ id₁ labels t₀ t₁ c₀ c₁ ip, []) := by
  have hquestions : readMany readQuestion (be16 0 1)
      (nameWire labels ++ [t₀, t₁, c₀, c₁] ++ answerSection (be16 t₀ t₁) ip) =
        some ([⟨⟨labels, none⟩, be16 t₀ t₁, be16 c₀ c₁⟩], answerSection (be16 t₀ t₁) ip) := by
    rw [(by decide : be16 0 1 = 1), readMany, readQuestion_wire h]
    rfl
  have hempty : readMany readRecord (be16 0 0) [] = some ([], []) := rfl
  unfold replyTo replyMessage replyHeader
  by_cases ha : be16 t₀ t₁ = 1
  · have hanswers : readMany readRecord (be16 0 1) (answerSection (be16 t₀ t₁) ip) =
        some ([aRecord ip], []) := by
      rw [answerSection, if_pos ha, (by decide : be16 0 1 = 1), readMany, readRecord_answer]
      rfl
    rw [if_pos ha, if_pos ha]
    exact parse_of hquestions hanswers hempty hempty
  · have hanswers : readMany readRecord (be16 0 0) (answerSection (be16 t₀ t₁) ip) = some ([], []) := by
      rw [answerSection, if_neg ha]
      exact hempty
    rw [if_neg ha, if_neg ha]
    exact parse_of hquestions hanswers hempty hempty

/-! ### The queries that are answered -/

section Question

variable {r : Received} {fuel : ℕ} {w : Walk}

theorem datagram_length (r : Received) : r.datagram.length = r.n := by
  have hfits := r.fits
  rw [← r.size] at hfits
  exact List.length_take_of_le hfits

theorem byteAt_datagram (r : Received) {i : ℕ} (h : i < r.n) : byteAt r.datagram i = byteAt r.rx i :=
  byteAt_take r.rx h

/-- Where a question stands, the walk ends at its zero byte and leaves room for type and class. -/
theorem walk_of_asks {labels : List (List UInt8)} {t₀ t₁ c₀ c₁ : UInt8}
    (hw : walk r.rx r.n fuel headerSize = some w) (h : Asks r.datagram labels t₀ t₁ c₀ c₁) :
    w.bad = false ∧ w.p < r.n ∧ w.p + 1 + 4 ≤ r.n := by
  obtain ⟨rest, hparts⟩ := h.parts
  obtain ⟨hbad, hend, hin⟩ := walk_of_labels h.valid hparts hw
  refine ⟨hbad, hin, ?_⟩
  have hlen := congrArg List.length hparts
  rw [List.length_drop, datagram_length, List.length_append, List.length_append] at hlen
  have hfour : [t₀, t₁, c₀, c₁].length = 4 := rfl
  omega

/-- The four bytes behind the zero byte, and what follows them. -/
theorem drop_four {d : List UInt8} {p : ℕ} (h : p + 4 ≤ d.length) :
    d.drop p = [byteAt d p, byteAt d (p + 1), byteAt d (p + 2), byteAt d (p + 3)] ++ d.drop (p + 4) := by
  rw [drop_eq_byteAt (by omega), drop_eq_byteAt (p := p + 1) (by omega),
    drop_eq_byteAt (p := p + 1 + 1) (by omega), drop_eq_byteAt (p := p + 1 + 1 + 1) (by omega)]
  rfl

/-- Where the walk ends with room for type and class, a question stands, and it is what is copied. -/
theorem asks_of_walk (hw : walk r.rx r.n fuel headerSize = some w) (hbad : w.bad = false)
    (hroom : w.p + 1 + 4 ≤ r.n) :
    ∃ labels c₀ c₁, Asks r.datagram labels (byteAt r.rx (w.p + 1)) (byteAt r.rx (w.p + 1 + 1)) c₀ c₁ ∧
      (r.rx.take (w.p + 1 + 4)).drop headerSize =
        nameWire labels ++ [byteAt r.rx (w.p + 1), byteAt r.rx (w.p + 1 + 1), c₀, c₁] := by
  have hn : r.n ≤ r.rx.length := r.size ▸ r.fits
  obtain ⟨labels, hvalid, hname⟩ := labels_of_walk hn hw hbad (by omega)
  obtain ⟨-, hend, -⟩ := walk_of_labels hvalid hname hw
  have hfour := drop_four (d := r.datagram) (p := w.p + 1) (by rw [datagram_length]; exact hroom)
  rw [byteAt_datagram r (by omega), byteAt_datagram r (i := w.p + 1 + 1) (by omega)] at hfour
  have hparts : r.datagram.drop headerSize = nameWire labels ++ ([byteAt r.rx (w.p + 1),
      byteAt r.rx (w.p + 1 + 1), byteAt r.datagram (w.p + 1 + 2), byteAt r.datagram (w.p + 1 + 3)] ++
        r.datagram.drop (w.p + 1 + 4)) := by
    rw [← hfour]
    exact hname
  refine ⟨labels, _, _, ⟨hvalid, _, hparts⟩, ?_⟩
  have hcopy : (r.rx.take (w.p + 1 + 4)).drop headerSize =
      (r.datagram.drop headerSize).take (w.p + 1 + 4 - headerSize) := by
    rw [List.drop_take, Received.datagram, List.drop_take, List.take_take, Nat.min_eq_left (by omega)]
  rw [hcopy, hparts, ← List.append_assoc]
  apply List.take_left'
  rw [List.length_append]
  show (nameWire labels).length + 4 = _
  omega

/-- The reply to a walk that ends well is the reply to its question. -/
theorem replyTo_of_walk {tx : List UInt8} (htx : tx.length = dnsTxMax) (ip : Ip4)
    (hw : walk r.rx r.n fuel headerSize = some w) (hbad : w.bad = false) (hroom : w.p + 1 + 4 ≤ r.n) :
    ∃ labels t₀ t₁ c₀ c₁, Asks r.datagram labels t₀ t₁ c₀ c₁ ∧
      (buildReply r.rx ⟨tx, []⟩ (w.p + 1 + 4) (be16 (byteAt r.rx (w.p + 1)) (byteAt r.rx (w.p + 1 + 1)))
          ip).1.mem.take (buildReply r.rx ⟨tx, []⟩ (w.p + 1 + 4)
            (be16 (byteAt r.rx (w.p + 1)) (byteAt r.rx (w.p + 1 + 1))) ip).2 =
        replyTo (byteAt r.datagram 0) (byteAt r.datagram 1) labels t₀ t₁ c₀ c₁ ip := by
  have hforward := walk_forward hw
  have hn : r.n ≤ dnsRxMax := r.fits
  have hsize := r.size
  have hq : headerSize ≤ w.p + 1 + 4 := by omega
  have hmax : dnsTxMax = dnsRxMax + 16 := rfl
  obtain ⟨labels, c₀, c₁, hasks, hcopy⟩ := asks_of_walk hw hbad hroom
  refine ⟨labels, _, _, c₀, c₁, hasks, ?_⟩
  have hpos : 1 < r.n := by
    unfold headerSize at hforward
    omega
  rw [(reply_mem _ ip hq (by omega) (by omega)).1, hcopy, byteAt_datagram r (by omega),
    byteAt_datagram r hpos]
  rfl

end Question

/-! ### One turn -/

/-- What a turn of the loop must do with a datagram. -/
structure Correct (r : Received) (ip : Ip4) (pass : Pass) : Prop where
  reads : ∀ i ∈ pass.reads, i < r.n
  writes : ∀ i ∈ pass.writes, i < dnsTxMax
  answered : pass.reply.isSome = true ↔ WellFormed r.datagram
  answer : ∀ reply, pass.reply = some reply → ∃ labels t₀ t₁ c₀ c₁, Asks r.datagram labels t₀ t₁ c₀ c₁ ∧
    reply = replyTo (byteAt r.datagram 0) (byteAt r.datagram 1) labels t₀ t₁ c₀ c₁ ip ∧
    parse reply = some (replyMessage (byteAt r.datagram 0) (byteAt r.datagram 1) labels t₀ t₁ c₀ c₁ ip, [])

/-- A turn that sends nothing is right where the datagram is no well-formed query. -/
theorem silent_correct {r : Received} {reads : List ℕ} (ip : Ip4) (hreads : ∀ i ∈ reads, i < r.n)
    (h : ¬ WellFormed r.datagram) : Correct r ip ⟨none, reads, []⟩ := by
  refine ⟨hreads, List.forall_mem_nil _, ?_, fun reply hsent => absurd hsent (by simp)⟩
  simpa using h

/-- The walk decides the rest, when the header is that of a query with one question. -/
theorem walk_correct {r : Received} {tx : List UInt8} {fuel : ℕ} {w : Walk} (htx : tx.length = dnsTxMax)
    (ip : Ip4) (hheader : headerSize ≤ r.n) (hquery : (byteAt r.datagram 2).toNat < 128)
    (hone : be16 (byteAt r.datagram 4) (byteAt r.datagram 5) = 1)
    (hw : walk r.rx r.n fuel headerSize = some w) (hreads : ∀ i ∈ [2, 3, 4, 5] ++ w.reads, i < r.n) :
    Correct r ip (afterWalk r tx ip w) := by
  have hn : r.n ≤ dnsRxMax := r.fits
  have hmax : dnsTxMax = dnsRxMax + 16 := rfl
  have hforward := walk_forward hw
  unfold afterWalk
  dsimp only
  split
  · rename_i hstop
    refine silent_correct ip hreads ?_
    intro hwell
    obtain ⟨labels, t₀, t₁, c₀, c₁, hasks⟩ := hwell.asks
    obtain ⟨hbad, hin, -⟩ := walk_of_asks hw hasks
    rcases hstop with hstop | hstop
    · exact absurd (hbad.symm.trans hstop) (by simp)
    · omega
  rename_i hend
  split
  · rename_i hstop
    refine silent_correct ip hreads ?_
    intro hwell
    obtain ⟨labels, t₀, t₁, c₀, c₁, hasks⟩ := hwell.asks
    obtain ⟨-, -, hroom⟩ := walk_of_asks hw hasks
    omega
  rename_i hroom
  have hbad : w.bad = false := by
    rw [← Bool.not_eq_true]
    exact fun hbad => hend (Or.inl hbad)
  obtain ⟨labels, t₀, t₁, c₀, c₁, hasks, hreply⟩ :=
    replyTo_of_walk htx ip hw hbad (Nat.le_of_not_lt hroom)
  have hwrites := (@reply_mem r.rx tx (w.p + 1 + 4) (be16 (byteAt r.rx (w.p + 1)) (byteAt r.rx (w.p + 1 + 1)))
    ip (by omega) (by rw [r.size]; omega) (by omega)).2
  -- a question that fits the receive buffer leaves sixteen bytes of the other
  rw [if_neg (by omega)]
  refine ⟨?_, ?_, ?_, ?_⟩
  · intro i hi
    rcases List.mem_append.mp hi with hi | hi
    · rcases List.mem_append.mp hi with hi | hi
      · exact hreads i hi
      · simp only [List.mem_cons, List.not_mem_nil, or_false] at hi
        omega
    · rw [List.mem_range] at hi
      omega
  · intro i hi
    have hwritten := hwrites i hi
    omega
  · exact iff_of_true rfl ⟨by rwa [datagram_length], hquery, hone, labels, t₀, t₁, c₀, c₁, hasks⟩
  · intro reply hsent
    have hsent' := (Option.some.inj hsent).symm.trans hreply
    refine ⟨labels, t₀, t₁, c₀, c₁, hasks, hsent', ?_⟩
    rw [hsent']
    exact parse_reply hasks.valid _ _ _ _ _ _ ip

/-- **Exactly the well-formed queries are answered**, in bounds, with the question and its answer. -/
theorem dns_answers (r : Received) {tx : List UInt8} (htx : tx.length = dnsTxMax) (ip : Ip4) {fuel : ℕ}
    (hfuel : r.n < fuel) : ∃ pass, dnsPass r tx ip fuel = some pass ∧ Correct r ip pass := by
  have hlen := datagram_length r
  unfold dnsPass
  split
  · rename_i hshort
    refine ⟨_, rfl, silent_correct ip (by simp) ?_⟩
    intro hwell
    have hheader := hwell.header
    omega
  rename_i hheader
  have hfields : ∀ i ∈ [2, 3, 4, 5], i < r.n := by
    intro i hi
    simp only [List.mem_cons, List.not_mem_nil, or_false] at hi
    unfold headerSize at hheader
    omega
  have hbyte : ∀ i, i ∈ [2, 3, 4, 5] → byteAt r.datagram i = byteAt r.rx i :=
    fun i hi => byteAt_datagram r (hfields i hi)
  split
  · rename_i hresponse
    refine ⟨_, rfl, silent_correct ip (fun i hi => hfields i (by simp at hi ⊢; omega)) ?_⟩
    intro hwell
    have hquery := hwell.query
    rw [be16_and_top] at hresponse
    rw [hbyte 2 (by simp)] at hquery
    omega
  rename_i hquery
  rw [be16_and_top, ← hbyte 2 (by simp)] at hquery
  split
  · rename_i hcount
    refine ⟨_, rfl, silent_correct ip hfields ?_⟩
    intro hwell
    have hone := hwell.one
    rw [hbyte 4 (by simp), hbyte 5 (by simp)] at hone
    exact hcount hone
  rename_i hone
  rw [not_not, ← hbyte 4 (by simp), ← hbyte 5 (by simp)] at hone
  obtain ⟨w, hw, hreads⟩ := @walk_ends r.rx r.n fuel headerSize (by omega)
  rw [hw, Option.map_some]
  refine ⟨_, rfl, walk_correct htx ip (Nat.le_of_not_lt hheader) (Nat.lt_of_not_le hquery) hone hw ?_⟩
  intro i hi
  rcases List.mem_append.mp hi with hi | hi
  · exact hfields i hi
  · exact hreads i hi

/-- A query for the address of `a`, in a receive buffer of zeros. -/
def queryA : Received where
  rx := [0x12, 0x34, 1, 0, 0, 1, 0, 0, 0, 0, 0, 0, 1, 97, 0, 0, 1, 0, 1] ++ List.replicate 493 0
  n := 19
  size := by
    rw [List.length_append, List.length_replicate]
    rfl
  fits := by decide

theorem dns_answers_queryA : ∃ pass,
    dnsPass queryA (List.replicate dnsTxMax 0) ⟨[192, 168, 4, 1], rfl⟩ 20 = some pass ∧
      Correct queryA ⟨[192, 168, 4, 1], rfl⟩ pass :=
  dns_answers queryA List.length_replicate ⟨[192, 168, 4, 1], rfl⟩ (by decide)

end RtkdataFw.DnsServer
