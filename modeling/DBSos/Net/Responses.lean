import DBSos.Net.Names

/-!
# Answers in a DNS response

`resolve` skips one question and walks over the answers to the first address. Every step is
checked against the length of the payload before it is read.
-/

namespace DBSos.Net.Dns

/-- `rd16`. `none` is the panic of an index beyond the packet. -/
def rd16 (pkt : List Byte) (off : Nat) : Option (BitVec 16) := do
  let high ← pkt[off]?
  let low ← pkt[off + 1]?
  some (u16From high low)

/-- The four bytes that `copy_from_slice` takes for the address. -/
def addressAt (pkt : List Byte) (off : Nat) : Option Ipv4 := do
  let first ← pkt[off]?
  let second ← pkt[off + 1]?
  let third ← pkt[off + 2]?
  let fourth ← pkt[off + 3]?
  some #v[first, second, third, fourth]

/-- The loop over the answers from an offset on: an address, if it meets one. -/
def answerFrom (pl : List Byte) : (left off : Nat) → Option (Option Ipv4)
  | 0, _ => some none
  | left + 1, off =>
    if off + 10 > pl.length then some none
    else do
      let t ← pl[off]?
      let nameSkip := if t &&& 0xC0 = 0xC0 then 2 else (readQnameLen pl off).getD 0
      let rr := off + nameSkip
      if rr + 10 > pl.length then some none
      else do
        let rtype ← rd16 pl rr
        let rdlen ← rd16 pl (rr + 8)
        let rr := rr + 10
        if rtype = 1 ∧ rdlen = 4 ∧ rr + 4 ≤ pl.length then do
          let ip ← addressAt pl rr
          some (some ip)
        else answerFrom pl left (rr + rdlen.toNat)

/-- What `resolve` makes of a payload: it waits on with the slot as it is or cleared, or it has
an address. -/
inductive Reading where
  | keep
  | clear
  | found (ip : Ipv4)
  deriving DecidableEq

/-- The part of the loop of `resolve` behind `rx_payload`. -/
def readResponse (dnsId : BitVec 16) (pl : List Byte) : Option Reading :=
  if pl.length < 12 then some .keep
  else do
    let id ← rd16 pl 0
    if id ≠ dnsId then some .clear
    else do
      let ancount ← rd16 pl 6
      if ancount = 0 then some .clear
      else
        match readQnameLen pl 12 with
        | none => some .keep
        | some qlen => do
          let answer ← answerFrom pl ancount.toNat (12 + qlen + 4)
          match answer with
          | some ip => some (.found ip)
          | none => some .keep

/-! ## Bounds -/

theorem rd16_inside (pkt : List Byte) (off : Nat) (inside : off + 2 ≤ pkt.length) :
    ∃ value, rd16 pkt off = some value := by
  rw [rd16, List.getElem?_eq_getElem (by omega), List.getElem?_eq_getElem (by omega)]
  exact ⟨_, rfl⟩

theorem addressAt_inside {pkt : List Byte} {off : Nat} (inside : off + 4 ≤ pkt.length) :
    ∃ ip, addressAt pkt off = some ip := by
  rw [addressAt, List.getElem?_eq_getElem (by omega), List.getElem?_eq_getElem (by omega),
    List.getElem?_eq_getElem (by omega), List.getElem?_eq_getElem (by omega)]
  exact ⟨_, rfl⟩

theorem answerFrom_inside (pl : List Byte) (left off : Nat) :
    ∃ answer, answerFrom pl left off = some answer := by
  induction left generalizing off with
  | zero => exact ⟨none, rfl⟩
  | succ left ih =>
    rw [answerFrom]
    split_ifs with short
    · exact ⟨none, rfl⟩
    · rw [List.getElem?_eq_getElem (by omega), Option.bind_eq_bind, Option.bind_some]
      dsimp only
      generalize off + _ = rr
      split_ifs with cut
      · exact ⟨none, rfl⟩
      · obtain ⟨rtype, typeRead⟩ := rd16_inside pl rr (by omega)
        obtain ⟨rdlen, lenRead⟩ := rd16_inside pl (rr + 8) (by omega)
        rw [typeRead, lenRead, Option.bind_eq_bind, Option.bind_some, Option.bind_some]
        split_ifs with address
        · obtain ⟨ip, read⟩ := addressAt_inside address.2.2
          exact ⟨some ip, by rw [read]; rfl⟩
        · exact ih _

/-- No payload makes `resolve` read beyond it. -/
theorem readResponse_inside (dnsId : BitVec 16) (pl : List Byte) :
    ∃ reading, readResponse dnsId pl = some reading := by
  unfold readResponse
  split_ifs with short
  · exact ⟨.keep, rfl⟩
  · obtain ⟨id, idRead⟩ := rd16_inside pl 0 (by omega)
    obtain ⟨ancount, countRead⟩ := rd16_inside pl 6 (by omega)
    rw [idRead, countRead, Option.bind_eq_bind, Option.bind_some, Option.bind_some]
    split_ifs
    · exact ⟨.clear, rfl⟩
    · exact ⟨.clear, rfl⟩
    · cases readQnameLen pl 12 with
      | none => exact ⟨.keep, rfl⟩
      | some qlen =>
        obtain ⟨answer, read⟩ := answerFrom_inside pl ancount.toNat (12 + qlen + 4)
        dsimp only
        rw [read]
        cases answer with
        | none => exact ⟨.keep, rfl⟩
        | some ip => exact ⟨.found ip, rfl⟩

/-! ## Well-formed responses -/

/-- A record of the answer section. An address has four bytes. -/
structure Record where
  name : WireName
  rtype : BitVec 16
  rclass : BitVec 16
  ttl : BitVec 32
  rdata : List Byte
  fits : rdata.length < 2 ^ 16
  address : rtype = 1 → rdata.length = 4

/-- A response to one question. Other sections follow the answers. -/
structure Response where
  id : BitVec 16
  flags : BitVec 16
  nscount : BitVec 16
  arcount : BitVec 16
  qname : WireName
  qtype : BitVec 16
  qclass : BitVec 16
  answers : List Record
  count : answers.length < 2 ^ 16
  others : List Byte

/-- The fields of a record behind its name. -/
def Record.fields (record : Record) : List Byte :=
  be16 record.rtype ++ be16 record.rclass ++ be32 record.ttl ++
    be16 (BitVec.ofNat 16 record.rdata.length)

def Record.bytes (record : Record) : List Byte :=
  record.name.bytes ++ (record.fields ++ record.rdata)

def Response.header (response : Response) : List Byte :=
  be16 response.id ++ be16 response.flags ++ be16 1 ++
    be16 (BitVec.ofNat 16 response.answers.length) ++ be16 response.nscount ++
    be16 response.arcount

def Response.bytes (response : Response) : List Byte :=
  response.header ++ (response.qname.bytes ++ (be16 response.qtype ++ be16 response.qclass ++
    (response.answers.flatMap Record.bytes ++ response.others)))

/-- The first A record. -/
def firstA (answers : List Record) : Option Record := answers.find? fun record => record.rtype = 1

theorem rd16_at {pkt : List Byte} {off : Nat} (front back : List Byte) {value : BitVec 16}
    (parts : pkt = front ++ (be16 value ++ back)) (here : off = front.length) :
    rd16 pkt off = some value := by
  subst parts here
  have high : (front ++ (be16 value ++ back))[front.length]? = some (value.extractLsb' 8 8) := by
    simp [be16]
  have low : (front ++ (be16 value ++ back))[front.length + 1]? =
      some (value.extractLsb' 0 8) := by
    simp [be16]
  rw [rd16, high, low]
  exact congrArg some (u16From_be16 value)

theorem addressAt_at (pkt : List Byte) (off : Nat) {rdata : List Byte} (front back : List Byte)
    (four : rdata.length = 4) (parts : pkt = front ++ (rdata ++ back))
    (here : off = front.length) : ∃ ip, addressAt pkt off = some ip ∧ ip.toList = rdata := by
  subst parts here
  obtain ⟨first, second, third, fourth, rfl⟩ : ∃ first second third fourth,
      rdata = [first, second, third, fourth] := by
    rcases rdata with _ | ⟨first, _ | ⟨second, _ | ⟨third, _ | ⟨fourth, _ | _⟩⟩⟩⟩ <;> simp at four
    exact ⟨first, second, third, fourth, rfl⟩
  exact ⟨#v[first, second, third, fourth], by simp [addressAt], rfl⟩

/-- The walk skips a name of any shape. -/
theorem nameSkip_name (name : WireName) (front back : List Byte) :
    ∃ t, (front ++ (name.bytes ++ back))[front.length]? = some t ∧
      (if t &&& 0xC0 = 0xC0 then 2
        else (readQnameLen (front ++ (name.bytes ++ back)) front.length).getD 0) =
          name.bytes.length := by
  rw [readQnameLen_name, Option.getD_some]
  obtain ⟨labels, ending⟩ := name
  rcases labels with _ | ⟨label, rest⟩
  · cases ending with
    | root => exact ⟨0, by simp [WireName.bytes, Ending.bytes], if_neg (by decide)⟩
    | pointer high low =>
      exact ⟨0b11#2 ++ high, by simp [WireName.bytes, Ending.bytes], if_pos (pointer_byte high).2⟩
  · exact ⟨BitVec.ofNat 8 label.bytes.length, by simp [WireName.bytes, counted],
      if_neg label.length_byte.2.1⟩

theorem WireName.length_pos (name : WireName) : 1 ≤ name.bytes.length := by
  obtain ⟨labels, ending⟩ := name
  rw [WireName.bytes, List.length_append]
  cases ending <;> simp [Ending.bytes]

/-- The walk over the answers stays aligned, and ends at the first A record. -/
theorem answerFrom_records (answers : List Record) (front others : List Byte) :
    (answerFrom (front ++ (answers.flatMap Record.bytes ++ others)) answers.length
      front.length).map (·.map Vector.toList) = some ((firstA answers).map Record.rdata) := by
  induction answers generalizing front with
  | nil => rfl
  | cons record rest ih =>
    set back := rest.flatMap Record.bytes ++ others with backIs
    have parts : front ++ ((record :: rest).flatMap Record.bytes ++ others) =
        front ++ (record.name.bytes ++ (record.fields ++ (record.rdata ++ back))) := by
      simp [Record.bytes, backIs]
    have fieldsLength : record.fields.length = 10 := rfl
    have nameLength := record.name.length_pos
    obtain ⟨t, met, skip⟩ := nameSkip_name record.name front
      (record.fields ++ (record.rdata ++ back))
    rw [parts]
    set pl := front ++ (record.name.bytes ++ (record.fields ++ (record.rdata ++ back))) with plIs
    have length : pl.length = front.length +
        (record.name.bytes.length + (10 + (record.rdata.length + back.length))) := by
      simp [plIs, fieldsLength]
    have typeRead : rd16 pl (front.length + record.name.bytes.length) = some record.rtype :=
      rd16_at (front ++ record.name.bytes) (be16 record.rclass ++ be32 record.ttl ++
        be16 (BitVec.ofNat 16 record.rdata.length) ++ (record.rdata ++ back))
        (by simp [plIs, Record.fields]) (by simp)
    have lenRead : rd16 pl (front.length + record.name.bytes.length + 8) =
        some (BitVec.ofNat 16 record.rdata.length) :=
      rd16_at (front ++ record.name.bytes ++ be16 record.rtype ++ be16 record.rclass ++
        be32 record.ttl) (record.rdata ++ back) (by simp [plIs, Record.fields])
        (by simp [be16, be32]; omega)
    have rdlen : (BitVec.ofNat 16 record.rdata.length).toNat = record.rdata.length := by
      rw [BitVec.toNat_ofNat, Nat.mod_eq_of_lt record.fits]
    rw [List.length_cons, answerFrom, if_neg (by omega), met, Option.bind_eq_bind,
      Option.bind_some]
    dsimp only
    rw [skip, if_neg (by omega), typeRead, lenRead, Option.bind_eq_bind, Option.bind_some,
      Option.bind_some]
    by_cases address : record.rtype = 1
    · have four := record.address address
      obtain ⟨ip, read, same⟩ := addressAt_at pl (front.length + record.name.bytes.length + 10)
        (front ++ record.name.bytes ++ record.fields) back four (by simp [plIs])
        (by simp [fieldsLength]; omega)
      rw [if_pos ⟨address, by rw [four]; rfl, by omega⟩, read, firstA,
        List.find?_cons_of_pos (by simpa using address), Option.map_some, ← same]
      rfl
    · rw [if_neg fun both => address both.1, rdlen, firstA,
        List.find?_cons_of_neg (by simpa using address), ← firstA]
      have next := ih (front ++ record.bytes)
      have same : front ++ record.bytes ++ back = pl := by
        simp [plIs, Record.bytes]
      have there : (front ++ record.bytes).length =
          front.length + record.name.bytes.length + 10 + record.rdata.length := by
        simp [Record.bytes, fieldsLength]
        omega
      rw [same, there] at next
      exact next

/-- A well-formed response yields the address of its first A record. -/
theorem readResponse_bytes (response : Response) {record : Record}
    (first : firstA response.answers = some record) :
    ∃ ip, readResponse response.id response.bytes = some (.found ip) ∧
      ip.toList = record.rdata := by
  have headerLength : response.header.length = 12 := rfl
  set rest := response.qname.bytes ++ (be16 response.qtype ++ be16 response.qclass ++
    (response.answers.flatMap Record.bytes ++ response.others)) with restIs
  have bytesIs : response.bytes = response.header ++ rest := rfl
  have long : ¬ response.bytes.length < 12 := by
    rw [bytesIs, List.length_append]
    omega
  have idRead : rd16 response.bytes 0 = some response.id :=
    rd16_at [] _ rfl rfl
  have countRead : rd16 response.bytes 6 = some (BitVec.ofNat 16 response.answers.length) :=
    rd16_at (be16 response.id ++ be16 response.flags ++ be16 1)
      (be16 response.nscount ++ be16 response.arcount ++ rest)
      (by simp [bytesIs, Response.header]) rfl
  have answered : BitVec.ofNat 16 response.answers.length ≠ 0 := by
    intro zero
    have none := congrArg BitVec.toNat zero
    rw [BitVec.toNat_ofNat, Nat.mod_eq_of_lt response.count] at none
    rw [firstA, List.length_eq_zero_iff.mp none] at first
    cases first
  have count : (BitVec.ofNat 16 response.answers.length).toNat = response.answers.length := by
    rw [BitVec.toNat_ofNat, Nat.mod_eq_of_lt response.count]
  have qname : readQnameLen response.bytes 12 = some response.qname.bytes.length := by
    rw [bytesIs, restIs, ← headerLength]
    exact readQnameLen_name ..
  have walk := answerFrom_records response.answers
    (response.header ++ response.qname.bytes ++ be16 response.qtype ++ be16 response.qclass)
    response.others
  have start : (response.header ++ response.qname.bytes ++ be16 response.qtype ++
      be16 response.qclass).length = 12 + response.qname.bytes.length + 4 := by
    have two (value : BitVec 16) : (be16 value).length = 2 := rfl
    rw [List.length_append, List.length_append, List.length_append, headerLength, two, two]
  have whole : response.header ++ response.qname.bytes ++ be16 response.qtype ++
      be16 response.qclass ++ (response.answers.flatMap Record.bytes ++ response.others) =
        response.bytes := by
    simp [bytesIs, restIs]
  rw [start, whole, first] at walk
  rw [readResponse, if_neg long, idRead, countRead, Option.bind_eq_bind, Option.bind_some,
    Option.bind_some, if_neg (not_not_intro rfl), if_neg answered, qname, count]
  dsimp only
  cases answer : answerFrom response.bytes response.answers.length
      (12 + response.qname.bytes.length + 4) with
  | none => rw [answer] at walk; cases walk
  | some found =>
    rw [answer] at walk
    cases found with
    | none => cases walk
    | some ip => exact ⟨ip, rfl, Option.some.inj (Option.some.inj walk)⟩

end DBSos.Net.Dns
