import DBSos.Crypto.Cbc

/-!
# Network profiles

`netman.rs` with a disk that takes every write. A profile keeps the secret of its network
encrypted under a key of the machine; salts and vectors come from a timer.
-/

namespace DBSos.Netman

open DBSos.Crypto

/-- A name or a secret. -/
abbrev Bytes := List UInt8

/-- A list in an array of `len` bytes. -/
def fill (len : Nat) (bytes : Bytes) : Bytes := bytes ++ List.replicate (len - bytes.length) 0

/-- `Profile`. -/
structure Profile where
  ssid : Bytes
  ssidLen : Nat
  encLen : Nat
  salt : Block
  iv : Block
  enc : Bytes
deriving DecidableEq

/-- `[0; 16]`. -/
def zeroBlock : Block := Vector.replicate 16 0

/-- `Profile::empty`. -/
def Profile.empty : Profile := ⟨fill 32 [], 0, 0, zeroBlock, zeroBlock, fill 64 []⟩

/-- `ssid_slice`. -/
def Profile.name (p : Profile) : Bytes := p.ssid.take p.ssidLen

/-- The statics of the manager, and `/etc/net.conf`. -/
structure Manager where
  profiles : Nat → Profile
  nprof : Nat
  last : Nat
  file : Option Bytes

/-- `MAGIC`. -/
def magic : Bytes := [0x44, 0x42, 0x53, 0x4E, 0x45, 0x54, 0x30, 0x31]

/-- The record of a profile. -/
def record (p : Profile) : Bytes :=
  [UInt8.ofNat p.ssidLen] ++ p.ssid ++ [UInt8.ofNat p.encLen, UInt8.ofNat (p.encLen / 256)] ++
    p.salt.toList ++ p.iv.toList ++ p.enc

/-- The profile in a record. -/
def ofRecord (r : Bytes) : Profile where
  ssidLen := min (r.getD 0 0).toNat 32
  ssid := (r.drop 1).take 32
  encLen := (r.getD 33 0).toNat + 256 * (r.getD 34 0).toNat
  salt := block (r.drop 35)
  iv := block (r.drop 51)
  enc := (r.drop 67).take 64

/-- The bytes of a record. -/
def recordSize : Nat := 131

/-- The bytes of the largest file. -/
def fileSize : Nat := 10 + 8 * recordSize

namespace Manager

-- `device_key`: the key of the machine for a salt.
variable (deviceKey : Block → Bytes) (m : Manager)

/-- `find`. -/
def find (ssid : Bytes) : Option Nat :=
  (List.range m.nprof).find? fun i =>
    (m.profiles i).ssidLen = ssid.length ∧ (m.profiles i).ssid.take ssid.length = ssid

/-- What `save` writes. -/
def contents : Bytes :=
  magic ++ [UInt8.ofNat m.nprof, UInt8.ofNat m.last] ++
    (List.range m.nprof).flatMap fun i => record (m.profiles i)

/-- `save`. -/
def save : Manager := { m with file := some m.contents }

/-- The profile that `add` makes. -/
def encrypted (ssid psk : Bytes) (salt iv : Block) : Option Profile :=
  if psk = [] then
    some { Profile.empty with ssid := fill 32 ssid, ssidLen := ssid.length }
  else
    (aesCbcEncrypt (deviceKey salt) iv psk 64).map fun enc =>
      { ssid := fill 32 ssid
        ssidLen := ssid.length
        encLen := enc.length
        salt := salt
        iv := iv
        enc := fill 64 enc }

/-- `add`, with the bytes of `fresh_rand`. -/
def add (ssid psk : Bytes) (salt iv : Block) : Bool × Manager :=
  if ssid = [] ∨ 32 < ssid.length ∨ 63 < psk.length then (false, m)
  else
    match m.find ssid with
    | some slot =>
      match encrypted deviceKey ssid psk salt iv with
      | none => (false, m)
      | some p => (true, save { m with profiles := Function.update m.profiles slot p })
    | none =>
      if 8 ≤ m.nprof then (false, m)
      else
        match encrypted deviceKey ssid psk salt iv with
        | none => (false, { m with nprof := m.nprof + 1 })
        | some p =>
          (true,
            save { m with
              profiles := Function.update m.profiles m.nprof p
              nprof := m.nprof + 1 })

/-- `reveal`. -/
def reveal (idx : Nat) : Option Bytes :=
  if idx < m.nprof then
    let p := m.profiles idx
    if p.encLen = 0 then some []
    else
      (aesCbcDecrypt (deviceKey p.salt) p.iv (p.enc.take p.encLen) 64).filter fun psk =>
        psk.length ≤ 63
  else none

/-- `forget`: the profiles behind move up, and `LAST` stays unless it is past the end. -/
def forget (ssid : Bytes) : Bool × Manager :=
  match m.find ssid with
  | none => (false, m)
  | some i =>
    (true,
      save { m with
        profiles := fun j =>
          if j = m.nprof - 1 then Profile.empty
          else if i ≤ j ∧ j < m.nprof - 1 then m.profiles (j + 1)
          else m.profiles j
        nprof := m.nprof - 1
        last := if m.nprof - 1 ≤ m.last then 0xFF else m.last })

/-- `connect`, up to `dhcp::run`. -/
def connect (idx : Nat) : Manager := if idx < m.nprof then save { m with last := idx } else m

/-- `last`. -/
def last? : Option Nat := if m.last ≠ 0xFF ∧ m.last < m.nprof then some m.last else none

/-- The buffer that `load` reads a file into. -/
def buffer (bytes : Bytes) : Bytes := fill fileSize (bytes.take fileSize)

/-- Where the record of a profile starts. -/
def recordAt (i : Nat) : Nat := 10 + recordSize * i

/-- The loop of `load`; a record with too long a secret ends it. -/
def loadFrom (buf : Bytes) : List Nat → (Nat → Profile) → Nat → Profile
  | [], profiles => profiles
  | i :: rest, profiles =>
    let p := ofRecord (buf.drop (recordAt i))
    if 64 < p.encLen then profiles else loadFrom buf rest (Function.update profiles i p)

/-- The number of profiles in a header. -/
def headerCount (buf : Bytes) : Nat := min (buf.getD 8 0).toNat 8

/-- The header of a file is right. -/
def Headed (bytes : Bytes) : Prop := 10 ≤ bytes.length ∧ (buffer bytes).take 8 = magic

instance (bytes : Bytes) : Decidable (Headed bytes) := instDecidableAnd

/-- `load`, of a file with these bytes. -/
def loadBytes (bytes : Bytes) : Manager :=
  let buf := buffer bytes
  if Headed bytes then
    { m with
      profiles := loadFrom buf (List.range (headerCount buf)) m.profiles
      nprof := headerCount buf
      last := if headerCount buf ≤ (buf.getD 9 0).toNat then 0xFF else (buf.getD 9 0).toNat }
  else { m with nprof := 0, last := 0xFF }

/-- `load`. -/
def load : Manager :=
  match m.file with
  | none => { m with nprof := 0, last := 0xFF }
  | some bytes => m.loadBytes bytes

end Manager

end DBSos.Netman

/-!
## Records and files

A profile that `add` makes is read back from its record, reveals its secret, and a file
that `save` writes is read back by `load`.
-/

namespace DBSos.Netman

open DBSos.Crypto

theorem length_fill {len : Nat} {bytes : Bytes} (fits : bytes.length ≤ len) :
    (fill len bytes).length = len := by
  rw [fill, List.length_append, List.length_replicate]
  omega

theorem take_fill (len : Nat) (bytes : Bytes) : (fill len bytes).take bytes.length = bytes :=
  List.take_left

/-- A profile with the sizes of its arrays. -/
structure Shaped (p : Profile) : Prop where
  ssid : p.ssid.length = 32
  ssidLen : p.ssidLen ≤ 32
  encLen : p.encLen ≤ 64
  enc : p.enc.length = 64

/-- A profile of a network and its secret. -/
structure Sealed (deviceKey : Block → Bytes) (p : Profile) (ssid psk : Bytes) : Prop where
  array : p.ssid = fill 32 ssid
  length : p.ssidLen = ssid.length
  name : 1 ≤ ssid.length ∧ ssid.length ≤ 32
  secret : psk.length ≤ 63
  cipher : psk = [] ∧ p.encLen = 0 ∧ p.enc = fill 64 [] ∨
    psk ≠ [] ∧ ∃ enc, aesCbcEncrypt (deviceKey p.salt) p.iv psk 64 = some enc ∧
      p.encLen = enc.length ∧ p.enc = fill 64 enc

section Profiles

variable {deviceKey : Block → Bytes} {p : Profile} {ssid psk : Bytes}

theorem Sealed.shaped (is : Sealed deviceKey p ssid psk) : Shaped p := by
  refine ⟨?_, ?_, ?_, ?_⟩
  · rw [is.array, length_fill is.name.2]
  · rw [is.length]
    exact is.name.2
  · rcases is.cipher with ⟨-, none, -⟩ | ⟨-, enc, encrypted, length, -⟩
    · omega
    · rw [length]
      exact (length_aesCbcEncrypt encrypted).2
  · rcases is.cipher with ⟨-, -, enc⟩ | ⟨-, enc, encrypted, -, enc⟩
    · rw [enc]
      rfl
    · rw [enc, length_fill (length_aesCbcEncrypt encrypted).2]

theorem Sealed.name_eq (is : Sealed deviceKey p ssid psk) : p.name = ssid := by
  rw [Profile.name, is.array, is.length, take_fill]

/-- What `find` tests. -/
theorem Sealed.answers_iff (is : Sealed deviceKey p ssid psk) {other : Bytes} :
    p.ssidLen = other.length ∧ p.ssid.take other.length = other ↔ ssid = other := by
  rw [is.length, is.array]
  constructor
  · rintro ⟨length, same⟩
    rwa [← length, take_fill] at same
  · rintro rfl
    exact ⟨rfl, take_fill 32 ssid⟩

/-- A secret of up to 63 bytes can be encrypted. -/
theorem encrypted_sealed (name : 1 ≤ ssid.length ∧ ssid.length ≤ 32) (secret : psk.length ≤ 63)
    (salt iv : Block) :
    ∃ p, Manager.encrypted deviceKey ssid psk salt iv = some p ∧ Sealed deviceKey p ssid psk := by
  unfold Manager.encrypted
  by_cases isOpen : psk = []
  · rw [if_pos isOpen]
    exact ⟨_, rfl, rfl, rfl, name, secret, .inl ⟨isOpen, rfl, rfl⟩⟩
  · have total :
        ¬ (64 < psk.length + padding psk.length ∨ psk.length + padding psk.length = 0) := by
      unfold padding
      omega
    have encrypts : ∃ enc, aesCbcEncrypt (deviceKey salt) iv psk 64 = some enc := ⟨_, if_neg total⟩
    obtain ⟨enc, encrypts⟩ := encrypts
    rw [if_neg isOpen, encrypts]
    exact ⟨_, rfl, rfl, rfl, name, secret, .inr ⟨isOpen, enc, encrypts, rfl, rfl⟩⟩

/-- A sealed profile reveals its secret. -/
theorem Sealed.reveal {m : Manager} {idx : Nat} (inside : idx < m.nprof)
    (is : Sealed deviceKey (m.profiles idx) ssid psk) : m.reveal deviceKey idx = some psk := by
  unfold Manager.reveal
  rw [if_pos inside]
  dsimp only
  rcases is.cipher with ⟨rfl, none, -⟩ | ⟨-, enc, encrypted, length, enc⟩
  · rw [if_pos none]
  · obtain ⟨whole, small⟩ := length_aesCbcEncrypt encrypted
    have positive := (padding_bounds psk.length).1
    rw [if_neg (by omega), length, enc, take_fill, aesCbcDecrypt_encrypt encrypted small]
    simp [is.secret]

/-! ## Records -/

theorem length_record (shaped : Shaped p) : (record p).length = recordSize := by
  simp [record, shaped.ssid, shaped.enc, recordSize]

theorem getD_drop (bytes : Bytes) (i j : Nat) : (bytes.drop i).getD j 0 = bytes.getD (i + j) 0 := by
  simp [List.getD_eq_getElem?_getD, List.getElem?_drop]

/-- A profile is read back from its record. -/
theorem ofRecord_record (shaped : Shaped p) (rest : Bytes) : ofRecord (record p ++ rest) = p := by
  have ssidLen := shaped.ssidLen
  have encLen := shaped.encLen
  have first : (record p ++ rest).drop 1 = p.ssid ++ (UInt8.ofNat p.encLen ::
      UInt8.ofNat (p.encLen / 256) :: (p.salt.toList ++ (p.iv.toList ++ (p.enc ++ rest)))) := by
    simp [record]
  have lengths : (record p ++ rest).drop 33 = UInt8.ofNat p.encLen ::
      UInt8.ofNat (p.encLen / 256) :: (p.salt.toList ++ (p.iv.toList ++ (p.enc ++ rest))) := by
    rw [show 33 = 1 + 32 from rfl, ← List.drop_drop, first, List.drop_left' shaped.ssid]
  have salt : (record p ++ rest).drop 35 = p.salt.toList ++ (p.iv.toList ++ (p.enc ++ rest)) := by
    rw [show 35 = 33 + 2 from rfl, ← List.drop_drop, lengths]
    rfl
  have iv : (record p ++ rest).drop 51 = p.iv.toList ++ (p.enc ++ rest) := by
    rw [show 51 = 35 + 16 from rfl, ← List.drop_drop, salt, List.drop_left' p.salt.length_toList]
  have enc : (record p ++ rest).drop 67 = p.enc ++ rest := by
    rw [show 67 = 51 + 16 from rfl, ← List.drop_drop, iv, List.drop_left' p.iv.length_toList]
  have low : (record p ++ rest).getD 33 0 = UInt8.ofNat p.encLen := by
    rw [show 33 = 33 + 0 from rfl, ← getD_drop, lengths]
    rfl
  have high : (record p ++ rest).getD 34 0 = UInt8.ofNat (p.encLen / 256) := by
    rw [show 34 = 33 + 1 from rfl, ← getD_drop, lengths]
    rfl
  have head : (record p ++ rest).getD 0 0 = UInt8.ofNat p.ssidLen := by simp [record]
  unfold ofRecord
  rw [first, salt, iv, enc, low, high, head, List.take_left' shaped.ssid,
    List.take_left' shaped.enc, block_toList_append, block_toList_append, UInt8.toNat_ofNat',
    UInt8.toNat_ofNat', UInt8.toNat_ofNat', Nat.mod_eq_of_lt (by omega),
    Nat.mod_eq_of_lt (by omega), Nat.mod_eq_of_lt (by omega), Nat.min_eq_left ssidLen,
    Nat.div_eq_of_lt (by omega), Nat.mul_zero, Nat.add_zero]

end Profiles

/-! ## Files -/

/-- Lists of one length, one behind the other. -/
theorem length_flatMap_range {f : Nat → Bytes} {size n : Nat}
    (sizes : ∀ j < n, (f j).length = size) : ((List.range n).flatMap f).length = size * n := by
  induction n with
  | zero => rfl
  | succ n ih =>
    rw [List.range_succ, List.flatMap_append, List.length_append,
      ih fun j below => sizes j (Nat.lt_succ_of_lt below),
      List.flatMap_singleton, sizes n (Nat.lt_succ_self n), Nat.mul_succ]

theorem drop_flatMap_range' {f : Nat → Bytes} {size : Nat} :
    ∀ {n s i : Nat}, (∀ j, s ≤ j → j < s + n → (f j).length = size) → i ≤ n →
      ((List.range' s n).flatMap f).drop (size * i) = (List.range' (s + i) (n - i)).flatMap f
  | n, s, 0, _, _ => by simp
  | 0, s, i + 1, _, inside => by omega
  | n + 1, s, i + 1, sizes, inside => by
    have first := sizes s le_rfl (by omega)
    rw [List.range'_succ, List.flatMap_cons, Nat.mul_succ, Nat.add_comm, ← List.drop_drop,
      List.drop_left' first, drop_flatMap_range' (fun j low high => sizes j (by omega) (by omega))
        (by omega)]
    congr 2
    · omega
    · omega

namespace Manager

variable {m : Manager}

/-- The statics are as `add` and `load` leave them. -/
structure Written (m : Manager) : Prop where
  few : m.nprof ≤ 8
  last : m.last < m.nprof ∨ m.last = 0xFF
  shaped : ∀ i < m.nprof, Shaped (m.profiles i)

theorem Written.length_contents (written : m.Written) :
    m.contents.length = recordAt m.nprof := by
  have records := length_flatMap_range (n := m.nprof) (f := fun i => record (m.profiles i))
    fun j below => length_record (written.shaped j below)
  simp only [contents, List.length_append, records, recordAt]
  rfl

theorem Written.buffer_contents (written : m.Written) :
    buffer m.contents = m.contents ++ List.replicate (fileSize - m.contents.length) 0 := by
  have few := written.few
  have short : m.contents.length ≤ fileSize := by
    rw [written.length_contents]
    unfold recordAt fileSize recordSize
    omega
  rw [buffer, fill, List.take_of_length_le short]

/-- The record of a profile in the file. -/
theorem Written.ofRecord_buffer (written : m.Written) {i : Nat} (inside : i < m.nprof) :
    ofRecord ((buffer m.contents).drop (recordAt i)) = m.profiles i := by
  have whole : (magic ++ [UInt8.ofNat m.nprof, UInt8.ofNat m.last]).length = 10 := rfl
  have records : ((List.range m.nprof).flatMap fun i => record (m.profiles i)).drop
      (recordSize * i) =
        record (m.profiles i) ++ (List.range' (i + 1) (m.nprof - i - 1)).flatMap
          fun i => record (m.profiles i) := by
    have count : m.nprof - i = (m.nprof - i - 1) + 1 := by omega
    rw [List.range_eq_range', drop_flatMap_range' (fun j _ below => length_record
      (written.shaped j (by omega))) (by omega), Nat.zero_add, count, List.range'_succ,
      List.flatMap_cons, Nat.add_sub_cancel]
  have long : recordAt i ≤ m.contents.length := by
    rw [written.length_contents]
    unfold recordAt recordSize
    omega
  rw [written.buffer_contents, List.drop_append_of_le_length long, contents, recordAt,
    ← List.drop_drop, List.drop_left' whole, records, List.append_assoc]
  exact ofRecord_record (written.shaped i inside) _

theorem loadFrom_of_ge {buf : Bytes} {k : Nat} :
    ∀ (list : List Nat) (profiles : Nat → Profile), k ∉ list →
      loadFrom buf list profiles k = profiles k
  | [], _, _ => rfl
  | i :: rest, profiles, apart => by
    rw [List.mem_cons, not_or] at apart
    unfold loadFrom
    dsimp only
    split_ifs
    · rfl
    · rw [loadFrom_of_ge rest _ apart.2, Function.update_of_ne apart.1]

/-- Where no record ends the loop, every profile comes from its record. -/
theorem loadFrom_of_fits {buf : Bytes} {k : Nat} :
    ∀ (list : List Nat) (profiles : Nat → Profile),
      (∀ i ∈ list, (ofRecord (buf.drop (recordAt i))).encLen ≤ 64) → k ∈ list → list.Nodup →
        loadFrom buf list profiles k = ofRecord (buf.drop (recordAt k))
  | i :: rest, profiles, fits, member, nodup => by
    obtain ⟨apart, nodup⟩ := List.nodup_cons.mp nodup
    unfold loadFrom
    dsimp only
    rw [if_neg (not_lt.mpr (fits i (.head _)))]
    rcases List.mem_cons.mp member with rfl | later
    · rw [loadFrom_of_ge rest _ apart, Function.update_self]
    · exact loadFrom_of_fits rest _ (fun j there => fits j (.tail _ there)) later nodup

/-! ## Any file -/

/-- Every profile of a load is one of the records read, and what `ssid_slice` and `reveal`
take of it is in its arrays. -/
def Within (m : Manager) (bytes : Bytes) : Prop := ∀ i < m.nprof,
  recordAt (i + 1) ≤ bytes.length ∧ m.profiles i = ofRecord ((buffer bytes).drop (recordAt i)) ∧
    (m.profiles i).ssidLen ≤ 32 ∧ (m.profiles i).encLen ≤ 64

/-- The records that a header counts are all there, none with too long a secret. -/
def Fits (bytes : Bytes) : Prop := Headed bytes → ∀ i < headerCount (buffer bytes),
  recordAt (i + 1) ≤ bytes.length ∧ (ofRecord ((buffer bytes).drop (recordAt i))).encLen ≤ 64

theorem within_loadBytes_iff (m : Manager) (bytes : Bytes) :
    (m.loadBytes bytes).Within bytes ↔ Fits bytes := by
  unfold Within loadBytes Fits
  by_cases headed : Headed bytes
  · rw [if_pos headed, forall_prop_of_true headed]
    constructor
    · intro within i inside
      obtain ⟨whole, same, -, short⟩ := within i inside
      rw [same] at short
      exact ⟨whole, short⟩
    · intro fits i inside
      have same := loadFrom_of_fits (k := i) (List.range (headerCount (buffer bytes))) m.profiles
        (fun j member => (fits j (List.mem_range.mp member)).2) (List.mem_range.mpr inside)
        List.nodup_range
      dsimp only
      rw [same]
      exact ⟨(fits i inside).1, rfl, Nat.min_le_right _ _, (fits i inside).2⟩
  · rw [if_neg headed]
    exact iff_of_true nofun fun right => absurd right headed

end Manager

end DBSos.Netman
