import DBSos.Lib.Pieces
import DBSos.Lib.Trace
import DBSos.Users.Table

/-!
# The user table on disk

One line a user, its six fields separated by colons. Nothing is escaped on the way
out, so a name with a colon or a newline comes back as other fields or other lines.
-/

namespace DBSos.Users

open DBSos.Lib

def colon : UInt8 := 0x3A
def newline : UInt8 := 0x0A

/-! ## Numbers -/

/-- The digits of a positive number, in at most the ten bytes of `tmp`. -/
def decimalFrom : (left v : Nat) → List UInt8
  | 0, _ => []
  | left + 1, v =>
    if v = 0 then [] else decimalFrom left (v / 10) ++ [0x30 + UInt8.ofNat (v % 10)]

/-- The bytes that `write_u32` writes. -/
def decimal (v : Nat) : List UInt8 := if v = 0 then [0x30] else decimalFrom 10 v

/-- The body of the loop in `parse_u32`. -/
def parseDigit (v : Nat) (c : UInt8) : Option Nat :=
  if c < 0x30 ∨ 0x39 < c then none
  else
    let next := v * 10 + (c - 0x30).toNat
    if next < 2 ^ 32 then some next else none

/-- `parse_u32`. -/
def parseU32 (s : List UInt8) : Option Nat :=
  if s = [] then none else s.foldlM parseDigit 0

/-- A byte of a decimal number. -/
def IsDigit (b : UInt8) : Prop := 0x30 ≤ b ∧ b ≤ 0x39

instance (b : UInt8) : Decidable (IsDigit b) := inferInstanceAs (Decidable (_ ∧ _))

theorem isDigit_ofNat : ∀ digit < 10, IsDigit (0x30 + UInt8.ofNat digit) := by decide

theorem digit_value : ∀ digit < 10, (0x30 + UInt8.ofNat digit - 0x30).toNat = digit := by decide

theorem isDigit_of_mem {left v : Nat} {b : UInt8} (member : b ∈ decimalFrom left v) :
    IsDigit b := by
  induction left generalizing v with
  | zero => cases member
  | succ left ih =>
    rw [decimalFrom] at member
    split_ifs at member
    · cases member
    · rcases List.mem_append.mp member with front | last
      · exact ih front
      · obtain rfl := List.mem_singleton.mp last
        exact isDigit_ofNat _ (Nat.mod_lt _ (by decide))

theorem isDigit_of_mem_decimal {v : Nat} {b : UInt8} (member : b ∈ decimal v) : IsDigit b := by
  rw [decimal] at member
  split_ifs at member
  · obtain rfl := List.mem_singleton.mp member
    exact ⟨by decide, by decide⟩
  · exact isDigit_of_mem member

theorem length_decimalFrom_le (left v : Nat) : (decimalFrom left v).length ≤ left := by
  induction left generalizing v with
  | zero => exact le_rfl
  | succ left ih =>
    rw [decimalFrom]
    split_ifs
    · exact Nat.zero_le _
    · rw [List.length_append, List.length_singleton]
      exact Nat.succ_le_succ (ih _)

theorem length_decimal_le (v : Nat) : (decimal v).length ≤ 10 := by
  rw [decimal]
  split_ifs
  · decide
  · exact length_decimalFrom_le 10 v

theorem parseDigit_digit {v digit : Nat} (digitLt : digit < 10) (small : v * 10 + digit < 2 ^ 32) :
    parseDigit v (0x30 + UInt8.ofNat digit) = some (v * 10 + digit) := by
  obtain ⟨above, below⟩ := isDigit_ofNat digit digitLt
  rw [parseDigit, if_neg (by simp [above, below])]
  dsimp only
  rw [digit_value digit digitLt, if_pos small]

theorem foldlM_decimalFrom {left v : Nat} (fits : v < 10 ^ left) (small : v < 2 ^ 32) :
    (decimalFrom left v).foldlM parseDigit 0 = some v := by
  induction left generalizing v with
  | zero =>
    obtain rfl : v = 0 := by simpa using fits
    rfl
  | succ left ih =>
    rw [decimalFrom]
    split_ifs with zero
    · rw [zero]
      rfl
    · have quotient : v / 10 < 10 ^ left := by
        rw [Nat.pow_succ] at fits
        omega
      have front := ih quotient (by omega)
      have whole : v / 10 * 10 + v % 10 = v := by omega
      rw [List.foldlM_append, front]
      simp only [List.foldlM_cons, List.foldlM_nil, Option.bind_eq_bind, Option.bind_some]
      rw [parseDigit_digit (Nat.mod_lt _ (by decide)) (by omega), whole]
      rfl

/-- A 32-bit number is read back as it was written. -/
theorem parseU32_decimal {v : Nat} (small : v < 2 ^ 32) : parseU32 (decimal v) = some v := by
  rw [parseU32, decimal]
  split_ifs with zero empty empty
  · cases empty
  · rw [zero]
    rfl
  · have fits : v < 10 ^ 10 := by omega
    have back := foldlM_decimalFrom fits small
    rw [empty] at back
    exact absurd (Option.some.inj back).symm zero
  · exact foldlM_decimalFrom (by omega) small

/-! ## Writing -/

/-- The length of the buffer. -/
def passwdSize : Nat := 2048

/-- `if pos < buf.len() { buf[pos] = b; pos += 1; }` over `buf[..pos]`. -/
def writeByte (out : List UInt8) (b : UInt8) : List UInt8 :=
  if out.length < passwdSize then out ++ [b] else out

/-- `write_u32`. -/
def writeU32 (out : List UInt8) (v : Nat) : List UInt8 := (decimal v).foldl writeByte out

/-- A name is written whole or not at all. -/
def writeBytes (out bytes : List UInt8) : List UInt8 :=
  if out.length + bytes.length < passwdSize then out ++ bytes else out

/-- The body of the loop in `save_to_disk`. -/
def writeUser (out : List UInt8) (u : User) : List UInt8 :=
  let out := writeByte (writeU32 out u.uid) colon
  let out := writeByte (writeU32 out u.gid) colon
  let out := writeByte (writeU32 out u.passwordHash.toNat) colon
  let out := writeByte (writeU32 out u.salt.toNat) colon
  let out := writeByte (writeBytes out u.name) colon
  writeByte (writeBytes out u.home) newline

def writeUsers : (users : Table) → (out : List UInt8) → List UInt8
  | [], out => out
  | u :: rest, out =>
    let out := writeUser out u
    if 1900 < out.length then out else writeUsers rest out

/-- The line of a user, without its newline. -/
def User.line (u : User) : List UInt8 :=
  decimal u.uid ++ colon :: (decimal u.gid ++ colon :: (decimal u.passwordHash.toNat ++
    colon :: (decimal u.salt.toNat ++ colon :: (u.name ++ colon :: u.home))))

/-- A bound on the line that no change of the password moves. -/
def User.weight (u : User) : Nat :=
  (decimal u.uid).length + (decimal u.gid).length + u.name.length + u.home.length + 26

theorem User.length_line_lt (u : User) : u.line.length < u.weight := by
  have hash := length_decimal_le u.passwordHash.toNat
  have salt := length_decimal_le u.salt.toNat
  simp only [User.line, User.weight, List.length_append, List.length_cons]
  omega

theorem writeByte_eq {out : List UInt8} (room : out.length < passwdSize) (b : UInt8) :
    writeByte out b = out ++ [b] := if_pos room

theorem foldl_writeByte {out bytes : List UInt8}
    (room : out.length + bytes.length ≤ passwdSize) :
    bytes.foldl writeByte out = out ++ bytes := by
  induction bytes generalizing out with
  | nil => exact (List.append_nil out).symm
  | cons b rest ih =>
    rw [List.length_cons] at room
    have first : writeByte out b = out ++ [b] := writeByte_eq (by omega) b
    rw [List.foldl_cons, first, ih]
    · rw [List.append_assoc]
      rfl
    · rw [List.length_append, List.length_singleton]
      omega

theorem writeU32_eq {out : List UInt8} {v : Nat}
    (room : out.length + (decimal v).length ≤ passwdSize) : writeU32 out v = out ++ decimal v :=
  foldl_writeByte room

theorem writeBytes_eq {out bytes : List UInt8} (room : out.length + bytes.length < passwdSize) :
    writeBytes out bytes = out ++ bytes := if_pos room

/-- With room in the buffer the line is written in full. -/
theorem writeUser_eq {out : List UInt8} {u : User} (room : out.length + u.weight ≤ passwdSize) :
    writeUser out u = out ++ (u.line ++ [newline]) := by
  have hash := length_decimal_le u.passwordHash.toNat
  have salt := length_decimal_le u.salt.toNat
  simp only [User.weight] at room
  simp (disch := (simp -failIfUnchanged only [List.length_append, List.length_singleton]; omega))
    only [writeUser, writeU32_eq, writeByte_eq, writeBytes_eq]
  simp [User.line]

theorem length_lines_le (users : Table) :
    (users.flatMap fun u => u.line ++ [newline]).length ≤ (users.map User.weight).sum := by
  induction users with
  | nil => exact le_rfl
  | cons u rest ih =>
    have short := u.length_line_lt
    rw [List.flatMap_cons, List.map_cons, List.sum_cons, List.length_append, List.length_append,
      List.length_singleton]
    omega

/-- Tables that stay below the mark at which the loop ends are written in full. -/
theorem writeUsers_eq {users : Table} {out : List UInt8}
    (room : out.length + (users.map User.weight).sum ≤ 1900) :
    writeUsers users out = out ++ users.flatMap fun u => u.line ++ [newline] := by
  induction users generalizing out with
  | nil => exact (List.append_nil out).symm
  | cons u rest ih =>
    have short := u.length_line_lt
    rw [List.map_cons, List.sum_cons] at room
    have first : writeUser out u = out ++ (u.line ++ [newline]) :=
      writeUser_eq (by simp only [passwdSize]; omega)
    have length : (out ++ (u.line ++ [newline])).length ≤ out.length + u.weight := by
      simp only [List.length_append, List.length_singleton]
      omega
    rw [writeUsers, first, if_neg (by omega), ih (by omega),
      List.flatMap_cons]
    simp

namespace Table

/-- The bytes that `save_to_disk` writes. -/
def saveToDisk (users : Table) : List UInt8 := writeUsers users []

/-! ## Reading -/

/-- The user of a line in `load_from_disk`; fields behind the sixth are dropped. -/
def ofLine (line : List UInt8) : Option User :=
  match line.splitOn colon with
  | uid :: gid :: hash :: salt :: name :: home :: _ => do
    some {
      uid := ← parseU32 uid
      gid := ← parseU32 gid
      passwordHash := UInt32.ofNat (← parseU32 hash)
      salt := UInt32.ofNat (← parseU32 salt)
      name := name.take 31
      home := home.take 63 }
  | _ => none

/-- `load_from_disk` on the bytes of the file. -/
def loadFromDisk (users : Table) (file : List UInt8) : Bool × Table :=
  let bytes := file.take passwdSize
  if bytes = [] then (false, users)
  else
    let loaded := ((bytes.splitOn newline).filterMap ofLine).take maxUsers
    (loaded ≠ [], loaded)

/-! ## Runs -/

/-- The changes of the table that are saved, each with a reading of the timer. -/
inductive Change where
  | addUser (ticks : UInt32) (name password : List UInt8)
  | setPassword (ticks : UInt32) (name newPw : List UInt8)

/-- The table after a change. -/
def change (users : Table) : Change → Table
  | .addUser ticks name password => (users.addUser ticks name password).2
  | .setPassword ticks name newPw => (users.setPassword ticks name newPw).2

/-- Saving and loading gives the table back. -/
def RoundTrips (users : Table) : Prop :=
  users.loadFromDisk users.saveToDisk = (true, users)

instance (users : Table) : Decidable users.RoundTrips := inferInstanceAs (Decidable (_ = _))

/-- No byte ends a field or a line. -/
def Clean (bytes : List UInt8) : Prop := colon ∉ bytes ∧ newline ∉ bytes

instance (bytes : List UInt8) : Decidable (Clean bytes) := inferInstanceAs (Decidable (_ ∧ _))

/-- A user that is added has no colon and no newline in the first 57 bytes of its name,
which are those that its home is made of. -/
def CleanNames (users : Table) : Change → Prop
  | .addUser _ name _ =>
    name ≠ [] → users.findByName name = none → users.length < maxUsers → Clean (name.take 57)
  | .setPassword .. => True

variable {users : Table}

/-! ## What is read back -/

theorem not_mem_decimal {b : UInt8} (other : ¬ IsDigit b) (v : Nat) : b ∉ decimal v :=
  fun member => other (isDigit_of_mem_decimal member)

theorem splitOn_line {u : User} (name : Clean u.name) (home : Clean u.home) :
    u.line.splitOn colon = [decimal u.uid, decimal u.gid, decimal u.passwordHash.toNat,
      decimal u.salt.toNat, u.name, u.home] := by
  have number (v : Nat) : colon ∉ decimal v := not_mem_decimal (by decide) v
  rw [User.line, List.splitOn_append_cons_self_of_not_mem (number _),
    List.splitOn_append_cons_self_of_not_mem (number _),
    List.splitOn_append_cons_self_of_not_mem (number _),
    List.splitOn_append_cons_self_of_not_mem (number _),
    List.splitOn_append_cons_self_of_not_mem name.1, List.splitOn_eq_singleton home.1]

theorem newline_not_mem_line {u : User} (name : Clean u.name) (home : Clean u.home) :
    newline ∉ u.line := by
  have number (v : Nat) : newline ∉ decimal v := not_mem_decimal (by decide) v
  have apart : newline ≠ colon := by decide
  simp [User.line, number, apart, name.2, home.2]

/-- The lines of a file are the lines of its users, and an empty one at the end. -/
theorem splitOn_lines (lines : ∀ u ∈ users, newline ∉ u.line) :
    (users.flatMap fun u => u.line ++ [newline]).splitOn newline =
      users.map User.line ++ [[]] := by
  induction users with
  | nil => rfl
  | cons u rest ih =>
    have own := lines u List.mem_cons_self
    have others := ih fun u member => lines u (List.mem_cons_of_mem _ member)
    rw [List.flatMap_cons, List.append_assoc, List.singleton_append,
      List.splitOn_append_cons_self_of_not_mem own, others]
    rfl

/-- The numbers of a user are 32-bit, the names have their bytes' room, the name is a
part of the home, and no byte of them ends a field or a line. -/
structure Plain (u : User) : Prop where
  uid : u.uid < 2 ^ 32
  gid : u.gid < 2 ^ 32
  name : u.name.length ≤ 31
  home : u.home.length ≤ 63
  named : u.name ⊆ u.home
  clean : Clean u.home

/-- The password does not matter. -/
theorem Plain.of {uid gid : Nat} {name home : List UInt8} (passwordHash salt : UInt32)
    (uidLt : uid < 2 ^ 32) (gidLt : gid < 2 ^ 32) (nameLe : name.length ≤ 31)
    (homeLe : home.length ≤ 63) (named : name ⊆ home) (clean : Clean home) :
    Plain ⟨uid, gid, name, home, passwordHash, salt⟩ :=
  ⟨uidLt, gidLt, nameLe, homeLe, named, clean⟩

theorem Plain.cleanName {u : User} (plain : Plain u) : Clean u.name :=
  ⟨fun bad => plain.clean.1 (plain.named bad), fun bad => plain.clean.2 (plain.named bad)⟩

theorem ofLine_line {u : User} (plain : Plain u) : ofLine u.line = some u := by
  rw [ofLine, splitOn_line plain.cleanName plain.clean]
  dsimp only
  rw [parseU32_decimal plain.uid, parseU32_decimal plain.gid,
    parseU32_decimal u.passwordHash.toNat_lt, parseU32_decimal u.salt.toNat_lt]
  simp [List.take_of_length_le plain.name, List.take_of_length_le plain.home]

/-- What every table has that was made with clean names. -/
structure Sound (users : Table) : Prop where
  few : users.length ≤ maxUsers
  short : (users.map User.weight).sum + 249 ≤ 128 * users.length
  plain : ∀ u ∈ users, Plain u

theorem Sound.saveToDisk_eq (sound : users.Sound) :
    users.saveToDisk = users.flatMap fun u => u.line ++ [newline] := by
  have few : users.length ≤ 16 := sound.few
  have short := sound.short
  rw [saveToDisk, writeUsers_eq (by rw [List.length_nil]; omega), List.nil_append]

theorem Sound.roundTrips (sound : users.Sound) : users.RoundTrips := by
  have few : users.length ≤ 16 := sound.few
  have short := sound.short
  have nonempty : users ≠ [] := by
    rintro rfl
    simp at short
  have written := sound.saveToDisk_eq
  have lines : users.saveToDisk.splitOn newline = users.map User.line ++ [[]] := by
    rw [written]
    exact splitOn_lines fun u member =>
      newline_not_mem_line (sound.plain u member).cleanName (sound.plain u member).clean
  have length : users.saveToDisk.length ≤ passwdSize := by
    have bound := length_lines_le users
    rw [written, passwdSize]
    omega
  have someByte : users.saveToDisk ≠ [] := by
    intro empty
    rw [empty] at lines
    exact nonempty (by simpa using lines)
  have loaded : (users.saveToDisk.splitOn newline).filterMap ofLine = users := by
    have own : users.filterMap (ofLine ∘ User.line) = users.filterMap some :=
      List.filterMap_congr fun u member => ofLine_line (sound.plain u member)
    rw [lines, List.filterMap_append, List.filterMap_map, own, List.filterMap_some]
    exact List.append_nil users
  rw [RoundTrips, loadFromDisk, List.take_of_length_le length, if_neg someByte, loaded,
    List.take_of_length_le sound.few]
  simp [nonempty]

/-- Loading never makes a user with a colon or a newline in its home. -/
theorem clean_of_load {file : List UInt8} {u : User} (nonempty : file.take passwdSize ≠ [])
    (loaded : u ∈ (users.loadFromDisk file).2) : Clean u.home := by
  rw [loadFromDisk, if_neg nonempty] at loaded
  obtain ⟨line, member, read⟩ := List.mem_filterMap.mp (List.mem_of_mem_take loaded)
  obtain ⟨noNewline, _⟩ := mem_splitOn member
  unfold ofLine at read
  split at read
  · rename_i uid gid hash salt name home rest fields
    have field : home ∈ line.splitOn colon := by simp [fields]
    obtain ⟨noColon, inside⟩ := mem_splitOn field
    simp only [Option.bind_eq_bind, Option.bind_eq_some_iff] at read
    obtain ⟨_, _, _, _, _, _, _, _, made⟩ := read
    obtain rfl := Option.some.inj made
    have part : home.take 63 ⊆ home := List.take_subset 63 home
    exact ⟨fun bad => noColon (part bad), fun bad => noNewline (inside (part bad))⟩
  · cases read

/-- The users of `init`, whatever their salts are. -/
theorem init_eq (ticks : Fin 3 → UInt32) :
    ∃ rootHash rootSalt userHash userSalt, Table.init ticks =
      [⟨0, 0, rootName, 0x2F :: rootName, rootHash, rootSalt⟩,
        ⟨1000, 1000, guestName, homeOf guestName, 0, 0⟩,
        ⟨1001, 1001, userName, homeOf userName, userHash, userSalt⟩] :=
  ⟨_, _, _, _, rfl⟩

theorem init_sound (ticks : Fin 3 → UInt32) : (Table.init ticks).Sound := by
  obtain ⟨rootHash, rootSalt, userHash, userSalt, users⟩ := init_eq ticks
  rw [users]
  refine ⟨by simp [maxUsers], ?_, ?_⟩
  · have root : (decimal 0).length = 1 := by decide
    have guest : (decimal 1000).length = 4 := by decide
    have user : (decimal 1001).length = 4 := by decide
    simp [User.weight, root, guest, user, rootName, guestName, userName, homeOf]
  · intro u member
    simp only [List.mem_cons, List.not_mem_nil, or_false] at member
    rcases member with rfl | rfl | rfl <;>
      exact .of _ _ (by decide) (by decide) (by decide) (by decide) (by decide) (by decide)

/-! ## Changes of the table -/

/-- The user that `add_user` makes. -/
def added (users : Table) (ticks : UInt32) (name password : List UInt8) : User :=
  let uid := 1000 + users.length
  let (passwordHash, salt) := credentials ticks uid name password
  { uid, gid := uid, name := name.take 31, home := (homeOf name).take 63, passwordHash, salt }

theorem addUser_cases (users : Table) (ticks : UInt32) (name password : List UInt8) :
    ((name ≠ [] ∧ users.findByName name = none ∧ users.length < maxUsers) ∧
        (users.addUser ticks name password).2 = users ++ [users.added ticks name password]) ∨
      (¬ (name ≠ [] ∧ users.findByName name = none ∧ users.length < maxUsers) ∧
        (users.addUser ticks name password).2 = users) := by
  unfold addUser
  split_ifs with refused
  · refine .inr ⟨?_, rfl⟩
    rintro ⟨named, absent, _⟩
    rcases refused with empty | present
    · exact named empty
    · simp [absent] at present
  · obtain ⟨named, absent⟩ := not_or.mp refused
    rw [Option.not_isSome_iff_eq_none] at absent
    by_cases room : users.length < maxUsers
    · exact .inl ⟨⟨named, absent, room⟩, if_pos room⟩
    · exact .inr ⟨fun allowed => room allowed.2.2, if_neg room⟩

theorem home_added (name : List UInt8) :
    (homeOf name).take 63 = [0x2F, 0x68, 0x6F, 0x6D, 0x65, 0x2F] ++ name.take 57 := by
  simp [homeOf, List.take_take]

theorem Sound.add {ticks : UInt32} {name password : List UInt8} (sound : users.Sound)
    (room : users.length < maxUsers) (clean : Clean (name.take 57)) :
    Table.Sound (users ++ [users.added ticks name password]) := by
  have few : users.length < 16 := room
  have home : (users.added ticks name password).home =
      [0x2F, 0x68, 0x6F, 0x6D, 0x65, 0x2F] ++ name.take 57 := home_added name
  have homeLe : (users.added ticks name password).home.length ≤ 63 := List.length_take_le _ _
  have nameLe : (users.added ticks name password).name.length ≤ 31 := List.length_take_le _ _
  refine ⟨?_, ?_, ?_⟩
  · rw [List.length_append]
    exact room
  · have digits : ∀ n < 16, (decimal (1000 + n)).length = 4 := by decide
    have own : (decimal (1000 + users.length)).length = 4 := digits _ few
    have weight : (users.added ticks name password).weight ≤ 128 := by
      have uid : (users.added ticks name password).uid = 1000 + users.length := rfl
      have gid : (users.added ticks name password).gid = 1000 + users.length := rfl
      rw [User.weight, uid, gid, own]
      omega
    have short := sound.short
    rw [List.map_append, List.sum_append, List.length_append, List.map_singleton,
      List.sum_singleton, List.length_singleton]
    omega
  · intro u member
    rcases List.mem_append.mp member with old | new
    · exact sound.plain u old
    · obtain rfl := List.mem_singleton.mp new
      have numbers : 1000 + users.length < 2 ^ 32 := by omega
      have part : name.take 31 ⊆ name.take 57 := by
        rw [show name.take 31 = (name.take 57).take 31 by simp [List.take_take]]
        exact List.take_subset _ _
      refine ⟨numbers, numbers, nameLe, homeLe, ?_, ?_⟩
      · rw [home]
        exact fun b inName => List.mem_append_right _ (part inName)
      · rw [home]
        have prefixes : Clean [0x2F, 0x68, 0x6F, 0x6D, 0x65, 0x2F] := ⟨by decide, by decide⟩
        exact ⟨fun bad => (List.mem_append.mp bad).elim prefixes.1 clean.1,
          fun bad => (List.mem_append.mp bad).elim prefixes.2 clean.2⟩

theorem mem_modify {idx : Nat} {edit : User → User} {u : User}
    (member : u ∈ users.modify idx edit) : u ∈ users ∨ ∃ v ∈ users, u = edit v := by
  obtain ⟨i, inside, rfl⟩ := List.mem_iff_getElem.mp member
  rw [List.getElem_modify]
  rw [List.length_modify] at inside
  split_ifs
  · exact .inr ⟨_, List.getElem_mem inside, rfl⟩
  · exact .inl (List.getElem_mem inside)

/-- An edit of one user that leaves its line as long as it may be keeps the table sound. -/
theorem Sound.modify {idx : Nat} {edit : User → User} (sound : users.Sound)
    (weight : ∀ u, (edit u).weight = u.weight) (plain : ∀ {u}, Plain u → Plain (edit u)) :
    Table.Sound (users.modify idx edit) := by
  refine ⟨?_, ?_, ?_⟩
  · rw [List.length_modify]
    exact sound.few
  · have weights : (users.modify idx edit).map User.weight = users.map User.weight := by
      apply List.ext_getElem
      · simp
      · intro i _ _
        rw [List.getElem_map, List.getElem_map, List.getElem_modify]
        split_ifs
        · exact weight _
        · rfl
    rw [weights, List.length_modify]
    exact sound.short
  · intro u member
    rcases mem_modify member with old | ⟨v, old, rfl⟩
    · exact sound.plain u old
    · exact plain (sound.plain v old)

theorem Sound.setPassword {ticks : UInt32} {name newPw : List UInt8} (sound : users.Sound) :
    (users.setPassword ticks name newPw).2.Sound := by
  unfold Table.setPassword
  split
  · exact sound
  · exact sound.modify (fun _ => rfl) fun plain => ⟨plain.1, plain.2, plain.3, plain.4, plain.5,
      plain.6⟩

/-- A table with a user whose home is not clean is not read back as it was. -/
theorem not_roundTrips {u : User} (member : u ∈ users) (dirty : ¬ Clean u.home) :
    ¬ users.RoundTrips := by
  intro roundTrips
  by_cases empty : users.saveToDisk.take passwdSize = []
  · rw [RoundTrips, loadFromDisk, if_pos empty] at roundTrips
    exact Bool.false_ne_true (congrArg Prod.fst roundTrips)
  · have read : (users.loadFromDisk users.saveToDisk).2 = users := congrArg Prod.snd roundTrips
    exact dirty (clean_of_load empty (read.symm ▸ member))

theorem Sound.change {call : Change} (sound : users.Sound) (clean : users.CleanNames call) :
    (users.change call).Sound := by
  cases call with
  | addUser ticks name password =>
    rcases users.addUser_cases ticks name password with ⟨⟨named, absent, room⟩, added⟩ | ⟨_, same⟩
    · rw [Table.change, added]
      exact sound.add room (clean named absent room)
    · rw [Table.change, same]
      exact sound
  | setPassword ticks name newPw => exact sound.setPassword

theorem change_broken {call : Change} (unclean : ¬ users.CleanNames call) :
    ¬ (users.change call).RoundTrips := by
  cases call with
  | addUser ticks name password =>
    simp only [CleanNames, not_forall] at unclean
    obtain ⟨named, absent, room, dirty⟩ := unclean
    rcases users.addUser_cases ticks name password with ⟨_, added⟩ | ⟨refused, _⟩
    · rw [Table.change, added]
      refine not_roundTrips (List.mem_append_right _ (List.mem_singleton_self _)) ?_
      intro clean
      have home : (users.added ticks name password).home =
          [0x2F, 0x68, 0x6F, 0x6D, 0x65, 0x2F] ++ name.take 57 := home_added name
      rw [home] at clean
      exact dirty ⟨fun bad => clean.1 (List.mem_append_right _ bad),
        fun bad => clean.2 (List.mem_append_right _ bad)⟩
    · exact absurd ⟨named, absent, room⟩ refused
  | setPassword ticks name newPw => exact absurd trivial unclean

end Table

/-- From the users of `init`, saving and loading gives the table back after every change
exactly when no user is ever added with a colon or a newline in the first 57 bytes of
its name. -/
theorem passwd_roundTrips_iff {ticks : Fin 3 → UInt32}
    {taken : List (Transition Table Table.Change)} {final : Table}
    (trace : Trace (fun users call next => users.change call = next) (Table.init ticks) taken
      final) :
    Throughout Table.RoundTrips (Table.init ticks) taken ↔ Guarded Table.CleanNames taken := by
  refine trace.throughout_iff_guarded Table.Sound (Table.init_sound ticks)
    (fun _ sound => sound.roundTrips) ?_ ?_
  · rintro before call _ sound clean rfl
    exact sound.change clean
  · rintro before call _ _ unclean rfl
    exact Table.change_broken unclean

/-- `bob`. -/
def bob : List UInt8 := [0x62, 0x6F, 0x62]

/-- A user is added and guest gets a password. -/
theorem bob_roundTrips :
    let users := Table.init fun _ => 1
    let add := Table.Change.addUser 2 bob bob
    let set := Table.Change.setPassword 3 Table.guestName bob
    ((users.change add).change set).length = 4 ∧ Throughout Table.RoundTrips users
      [⟨users, add, users.change add⟩, ⟨users.change add, set, (users.change add).change set⟩] := by
  refine ⟨rfl, (passwd_roundTrips_iff (.snoc (.snoc .nil rfl) rfl)).mpr ?_⟩
  intro transition member
  simp only [List.nil_append, List.cons_append, List.mem_cons, List.not_mem_nil, or_false] at member
  rcases member with rfl | rfl
  · exact fun _ _ _ => by decide
  · trivial

/-- `x\n0:0:0:0:evil:/`. -/
def evilName : List UInt8 :=
  [0x78, 0x0A, 0x30, 0x3A, 0x30, 0x3A, 0x30, 0x3A, 0x30, 0x3A, 0x65, 0x76, 0x69, 0x6C, 0x3A, 0x2F]

/-- A user with that name is read back as two users with uid 0 and no password. -/
theorem evil_root :
    let users := Table.change (Table.init fun _ => 1) (.addUser 2 evilName bob)
    let loaded := (users.loadFromDisk users.saveToDisk).2
    loaded.map User.uid = [0, 1000, 1001, 0, 0] ∧
      loaded.authenticate [0x65, 0x76, 0x69, 0x6C] [] = true ∧
      users.map User.uid = [0, 1000, 1001, 1003] ∧ ¬ users.RoundTrips := by
  decide +kernel

end DBSos.Users
