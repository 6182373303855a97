import Mathlib.Algebra.GroupWithZero.Nat
import Mathlib.Logic.Function.Iterate

/-!
# The user table

At most sixteen users, found by name or by number. Passwords are kept as salted
hashes, and a hash of 0 stands for no password at all.
-/

namespace DBSos.Users

/-- `User`, with names in place of the arrays and their lengths. -/
structure User where
  uid : Nat
  gid : Nat
  name : List UInt8
  home : List UInt8
  passwordHash : UInt32
  salt : UInt32
deriving DecidableEq, Repr

/-- `MAX_USERS`. -/
def maxUsers : Nat := 16

/-- `USERS[..USER_COUNT]`. -/
abbrev Table := List User

/-! ## Passwords -/

/-- The loops of the hash functions over a byte string. -/
def mix (start : UInt32) (bytes : List UInt8) (addend : UInt32) : UInt32 :=
  bytes.foldl (fun h b => h * 33 + b.toUInt32 + addend) start

/-- `hash_password`. -/
def hashPassword (pw : List UInt8) : UInt32 := mix 5381 pw 0

/-- `hash_password_salted`. -/
def hashPasswordSalted (pw : List UInt8) (salt : UInt32) : UInt32 :=
  (fun h => h * 33 ^^^ salt)^[100] (mix (5381 ^^^ salt) pw (salt &&& 0xFF))

/-- `generate_salt`, at a reading of the timer. -/
def generateSalt (ticks : UInt32) (uid : Nat) (name : List UInt8) : UInt32 :=
  let h := mix (ticks * 2654435761 + UInt32.ofNat uid * 1597334677) name 0
  if h = 0 then 0x9E3779B9 ^^^ UInt32.ofNat uid else h

/-- The hash and the salt that a password is kept as. -/
def credentials (ticks : UInt32) (uid : Nat) (name pw : List UInt8) : UInt32 × UInt32 :=
  if pw = [] then (0, 0)
  else (hashPasswordSalted pw (generateSalt ticks uid name), generateSalt ticks uid name)

namespace Table

variable (users : Table)

/-- `find_by_name`. -/
def findByName (name : List UInt8) : Option User := users.find? fun u => u.name = name

/-- `find_by_uid`. -/
def findByUid (uid : Nat) : Option User := users.find? fun u => u.uid = uid

/-- `authenticate`. -/
def authenticate (name password : List UInt8) : Bool :=
  match users.findByName name with
  | none => false
  | some u =>
    if u.passwordHash = 0 then true
    else if u.salt = 0 then u.passwordHash = hashPassword password
    else u.passwordHash = hashPasswordSalted password u.salt

/-! ## Changes -/

/-- `init_user_salted`; a full table is left as it is. -/
def initUserSalted (ticks : UInt32) (uid gid : Nat) (name home pw : List UInt8) : Table :=
  if users.length < maxUsers then
    let (passwordHash, salt) := credentials ticks uid name pw
    users ++ [{ uid, gid, name := name.take 31, home := home.take 63, passwordHash, salt }]
  else users

/-- The home directory that `add_user` gives a name. -/
def homeOf (name : List UInt8) : List UInt8 :=
  [0x2F, 0x68, 0x6F, 0x6D, 0x65, 0x2F] ++ name.take 58

/-- `add_user`. -/
def addUser (ticks : UInt32) (name password : List UInt8) : Bool × Table :=
  if name = [] ∨ (users.findByName name).isSome then (false, users)
  else
    let uid := 1000 + users.length
    (true, users.initUserSalted ticks uid uid name (homeOf name) password)

/-- `set_password`. -/
def setPassword (ticks : UInt32) (name newPw : List UInt8) : Bool × Table :=
  match users.findIdx? fun u => u.name = name with
  | none => (false, users)
  | some idx => (true, users.modify idx fun u =>
    let (passwordHash, salt) := credentials ticks u.uid name newPw
    { u with passwordHash, salt })

/-- `root`. -/
def rootName : List UInt8 := [0x72, 0x6F, 0x6F, 0x74]

/-- `guest`. -/
def guestName : List UInt8 := [0x67, 0x75, 0x65, 0x73, 0x74]

/-- `user`. -/
def userName : List UInt8 := [0x75, 0x73, 0x65, 0x72]

local instance neZero_ticks : NeZero 3 := ⟨by decide⟩

/-- The users that `init` creates, with a reading of the timer for each. -/
def init (ticks : Fin 3 → UInt32) : Table :=
  ((Table.initUserSalted [] (ticks 0) 0 0 rootName (0x2F :: rootName) rootName).initUserSalted
      (ticks 1) 1000 1000 guestName (homeOf guestName) []).initUserSalted
    (ticks 2) 1001 1001 userName (homeOf userName) userName

end Table

end DBSos.Users
