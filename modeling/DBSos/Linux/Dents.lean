import DBSos.Lib.Buffer
import DBSos.Linux.Files

/-!
# Directory records

`sys_getdents` counts a record as nineteen bytes and the name, puts the name at byte 24 and a
zero behind it. The space check and the next record go by the count.
-/

namespace DBSos.Linux

open DBSos.Lib DBSos.Syscall DBSos.Vfs

/-- The name of an entry: the bytes in front of the first zero, if there is one. -/
def nameOf (e : DirEntry) : List UInt8 := e.name.toList.takeWhile (· ≠ 0)

/-- `reclen`. -/
def recLen (e : DirEntry) : Nat := 19 + (nameOf e).length

/-- `d_type`. -/
def dType (e : DirEntry) : UInt8 := if e.isDir then 4 else 8

/-- Bytes to be written, with their distance from `dirp`. -/
abbrev Store := Nat × List UInt8

/-- The entry at the start of `entries`. -/
def emptyEntry : DirEntry := ⟨Vector.replicate 32 0, false, 0⟩

/-- What is written for entry `i` at `offset`. -/
def direntStores (i offset : Nat) (e : DirEntry) : List Store :=
  [(offset, Buffer.digits (i + 1) 8), (offset + 8, Buffer.digits (offset + recLen e) 8),
    (offset + 16, Buffer.digits (recLen e) 2), (offset + 18, [dType e]),
    (offset + 24, nameOf e), (offset + 24 + (nameOf e).length, [0])]

/-- The loop of `sys_getdents` over what is left of `entries`: where it stops, and what it
writes; `none` is an index behind the array. -/
def getdentsLoop (n count : Nat) : List DirEntry → (i offset : Nat) → Option (Nat × List Store)
  | [], i, offset => if i < n then none else some (offset, [])
  | e :: rest, i, offset =>
    if i < n then
      if offset + recLen e > count then some (offset, [])
      else
        (getdentsLoop n count rest (i + 1) (offset + recLen e)).map fun (stop, stores) =>
          (stop, direntStores i offset e ++ stores)
    else some (offset, [])

/-- The array `entries` behind `readdir`. -/
def entriesOf (listing : Option (List DirEntry)) : List DirEntry :=
  listing.getD [] ++ List.replicate (32 - (listing.getD []).length) emptyEntry

/-- `n as usize`; an error is -1. -/
def asUsize (listing : Option (List DirEntry)) : Nat := listing.elim (2 ^ 64 - 1) List.length

namespace World

variable {δ ρ : Type} (w : World δ ρ) (i : Slot)

/-- `copy_path_from_user` on the path of an entry. -/
def storedPath (entry : LinuxFd) : Option (Vector UInt8 128) :=
  let name := entry.path.toList.takeWhile fun byte => byte ≠ 0
  if name.length < 128 then some (padName name) else none

/-- The writes, one after the other; the processor takes them at any alignment. -/
def putStores (dirp : BitVec 64) (stores : List Store) : World δ ρ :=
  stores.foldl (fun w store => w.writeUser (dirp + BitVec.ofNat 64 store.1) store.2) w

/-- `sys_getdents`; `none` is a panic. -/
def sysGetdents (fd : BitVec 32) (dirp count : BitVec 64) : Option (BitVec 64 × World δ ρ) :=
  match w.usedFd i fd with
  | none => some (errno linuxEBADF, w)
  | some idx =>
    match storedPath ((w.tasks i).fds idx) with
    | none => some (errno linuxENOENT, w)
    | some path =>
      let listing := w.vfs.readdir w.machine.vfsUid path.toList 32
      (getdentsLoop (asUsize listing) count.toNat (entriesOf listing) 0 0).map
        fun (offset, stores) => (BitVec.ofNat 64 offset, w.putStores dirp stores)

/-- The caller's memory from `dirp` on. -/
def seen (dirp : BitVec 64) : Buffer := fun k => w.machine.user (dirp + BitVec.ofNat 64 k)

/-- The same with other contents of the caller's memory. -/
def withUser (user : BitVec 64 → UInt8) : World δ ρ :=
  { w with machine := { w.machine with user := user } }

end World

/-- From `offset` to `stop`, by the lengths that the records give, stand records of the entries,
numbered from `i` on: at each the number, the type and the name with a zero behind it. -/
inductive Records (buf : Buffer) (stop : Nat) : (i offset : Nat) → List DirEntry → Prop where
  | done {i : Nat} : Records buf stop i stop []
  | entry {i offset : Nat} {e : DirEntry} {rest : List DirEntry}
      (number : buf.number offset 8 = i + 1) (type : buf (offset + 18) = dType e)
      (name : buf.slice (offset + 19) (nameOf e).length = nameOf e)
      (ended : buf (offset + 19 + (nameOf e).length) = 0)
      (later : Records buf stop (i + 1) (offset + buf.number (offset + 16) 2) rest) :
      Records buf stop i offset (e :: rest)

/-- The call writes inside the caller's buffer, and its records are a prefix of the listing. -/
def Lists {δ ρ : Type} (listing : Option (List DirEntry)) (dirp count : BitVec 64)
    (w : World δ ρ) (result : Option (BitVec 64 × World δ ρ)) : Prop :=
  ∃ value w', result = some (value, w') ∧
    (∀ k, count.toNat ≤ k → k < 2 ^ 64 → w'.seen dirp k = w.seen dirp k) ∧
    ∃ shown, shown <+: listing.getD [] ∧ Records (w'.seen dirp) value.toNat 0 0 shown

/-- The code has room for a first record. -/
def FirstFits (listing : Option (List DirEntry)) (count : Nat) : Prop :=
  match listing with
  | none => 19 ≤ count
  | some [] => False
  | some (e :: _) => recLen e ≤ count

/-! ## What is written where -/

theorem length_nameOf_le (e : DirEntry) : (nameOf e).length ≤ 32 :=
  ((e.name.toList.takeWhile_prefix _).length_le).trans (le_of_eq e.name.length_toList)

section Loop

variable {n count i offset stop : Nat} {entries : List DirEntry} {stores : List Store}

/-- The loop stops here, because the listing ends or the buffer is full, or it writes the record
of an entry that fits and goes on. -/
theorem getdentsLoop_cases (looped : getdentsLoop n count entries i offset = some (stop, stores)) :
    (stop = offset ∧ stores = [] ∧
      (n ≤ i ∨ ∃ e rest, entries = e :: rest ∧ count < offset + recLen e)) ∨
      ∃ e rest later, entries = e :: rest ∧ offset + recLen e ≤ count ∧
        getdentsLoop n count rest (i + 1) (offset + recLen e) = some (stop, later) ∧
        stores = direntStores i offset e ++ later := by
  cases entries with
  | nil =>
    rw [getdentsLoop] at looped
    split_ifs at looped with more
    obtain ⟨rfl, rfl⟩ := Prod.mk.inj (Option.some.inj looped)
    exact .inl ⟨rfl, rfl, .inl (Nat.not_lt.mp more)⟩
  | cons e rest =>
    rw [getdentsLoop] at looped
    split_ifs at looped with more full
    · obtain ⟨rfl, rfl⟩ := Prod.mk.inj (Option.some.inj looped)
      exact .inl ⟨rfl, rfl, .inr ⟨e, rest, rfl, full⟩⟩
    · obtain ⟨⟨stop', later⟩, followed, same⟩ := Option.map_eq_some_iff.mp looped
      obtain ⟨rfl, rfl⟩ := Prod.mk.inj same
      exact .inr ⟨e, rest, later, rfl, Nat.not_lt.mp full, followed, rfl⟩
    · obtain ⟨rfl, rfl⟩ := Prod.mk.inj (Option.some.inj looped)
      exact .inl ⟨rfl, rfl, .inl (Nat.not_lt.mp more)⟩

theorem direntStores_within {e : DirEntry} {store : Store}
    (member : store ∈ direntStores i offset e) :
    offset ≤ store.1 ∧ store.1 + store.2.length ≤ offset + 64 := by
  have short := length_nameOf_le e
  simp only [direntStores, List.mem_cons, List.not_mem_nil, or_false] at member
  rcases member with rfl | rfl | rfl | rfl | rfl | rfl <;>
    simp only [Buffer.length_digits, List.length_singleton] <;> omega

/-- The writes of the loop lie behind the records that stand already, and it stops inside the
caller's buffer. -/
theorem getdentsLoop_spec (looped : getdentsLoop n count entries i offset = some (stop, stores)) :
    offset ≤ stop ∧ (offset ≤ count → stop ≤ count) ∧
      ∀ store ∈ stores, offset ≤ store.1 ∧
        store.1 + store.2.length ≤ offset + 64 * entries.length := by
  induction entries generalizing i offset stop stores with
  | nil =>
    rcases getdentsLoop_cases looped with ⟨rfl, rfl, -⟩ | ⟨e, rest, later, impossible, -⟩
    · exact ⟨le_rfl, id, nofun⟩
    · cases impossible
  | cons first others ih =>
    rcases getdentsLoop_cases looped with
      ⟨rfl, rfl, -⟩ | ⟨e, rest, later, same, fits, followed, rfl⟩
    · exact ⟨le_rfl, id, nofun⟩
    · obtain ⟨rfl, rfl⟩ := List.cons.inj same
      obtain ⟨beyond, inside, behind⟩ := ih followed
      have short := length_nameOf_le first
      simp only [recLen] at beyond fits inside behind
      refine ⟨by omega, fun _ => inside (by omega), fun store member => ?_⟩
      rw [List.length_cons]
      rcases List.mem_append.mp member with here | there
      · have within := direntStores_within here
        omega
      · have within := behind store there
        omega

end Loop

namespace World

variable {δ ρ : Type} {w : World δ ρ} {dirp : BitVec 64} {stores : List Store} {k : Nat}

/-- A byte that a write does not reach stays. -/
theorem seen_writeUser_apart {store : Store} (small : k < 2 ^ 64)
    (apart : k < store.1 ∧ store.1 + store.2.length ≤ 2 ^ 64 ∨ store.1 + store.2.length ≤ k) :
    (w.writeUser (dirp + BitVec.ofNat 64 store.1) store.2).seen dirp k = w.seen dirp k := by
  have distance : (dirp + BitVec.ofNat 64 k - (dirp + BitVec.ofNat 64 store.1)).toNat =
      if k < store.1 % 2 ^ 64 then k + 2 ^ 64 - store.1 % 2 ^ 64 else k - store.1 % 2 ^ 64 := by
    simp only [BitVec.toNat_sub, BitVec.toNat_add, BitVec.toNat_ofNat, Nat.mod_eq_of_lt small]
    have base := dirp.isLt
    have other := Nat.mod_lt store.1 (show 0 < 2 ^ 64 by decide)
    split_ifs <;> omega
  simp only [seen, writeUser, Machine.writeBytes]
  rw [distance]
  refine List.getD_eq_default _ _ ?_
  split_ifs <;> omega

theorem seen_putStores_apart (small : k < 2 ^ 64)
    (apart : ∀ store ∈ stores, k < store.1 ∧ store.1 + store.2.length ≤ 2 ^ 64 ∨
      store.1 + store.2.length ≤ k) :
    (w.putStores dirp stores).seen dirp k = w.seen dirp k := by
  induction stores generalizing w with
  | nil => rfl
  | cons store rest ih =>
    rw [putStores, List.foldl_cons, ← putStores,
      ih fun other member => apart other (List.mem_cons_of_mem _ member),
      seen_writeUser_apart small (apart store List.mem_cons_self)]

theorem putStores_nil (w : World δ ρ) (dirp : BitVec 64) : w.putStores dirp [] = w := rfl

theorem putStores_append (w : World δ ρ) (dirp : BitVec 64) (first second : List Store) :
    w.putStores dirp (first ++ second) = (w.putStores dirp first).putStores dirp second :=
  List.foldl_append

/-- The first byte of a record is the low one of its number. -/
theorem seen_direntStores_start {i offset : Nat} (e : DirEntry) (small : offset + 64 ≤ 2 ^ 64) :
    (w.putStores dirp (direntStores i offset e)).seen dirp offset = UInt8.ofNat (i + 1) := by
  have short := length_nameOf_le e
  rw [direntStores, putStores, List.foldl_cons, ← putStores, seen_putStores_apart (by omega)]
  · simp only [seen, writeUser, Machine.writeBytes]
    rw [BitVec.sub_self]
    rfl
  · intro store member
    simp only [List.mem_cons, List.not_mem_nil, or_false] at member
    rcases member with rfl | rfl | rfl | rfl | rfl <;>
      simp only [Buffer.length_digits, List.length_singleton] <;> omega

/-- Byte 19, where the first name is looked for, is never written for a first record with a
name; behind one without, it is left as it is or the next record puts its number there. -/
theorem seen_nineteen (w : World δ ρ) (dirp : BitVec 64) {n count stop : Nat} {e : DirEntry}
    {rest : List DirEntry}
    (looped : getdentsLoop n count (e :: rest) 0 0 = some (stop, stores))
    (short : rest.length < 32) :
    (w.putStores dirp stores).seen dirp 19 = w.seen dirp 19 ∨
      nameOf e = [] ∧ (w.putStores dirp stores).seen dirp 19 = 2 := by
  have ownShort := length_nameOf_le e
  have firstApart : ∀ store ∈ direntStores 0 0 e,
      19 < store.1 ∧ store.1 + store.2.length ≤ 2 ^ 64 ∨ store.1 + store.2.length ≤ 19 := by
    intro store member
    have within := direntStores_within member
    simp only [direntStores, List.mem_cons, List.not_mem_nil, or_false] at member
    rcases member with rfl | rfl | rfl | rfl | rfl | rfl <;>
      simp only [Buffer.length_digits, List.length_singleton] at within ⊢ <;> omega
  rcases getdentsLoop_cases looped with ⟨-, rfl, -⟩ | ⟨e', rest', later, same, -, followed, rfl⟩
  · exact .inl rfl
  obtain ⟨rfl, rfl⟩ := List.cons.inj same
  obtain ⟨-, -, behind⟩ := getdentsLoop_spec followed
  rw [putStores_append]
  by_cases named : nameOf e = []
  swap
  · have positive := List.length_pos_iff.mpr named
    refine .inl ?_
    rw [seen_putStores_apart (by decide), seen_putStores_apart (by decide) firstApart]
    intro store member
    have within := behind store member
    simp only [recLen] at within
    omega
  rcases getdentsLoop_cases followed with
    ⟨-, rfl, -⟩ | ⟨next, others, last, follows, -, further, rfl⟩
  · rw [putStores_nil]
    exact .inl (seen_putStores_apart (by decide) firstApart)
  obtain ⟨-, -, farther⟩ := getdentsLoop_spec further
  have fewer : others.length < rest.length := by simp [follows]
  have start : 0 + recLen e = 19 := by rw [recLen, named]; rfl
  rw [start] at farther ⊢
  rw [putStores_append, seen_putStores_apart (by decide), seen_direntStores_start _ (by decide)]
  · exact .inr ⟨named, rfl⟩
  · intro store member
    have within := farther store member
    have nextShort := length_nameOf_le next
    simp only [recLen] at within
    omega

end World

variable {δ ρ : Type} {w : World δ ρ} {i : Slot} {listing : Option (List DirEntry)}

/-- If no record fits, none is written. -/
theorem getdentsLoop_of_not_fits {count : Nat} (tight : ¬ FirstFits listing count) :
    getdentsLoop (asUsize listing) count (entriesOf listing) 0 0 = some (0, []) := by
  have full : ∀ e rest, count < recLen e →
      getdentsLoop (asUsize listing) count (e :: rest) 0 0 = some (0, []) := by
    intro e rest larger
    rw [getdentsLoop]
    split_ifs with more full
    · rfl
    · omega
    · rfl
  rcases listing with _ | _ | ⟨e, rest⟩
  · exact full emptyEntry _ (Nat.not_le.mp tight)
  · rfl
  · exact full e _ (Nat.not_le.mp tight)

/-- If a record fits, the first is written. -/
theorem getdentsLoop_of_fits {count stop : Nat} {stores : List Store}
    (fits : FirstFits listing count)
    (looped : getdentsLoop (asUsize listing) count (entriesOf listing) 0 0 = some (stop, stores)) :
    19 ≤ stop := by
  have some' : 0 < asUsize listing := by
    rcases listing with _ | _ | ⟨e, rest⟩
    · decide
    · exact fits.elim
    · exact Nat.succ_pos _
  rcases getdentsLoop_cases looped with ⟨-, -, none | ⟨e, rest, first, full⟩⟩ |
    ⟨e, rest, later, -, -, followed, -⟩
  · omega
  · rcases listing with _ | _ | ⟨e', rest'⟩
    · obtain ⟨rfl, -⟩ := List.cons.inj first
      have nineteen : 19 ≤ count := fits
      have length : recLen emptyEntry = 19 := by decide
      omega
    · exact fits.elim
    · obtain ⟨rfl, -⟩ := List.cons.inj first
      have fitting : recLen e' ≤ count := fits
      omega
  · have beyond := (getdentsLoop_spec followed).1
    simp only [recLen] at beyond
    omega

/-- What `readdir` finds for a path. -/
def World.readdir (w : World δ ρ) (path : Vector UInt8 128) : Option (List DirEntry) :=
  w.vfs.readdir w.machine.vfsUid path.toList 32

theorem World.sysGetdents_eq {fd : BitVec 32} {idx : FdIdx} {path : Vector UInt8 128}
    (used : w.usedFd i fd = some idx) (stored : World.storedPath ((w.tasks i).fds idx) = some path)
    (dirp count : BitVec 64) :
    w.sysGetdents i fd dirp count =
      (getdentsLoop (asUsize (w.readdir path)) count.toNat (entriesOf (w.readdir path)) 0 0).map
        fun (offset, stores) => (BitVec.ofNat 64 offset, w.putStores dirp stores) := by
  rw [World.sysGetdents, used]
  dsimp only
  rw [stored]
  rfl

/-- A byte that the first name does not begin with. -/
def otherByte (e : DirEntry) : UInt8 := (nameOf e).head?.elim 1 fun c => c + 1

theorem otherByte_hides {e : DirEntry} {buf : Buffer}
    (name : buf.slice (0 + 19) (nameOf e).length = nameOf e)
    (ended : buf (0 + 19 + (nameOf e).length) = 0) :
    ¬ (buf 19 = otherByte e ∨ nameOf e = [] ∧ buf 19 = 2) := by
  unfold otherByte
  cases named : nameOf e with
  | nil =>
    rw [named] at ended
    have zero : buf 19 = 0 := ended
    rw [zero]
    decide
  | cons c cs =>
    rw [named] at name
    have first : buf 19 = c := by
      rw [Buffer.slice, List.length_cons, List.range_succ_eq_map] at name
      exact (List.cons.inj name).1
    rw [first]
    simp

/-- Whatever the caller's memory holds, `sys_getdents` writes inside the buffer and shows a
prefix of the listing exactly when no record fits at all. -/
theorem lists_iff {fd : BitVec 32} {idx : FdIdx} {path : Vector UInt8 128}
    (used : w.usedFd i fd = some idx) (stored : World.storedPath ((w.tasks i).fds idx) = some path)
    (room : ∀ l, w.readdir path = some l → l.length ≤ 32) (dirp count : BitVec 64) :
    (∀ user, Lists (w.readdir path) dirp count (w.withUser user)
      ((w.withUser user).sysGetdents i fd dirp count)) ↔
      ¬ FirstFits (w.readdir path) count.toNat := by
  have call : ∀ user, (w.withUser user).sysGetdents i fd dirp count =
      (getdentsLoop (asUsize (w.readdir path)) count.toNat (entriesOf (w.readdir path)) 0 0).map
        fun (offset, stores) =>
          (BitVec.ofNat 64 offset, (w.withUser user).putStores dirp stores) :=
    fun user => World.sysGetdents_eq (w := w.withUser user) used stored dirp count
  simp only [call]
  generalize w.readdir path = listing at room
  constructor
  · intro always fits
    -- memory in which nothing looks like the first name
    obtain ⟨value, w', called, -, shown, listed, records⟩ :=
      always fun _ => (listing.bind List.head?).elim 0 otherByte
    obtain ⟨⟨stop, stores⟩, looped, same⟩ := Option.map_eq_some_iff.mp called
    obtain ⟨rfl, rfl⟩ := Prod.mk.inj same
    have inside := (getdentsLoop_spec looped).2.1 (Nat.zero_le _)
    have value : (BitVec.ofNat 64 stop).toNat = stop := by
      rw [BitVec.toNat_ofNat, Nat.mod_eq_of_lt (inside.trans_lt count.isLt)]
    have beyond := getdentsLoop_of_fits fits looped
    rw [value] at records
    cases records with
    | done => omega
    | @entry _ _ e rest _ _ name ended _ =>
      rcases listing with _ | entries
      · exact absurd listed.length_le (Nat.not_succ_le_zero _)
      obtain ⟨others, rfl⟩ : ∃ others, entries = e :: others := by
        obtain ⟨behind, rfl⟩ := listed
        exact ⟨_, rfl⟩
      have few := room _ rfl
      have nineteen := World.seen_nineteen (w.withUser fun _ => otherByte e) dirp looped
        (by simp at few ⊢; omega)
      exact otherByte_hides name ended nineteen
  · intro tight user
    rw [getdentsLoop_of_not_fits tight]
    exact ⟨_, _, rfl, fun _ _ _ => rfl, [], List.nil_prefix, .done⟩

/-! ## A directory with one file -/

/-- The file `a`. -/
def entryA : DirEntry := ⟨Vector.ofFn fun k => if k.val = 0 then 97 else 0, false, 0⟩

/-- A driver whose directories hold the file `a`. -/
def onlyA : FsOps Unit where
  openPath _ _ disk := (none, disk)
  close _ disk := disk
  read _ _ _ disk := (none, disk)
  write _ _ _ disk := (none, disk)
  stat _ _ := none
  readdir _ _ _ := some [entryA]
  mkdir _ disk := (false, disk)
  rmdir _ disk := (false, disk)
  unlink _ disk := (false, disk)

/-- A Linux task that has opened the root directory as descriptor 0. -/
def directoryOpen : World Unit Unit where
  tasks i :=
    if i = 0 then
      { LinuxTask.empty with
        pid := 1
        alive := true
        fds := fun idx =>
          if idx = 0 then { LinuxFd.empty with inUse := true, path := padName [47] } else .empty }
    else .empty
  machine :=
    { kernel := Syscall.oneTask.kernel
      user := fun _ => 0
      currentUid := 0
      users := []
      mmioRegions := []
      framebuffer := Syscall.oneTask.framebuffer
      rest := { Tables.empty () with drivers := [onlyA], mounts := [Vfs.rootMount 0] } }
  rest := ()

theorem directoryOpen_stored :
    World.storedPath ((directoryOpen.tasks 0).fds 0) = some (padName [47]) := by
  decide +kernel

theorem directoryOpen_readdir : directoryOpen.readdir (padName [47]) = some [entryA] := by
  have mounted : (resolveMount directoryOpen.vfs.mounts (padName [47]).toList).map
      MountEntry.driverIdx = some 0 := by
    decide +kernel
  obtain ⟨m, resolved, driver⟩ := Option.map_eq_some_iff.mp mounted
  rw [World.readdir, Tables.readdir, if_pos (by decide +kernel), Tables.resolve, resolved,
    Option.bind_some, driver]
  rfl

/-- With room for 19 bytes nothing is listed, and with room for 20 not the file. -/
theorem lists_directoryOpen :
    (∀ user, Lists (directoryOpen.readdir (padName [47])) 0 19 (directoryOpen.withUser user)
      ((directoryOpen.withUser user).sysGetdents 0 0 0 19)) ∧
    ¬ ∀ user, Lists (directoryOpen.readdir (padName [47])) 0 20 (directoryOpen.withUser user)
      ((directoryOpen.withUser user).sysGetdents 0 0 0 20) := by
  have used : directoryOpen.usedFd 0 0 = some 0 := by decide +kernel
  have room : ∀ l, directoryOpen.readdir (padName [47]) = some l → l.length ≤ 32 := by
    intro l found
    rw [directoryOpen_readdir] at found
    obtain rfl := Option.some.inj found
    decide
  have length : recLen entryA = 20 := by decide
  constructor
  · refine (lists_iff used directoryOpen_stored room 0 19).mpr ?_
    rw [directoryOpen_readdir]
    exact fun fits => absurd (length ▸ fits : 20 ≤ (19#64).toNat) (by decide)
  · intro always
    refine (lists_iff used directoryOpen_stored room 0 20).mp always ?_
    rw [directoryOpen_readdir]
    exact length.le

/-- Into zeroed memory of 20 bytes the name is written behind them, and nothing where it is
looked for. -/
theorem name_misplaced :
    ¬ ∀ (w : World Unit Unit) (i : Slot) (fd : BitVec 32) (idx : FdIdx) (path : Vector UInt8 128)
      (dirp count : BitVec 64), w.usedFd i fd = some idx →
      World.storedPath ((w.tasks i).fds idx) = some path →
      (∀ l, w.readdir path = some l → l.length ≤ 32) →
      Lists (w.readdir path) dirp count w (w.sysGetdents i fd dirp count) := by
  intro claim
  obtain ⟨value, w', called, -, shown, listed, records⟩ :=
    claim directoryOpen 0 0 0 (padName [47]) 0 20 (by decide +kernel) directoryOpen_stored (by
      intro l found
      rw [directoryOpen_readdir] at found
      obtain rfl := Option.some.inj found
      decide)
  have result : (directoryOpen.sysGetdents 0 0 0 20).map (fun r => (r.1, r.2.seen 0 19)) =
      some (20, 0) := by decide +kernel
  rw [called] at result
  obtain ⟨twenty, unwritten⟩ := Prod.mk.inj (Option.some.inj result)
  rw [directoryOpen_readdir] at listed
  dsimp only at twenty unwritten
  rw [twenty] at records
  cases records with
  | @entry _ _ e rest _ _ name _ _ =>
    obtain ⟨behind, spelled⟩ := listed
    obtain rfl : entryA = e := (List.cons.inj spelled).1.symm
    have first : w'.seen 0 19 = 97 := (List.cons.inj name).1
    rw [unwritten] at first
    cases first

end DBSos.Linux
