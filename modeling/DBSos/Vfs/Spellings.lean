import DBSos.Vfs.Tmpfs

/-!
# Spellings of a path

`strip_prefix` drops every slash behind the mount, so a file has paths of any
length. Those longer than an entry of the permission table are never found there,
and answer with the default rights.
-/

namespace DBSos.Vfs

open DBSos.Syscall (Perm)

def Absolute (path : Path) : Prop := path.head? = some slash

instance (path : Path) : Decidable (Absolute path) := inferInstanceAs (Decidable (_ = _))

/-- The prefixes that the kernel mounts. -/
def kernelPrefixes : List Path := [(rootMount 0).pfx, (tmpMount 0).pfx, (homeMount 0).pfx]

/-- Every mount is one of the kernel's. -/
def KernelMounts (mounts : List MountEntry) : Prop := ∀ m ∈ mounts, m.pfx ∈ kernelPrefixes

/-- Another spelling, too long for the permission table. -/
def lengthened (m : MountEntry) (path : Path) : Path :=
  m.pfx ++ (List.replicate maxPath slash ++ path.drop m.pfx.length)

section Lengthened

variable {mounts : List MountEntry} {m n : MountEntry} {path : Path}

theorem kernelPrefix_getLast (kernel : m.pfx ∈ kernelPrefixes)
    (ends : m.pfx.getLast m.nonempty = slash) : m.pfx = [slash] := by
  have known : ∀ pfx ∈ kernelPrefixes, ∀ nonempty : pfx ≠ [],
      pfx.getLast nonempty = slash → pfx = [slash] := by decide
  exact known _ kernel _ ends

theorem lengthened_length : maxEntryPath < (lengthened m path).length := by
  simp only [lengthened, List.length_append, List.length_replicate, maxEntryPath, maxPath]
  omega

theorem boundary_slashes (path : Path) :
    Boundary m.pfx (List.replicate maxPath slash ++ path.drop m.pfx.length) :=
  .inr (.inr (.inr rfl))

theorem stripPrefix_lengthened :
    stripPrefix (lengthened m path) m.pfx.length = stripPrefix path m.pfx.length := by
  rw [stripPrefix, lengthened, List.drop_left, stripPrefix]
  simp

/-- A mount of the kernel's that covers the longer spelling is not longer than its prefix. -/
theorem length_le_of_covers_lengthened (kernel : n.pfx ∈ kernelPrefixes)
    (covers : n.covers (lengthened m path) = true) : n.pfx.length ≤ m.pfx.length := by
  by_contra longer
  obtain ⟨tail, split, -⟩ := covers_iff.mp covers
  have last : n.pfx.getLast n.nonempty = slash := by
    have small : n.pfx.length - 1 - m.pfx.length < maxPath := by
      have := n.fits
      omega
    have read : (lengthened m path)[n.pfx.length - 1]? = some slash := by
      rw [lengthened, List.getElem?_append_right (by omega),
        List.getElem?_append_left (by simpa using small), List.getElem?_replicate, if_pos small]
    rw [split, List.getElem?_append_left (by omega), ← List.getLast?_eq_getElem?] at read
    rw [List.getLast?_eq_some_getLast n.nonempty] at read
    exact Option.some.inj read
  have short := congrArg List.length (kernelPrefix_getLast kernel last)
  have := List.length_pos_of_ne_nil m.nonempty
  simp only [List.length_singleton] at short
  omega

/-- Up to the prefix the two spellings are the same. -/
theorem covers_lengthened_congr (covers : m.covers path = true)
    (short : n.pfx.length ≤ m.pfx.length) : n.covers path = n.covers (lengthened m path) := by
  obtain ⟨tail, rfl, boundary⟩ := covers_iff.mp covers
  rw [Bool.eq_iff_iff]
  exact ⟨covers_of_covers short (boundary_slashes _), covers_of_covers short boundary⟩

/-- The longer spelling goes to the same driver under the same name. -/
theorem resolveMount_lengthened (kernel : KernelMounts mounts) (absolute : Absolute path)
    (resolved : resolveMount mounts path = some m) :
    m ∈ mounts ∧ Absolute (lengthened m path) ∧
      resolveMount mounts (lengthened m path) = some m := by
  rw [resolveMount_absolute absolute] at resolved
  obtain ⟨origin, -, longest⟩ := foldl_better _ _ _ _ resolved
  obtain ⟨member, covers⟩ := origin.resolve_left nofun
  have absolute' : Absolute (lengthened m path) := by
    obtain ⟨tail, rfl, -⟩ := covers_iff.mp covers
    obtain ⟨first, rest, shape⟩ := List.exists_cons_of_ne_nil m.nonempty
    rw [Absolute, shape] at absolute
    rwa [Absolute, lengthened, shape]
  refine ⟨member, absolute', ?_⟩
  rw [resolveMount_absolute absolute', ← resolved]
  refine (foldl_better_congr (fun n other => ?_) none).symm
  by_cases short : n.pfx.length ≤ m.pfx.length
  · exact covers_lengthened_congr covers short
  · have uncovered : n.covers path = false :=
      Bool.eq_false_iff.mpr fun covers => short (longest n other covers)
    have uncovered' : n.covers (lengthened m path) = false :=
      Bool.eq_false_iff.mpr fun covers =>
        short (length_le_of_covers_lengthened (kernel n other) covers)
    rw [uncovered, uncovered']

end Lengthened

section Answers

variable {ι : Type} (mounts : List MountEntry) (locate : Nat → Path → Option ι)
  (table : PermTable) (current uid : Uid)

/-- The file that a path leads to: the driver's index, and what the driver finds
under the rest of the path. -/
def fileAt (path : Path) : Option (Nat × ι) :=
  (resolveMount mounts path).bind fun m =>
    (locate m.driverIdx (stripPrefix path m.pfx.length)).map fun file => (m.driverIdx, file)

/-- The permission checks tell no two spellings of one file apart. -/
def SpellingsAgree : Prop :=
  ∀ path other file, Absolute path → Absolute other →
    fileAt mounts locate path = some file → fileAt mounts locate other = some file →
    table.canRead current path uid = table.canRead current other uid ∧
      table.canWrite current path uid = table.canWrite current other uid

/-- A record that lets its user do what the default rights would. -/
def Redundant (perm : Perm) : Prop :=
  grantsRead perm uid = true ∧ (grantsWrite perm uid = true ↔ uid = current)

/-- No record of a file's path and no closed default makes a difference. -/
def TableMoot : Prop :=
  ∀ path, Absolute path → (fileAt mounts locate path).isSome = true →
    match table.find path with
    | some perm => Redundant current uid perm
    | none => uid = current ∨ ¬ (etcPrefix.isPrefixOf path ∨ rootPrefix.isPrefixOf path)

variable {mounts locate table current uid}

theorem redundant_default (known : uid ≠ 0) (path : Path) :
    Redundant current uid (defaultFor current path) ↔
      uid = current ∨ ¬ (etcPrefix.isPrefixOf path ∨ rootPrefix.isPrefixOf path) := by
  rw [Redundant]
  by_cases owner : uid = current
  · subst owner
    simp [defaultFor_owner.1, defaultFor_owner.2]
  · obtain ⟨write, read⟩ := defaultFor_stranger path known owner
    simp [read, write, owner]

/-- Every file has a spelling with the default rights of an open directory. -/
theorem exists_default_spelling (table : PermTable) (current : Uid) (kernel : KernelMounts mounts) (known : uid ≠ 0)
    {path : Path} {file : Nat × ι} (absolute : Absolute path)
    (found : fileAt mounts locate path = some file) :
    ∃ other, Absolute other ∧ fileAt mounts locate other = some file ∧
      Redundant current uid (table.get current other) := by
  obtain ⟨m, resolved, located⟩ := Option.bind_eq_some_iff.mp found
  obtain ⟨member, absolute', resolved'⟩ := resolveMount_lengthened kernel absolute resolved
  refine ⟨lengthened m path, absolute', ?_, ?_⟩
  · rw [fileAt, resolved', Option.bind_some, stripPrefix_lengthened]
    exact located
  · rw [table.get_of_long _ _ lengthened_length, redundant_default known]
    refine .inr ?_
    have open' : ∀ pfx ∈ kernelPrefixes, ∀ tail : Path,
        ¬ (etcPrefix.isPrefixOf (pfx ++ slash :: slash :: tail) = true ∨
          rootPrefix.isPrefixOf (pfx ++ slash :: slash :: tail) = true) := by
      intro pfx kernel tail
      rcases List.mem_cons.mp kernel with rfl | kernel
      · rintro (closed | closed) <;> exact Bool.false_ne_true closed
      · rcases List.mem_cons.mp kernel with rfl | kernel
        · rintro (closed | closed) <;> exact Bool.false_ne_true closed
        · rw [List.mem_singleton.mp kernel]
          rintro (closed | closed) <;> exact Bool.false_ne_true closed
    exact open' m.pfx (kernel m member) _

theorem redundant_get_iff (known : uid ≠ 0) (path : Path) :
    Redundant current uid (table.get current path) ↔
      match table.find path with
      | some perm => Redundant current uid perm
      | none => uid = current ∨ ¬ (etcPrefix.isPrefixOf path ∨ rootPrefix.isPrefixOf path) := by
  rw [PermTable.get]
  cases table.find path with
  | some perm => rfl
  | none => exact redundant_default known path

/-- Two spellings never disagree exactly when the permission table might as well
be empty. -/
theorem spellingsAgree_iff (kernel : KernelMounts mounts) (known : uid ≠ 0) :
    SpellingsAgree mounts locate table current uid ↔
      TableMoot mounts locate table current uid := by
  constructor
  · intro agree path absolute isSome
    obtain ⟨file, found⟩ := Option.isSome_iff_exists.mp isSome
    obtain ⟨other, absolute', found', read, write⟩ :=
      exists_default_spelling table current kernel known absolute found
    obtain ⟨sameRead, sameWrite⟩ := agree path other file absolute absolute' found found'
    exact (redundant_get_iff known path).mp 
      ⟨sameRead.trans read, (Bool.eq_iff_iff.mp sameWrite).trans write⟩
  · intro moot path other file absolute absolute' found found'
    obtain ⟨read, write⟩ :=
      (redundant_get_iff known path).mpr (moot path absolute (by simp [found]))
    obtain ⟨read', write'⟩ :=
      (redundant_get_iff known other).mpr (moot other absolute' (by simp [found']))
    exact ⟨read.trans read'.symm, Bool.eq_iff_iff.mpr (write.trans write'.symm)⟩

end Answers

section Samples

/-- The kernel's mounts, the RAM file system being driver 1. -/
def bootMounts : List MountEntry :=
  [rootMount 0, tmpMount 1, homeMount 2]

/-- One file, `a`, in the RAM file system. -/
def oneFile : Tmpfs := ((Tmpfs.empty (some fun _ => 0)).openPath (ascii ['a']) oCreat).2

def locateOneFile (driverIdx : Nat) (rel : Path) : Option TmpSlot :=
  if driverIdx = 1 then (oneFile.find (norm rel)).map Prod.fst else none

/-- `/tmp/a` is for user 1 alone. -/
def privateFile : PermTable := PermTable.empty.set (ascii ['/', 't', 'm', 'p', '/', 'a']) ⟨1, 1, 0o600⟩

theorem spellingsAgree_empty :
    SpellingsAgree bootMounts locateOneFile PermTable.empty 2 2 ∧
      (fileAt bootMounts locateOneFile (ascii ['/', 't', 'm', 'p', '/', 'a'])).isSome = true :=
  ⟨(spellingsAgree_iff (by unfold KernelMounts; decide) (by decide)).mpr
    fun _ _ _ => .inl rfl, by decide⟩

/-- User 2 reads and writes the file of user 1 as `/tmp//a`. -/
theorem slash_bypasses : ¬ SpellingsAgree bootMounts locateOneFile privateFile 2 2 := by
  intro agree
  have same := agree (ascii ['/', 't', 'm', 'p', '/', 'a'])
    (ascii ['/', 't', 'm', 'p', '/', '/', 'a']) (1, 0) (by decide) (by decide)
    (by decide) (by decide)
  exact absurd same.1 (by decide)

end Samples

end DBSos.Vfs
