import DBSos.Vfs.Permissions

/-!
# Rights set and read back

`set` finds an entry by the whole path and makes a new one for the first 64 bytes of it,
so the rights of a longer path are stored under the path of another file.
-/

namespace DBSos.Vfs.PermTable

open DBSos.Syscall (Perm)

variable {t : PermTable} {current : Uid} {p q : Path} {x : Perm}
  {entries replaced : List PermEntry}

/-- The rights stored under a path. -/
def stored (entries : List PermEntry) (path : Path) : Option Perm :=
  (entries.find? fun entry => entry.path = path).map PermEntry.perm

theorem stored_cons (entry : PermEntry) (rest : List PermEntry) (path : Path) :
    stored (entry :: rest) path =
      if entry.path = path then some entry.perm else stored rest path := by
  unfold stored
  rw [List.find?_cons]
  by_cases here : entry.path = path <;> simp [here]

theorem stored_append (front : List PermEntry) (entry : PermEntry) (path : Path) :
    stored (front ++ [entry]) path =
      (stored front path).or (if entry.path = path then some entry.perm else none) := by
  induction front with
  | nil => rw [List.nil_append, stored_cons]; rfl
  | cons first rest ih =>
    rw [List.cons_append, stored_cons, stored_cons, ih]
    split_ifs <;> rfl

theorem stored_eq_none_iff {path : Path} :
    stored entries path = none ↔ ∀ entry ∈ entries, entry.path ≠ path := by
  simp [stored]

/-- Replacing the rights of a path changes what is found under it alone. -/
theorem stored_replace (found : replace p x entries = some replaced) (path : Path) :
    stored replaced path = if path = p then some x else stored entries path := by
  induction entries generalizing replaced with
  | nil => cases found
  | cons entry rest ih =>
    rw [replace] at found
    split_ifs at found with here
    · obtain rfl := Option.some.inj found
      rw [stored_cons, stored_cons]
      dsimp only
      by_cases same : path = p
      · rw [if_pos (here.trans same.symm), if_pos same]
      · have away : entry.path ≠ path := fun other => same (other.symm.trans here)
        rw [if_neg away, if_neg away, if_neg same]
    · obtain ⟨later, foundLater, rfl⟩ := Option.map_eq_some_iff.mp found
      rw [stored_cons, stored_cons, ih foundLater]
      by_cases same : path = p
      · rw [if_neg (same ▸ here), if_pos same, if_pos same]
      · rw [if_neg same, if_neg same]

/-- `set` looks for an entry exactly where `get` does. -/
theorem replace_eq_none_iff : replace p x entries = none ↔ stored entries p = none := by
  induction entries with
  | nil => exact iff_of_true rfl rfl
  | cons entry rest ih =>
    rw [replace, stored_cons]
    split_ifs with here
    · simp
    · rw [Option.map_eq_none_iff, ih]

theorem get_eq (t : PermTable) (current : Uid) (path : Path) :
    t.get current path = (stored t.entries path).getD (defaultFor current path) := rfl

/-- The table has a free entry, or one for this path. -/
def Accepts (t : PermTable) (path : Path) : Prop :=
  t.entries.length < maxPerms ∨ ∃ entry ∈ t.entries, entry.path = path

instance (t : PermTable) (path : Path) : Decidable (t.Accepts path) :=
  inferInstanceAs (Decidable (_ ∨ _))

/-- The rights of a path with an entry are replaced in it. -/
theorem stored_set_found (found : stored t.entries p ≠ none) (path : Path) :
    stored (t.set p x).entries path = if path = p then some x else stored t.entries path := by
  unfold set
  split
  · rename_i replaced isReplaced
    exact stored_replace isReplaced path
  · rename_i missing
    exact absurd (replace_eq_none_iff.mp missing) found

/-- A path without an entry gets one for its first 64 bytes. -/
theorem stored_set_new (accepts : t.Accepts p) (missing : stored t.entries p = none) (path : Path) :
    stored (t.set p x).entries path =
      (stored t.entries path).or (if p.take maxEntryPath = path then some x else none) := by
  have room : t.entries.length < maxPerms := by
    refine accepts.resolve_right ?_
    rintro ⟨entry, member, same⟩
    exact stored_eq_none_iff.mp missing entry member same
  unfold set
  split
  · rename_i replaced isReplaced
    rw [replace_eq_none_iff.mpr missing] at isReplaced
    cases isReplaced
  · rw [dif_pos room]
    exact stored_append t.entries _ path

/-- A path that fits keeps its rights, and no other path gets them. -/
theorem stored_set_short (accepts : t.Accepts p) (short : p.length ≤ maxEntryPath) (path : Path) :
    stored (t.set p x).entries path = if path = p then some x else stored t.entries path := by
  by_cases missing : stored t.entries p = none
  · rw [stored_set_new accepts missing, List.take_of_length_le short]
    by_cases same : path = p
    · rw [if_pos same.symm, if_pos same, same, missing, Option.none_or]
    · rw [if_neg (Ne.symm same), if_neg same, Option.or_none]
  · exact stored_set_found missing path

theorem stored_eq_none_of_long (t : PermTable) (long : maxEntryPath < p.length) :
    stored t.entries p = none := by
  rw [stored_eq_none_iff]
  rintro entry - rfl
  exact absurd entry.fits (Nat.not_le.mpr long)

/-- The first bytes that the default rights go by are among the first 64. -/
theorem defaultFor_take (current : Uid) (path : Path) :
    defaultFor current (path.take maxEntryPath) = defaultFor current path := by
  have kept : ∀ front : Path, front.length ≤ maxEntryPath →
      front.isPrefixOf (path.take maxEntryPath) = front.isPrefixOf path := by
    intro front short
    rw [Bool.eq_iff_iff, List.isPrefixOf_iff_prefix, List.isPrefixOf_iff_prefix,
      List.prefix_take_iff]
    exact and_iff_left short
  simp only [defaultFor, kept etcPrefix (by decide), kept rootPrefix (by decide),
    kept homePrefix (by decide)]

/-- `get` after `set` returns the new rights, and all other paths keep theirs, exactly when
the path fits in an entry or the new rights are its default ones. -/
theorem get_set_iff (accepts : t.Accepts p) :
    ((t.set p x).get current p = x ∧
        ∀ q, q ≠ p → (t.set p x).get current q = t.get current q) ↔
      p.length ≤ maxEntryPath ∨ x = defaultFor current p := by
  by_cases fits : p.length ≤ maxEntryPath
  · refine iff_of_true ⟨?_, fun q other => ?_⟩ (.inl fits)
    · rw [get_eq, stored_set_short accepts fits, if_pos rfl, Option.getD_some]
    · rw [get_eq, get_eq, stored_set_short accepts fits, if_neg other]
  have long := Nat.lt_of_not_le fits
  have missing := stored_eq_none_of_long t long
  have unread : (t.set p x).get current p = defaultFor current p := get_of_long _ _ _ long
  rw [unread, or_iff_right fits, eq_comm]
  refine and_iff_left_of_imp fun same q _ => ?_
  rw [get_eq, get_eq, stored_set_new accepts missing]
  cases before : stored t.entries q with
  | some perm => rfl
  | none =>
    rw [Option.none_or]
    split_ifs with clipped
    · rw [same, ← clipped, defaultFor_take]
      rfl
    · rfl

def noRights : Perm := ⟨0, 0, 0⟩

/-- A path of one byte in the empty table. -/
theorem get_set_slash :
    (empty.set [slash] noRights).get 7 [slash] = noRights ∧
      ∀ q, q ≠ [slash] → (empty.set [slash] noRights).get 7 q = empty.get 7 q :=
  (get_set_iff (.inl (by decide))).mpr (.inl (by decide))

/-- A path one byte longer than an entry holds. -/
def longPath : Path := List.replicate 65 slash

/-- The rights set for a path of 65 bytes are not read back, but those of the file whose
path is its first 64 bytes change. -/
theorem set_longPath :
    empty.Accepts longPath ∧ longPath.length ≤ 127 ∧
      (empty.set longPath noRights).get 7 longPath ≠ noRights ∧
      (empty.set longPath noRights).get 7 (longPath.take 64) ≠ empty.get 7 (longPath.take 64) := by
  refine ⟨by decide, by decide, fun same => ?_, fun same => ?_⟩
  · exact absurd (congrArg Perm.mode same) (by decide +kernel)
  · exact absurd (congrArg Perm.mode same) (by decide +kernel)

end DBSos.Vfs.PermTable
