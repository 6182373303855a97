import DBSos.Users.Passwd

/-!
# Added users

`add_user` answers `true` also where the table is full, clips the name that it stores, counts
the users for the new number, and may hash a password to the mark for none.
-/

namespace DBSos.Users

/-! ## The salted hash -/

/-- A round of the salted hash loses nothing: 33 is odd. -/
theorem round_injective (salt : UInt32) :
    Function.Injective fun h : UInt32 => h * 33 ^^^ salt := by
  intro h k same
  have products : h * 33 = k * 33 := by simpa using same
  calc h = h * 33 * 1041204193 := by rw [UInt32.mul_assoc]; exact (UInt32.mul_one h).symm
    _ = k * 33 * 1041204193 := by rw [products]
    _ = k := by rw [UInt32.mul_assoc]; exact UInt32.mul_one k

/-- No salt gives all passwords one hash. -/
theorem hashPasswordSalted_apart (salt : UInt32) :
    hashPasswordSalted [0] salt ≠ hashPasswordSalted [1] salt := by
  intro same
  have mixed := (round_injective salt).iterate 100 same
  simp [mix] at mixed

/-- The salt of a number that `add_user` gives is not the mark for none. -/
theorem generateSalt_ne_zero {uid : Nat} (small : uid < 2016) (ticks : UInt32)
    (name : List UInt8) : generateSalt ticks uid name ≠ 0 := by
  unfold generateSalt
  dsimp only
  split_ifs with zero
  · intro cancelled
    have number : 0x9E3779B9 = UInt32.ofNat uid := UInt32.xor_eq_zero_iff.mp cancelled
    have value := congrArg UInt32.toNat number
    rw [UInt32.toNat_ofNat', Nat.mod_eq_of_lt (by omega)] at value
    have mark : (0x9E3779B9 : UInt32).toNat = 2654435769 := rfl
    omega
  · exact zero

/-! ## What `true` promises -/

namespace Table

/-- A user that was added under a name: it is found by the name, has a number of its own, and
is let in with the password and what has the password's hash. -/
structure Added (users users' : Table) (name password : List UInt8) (u : User) : Prop where
  appended : users' = users ++ [u]
  found : users'.findByName name = some u
  ownUid : ∀ other ∈ users, other.uid ≠ u.uid
  admitted : users'.authenticate name password = true
  guarded : password ≠ [] → ∀ q, users'.authenticate name q = true →
    hashPasswordSalted q u.salt = hashPasswordSalted password u.salt

variable (users : Table) (ticks : UInt32) (name password : List UInt8)

/-- A name in use is refused, and `true` means that the user was added. -/
def KeepsWord : Prop :=
  ((users.findByName name).isSome → users.addUser ticks name password = (false, users)) ∧
    ((users.addUser ticks name password).1 = true →
      ∃ u, Added users (users.addUser ticks name password).2 name password u)

/-- There is room for a user with the whole name, its number is not in use, and the hash of its
password is not the mark for none. -/
def Fits : Prop :=
  users.length < maxUsers ∧ name.length ≤ 31 ∧ (∀ other ∈ users, other.uid ≠ 1000 + users.length) ∧
    (password ≠ [] →
      hashPasswordSalted password (generateSalt ticks (1000 + users.length) name) ≠ 0)

variable {users ticks name password}

theorem added_salt (given : password ≠ []) :
    (users.added ticks name password).salt = generateSalt ticks (1000 + users.length) name := by
  rw [added, credentials, if_neg given]

theorem added_hash (given : password ≠ []) :
    (users.added ticks name password).passwordHash =
      hashPasswordSalted password (users.added ticks name password).salt := by
  rw [added, credentials, if_neg given]

/-- Behind users with other names, the new one is found if its name is stored whole. -/
theorem findByName_append (absent : users.findByName name = none) (u : User) :
    findByName (users ++ [u]) name = if u.name = name then some u else none := by
  have missing : users.find? (fun u => u.name = name) = none := absent
  rw [findByName, List.find?_append, missing, Option.none_or, List.find?_singleton]
  split_ifs <;> simp_all

theorem authenticate_found {u : User} (found : users.findByName name = some u)
    (q : List UInt8) :
    users.authenticate name q =
      if u.passwordHash = 0 then true
      else if u.salt = 0 then decide (u.passwordHash = hashPassword q)
      else decide (u.passwordHash = hashPasswordSalted q u.salt) := by
  rw [authenticate, found]

/-- A user that fits is added. -/
theorem Fits.isAdded (fits : users.Fits ticks name password)
    (absent : users.findByName name = none) :
    Added users (users ++ [users.added ticks name password]) name password
      (users.added ticks name password) := by
  obtain ⟨room, short, fresh, marked⟩ := fits
  have stored : (users.added ticks name password).name = name := List.take_of_length_le short
  have found : findByName (users ++ [users.added ticks name password]) name =
      some (users.added ticks name password) := by
    rw [findByName_append absent, if_pos stored]
  refine ⟨rfl, found, fresh, ?_, ?_⟩
  · rw [authenticate_found found]
    by_cases given : password = []
    · rw [if_pos]
      rw [added, credentials, if_pos given]
    · have salted : (users.added ticks name password).salt ≠ 0 := by
        rw [added_salt given]
        exact generateSalt_ne_zero (by unfold maxUsers at room; omega) ticks name
      rw [if_neg salted, added_hash given]
      simp
  · intro given q admitted
    have salted : (users.added ticks name password).salt ≠ 0 := by
      rw [added_salt given]
      exact generateSalt_ne_zero (by unfold maxUsers at room; omega) ticks name
    have hashed : (users.added ticks name password).passwordHash ≠ 0 := by
      rw [added_hash given, added_salt given]
      exact marked given
    rw [authenticate_found found, if_neg hashed, if_neg salted, decide_eq_true_iff] at admitted
    rw [← admitted, added_hash given]

/-- `add_user` keeps its word exactly if it refuses or the user fits. -/
theorem addUser_keepsWord_iff (users : Table) (ticks : UInt32) (name password : List UInt8) :
    users.KeepsWord ticks name password ↔
      name = [] ∨ (users.findByName name).isSome ∨ users.Fits ticks name password := by
  have refuses : (users.findByName name).isSome →
      users.addUser ticks name password = (false, users) := fun used => if_pos (.inr used)
  by_cases empty : name = []
  · have refused : users.addUser ticks name password = (false, users) := if_pos (.inl empty)
    exact iff_of_true ⟨refuses, by simp [refused]⟩ (.inl empty)
  by_cases used : (users.findByName name).isSome
  · exact iff_of_true ⟨refuses, by simp [refuses used]⟩ (.inr (.inl used))
  have absent : users.findByName name = none := Option.not_isSome_iff_eq_none.mp used
  have answered : (users.addUser ticks name password).1 = true := by
    rw [addUser, if_neg (not_or.mpr ⟨empty, used⟩)]
  rw [KeepsWord, or_iff_right empty, or_iff_right used]
  constructor
  · rintro ⟨-, promise⟩
    obtain ⟨u, is⟩ := promise answered
    rcases addUser_cases users ticks name password with ⟨⟨-, -, room⟩, appended⟩ | ⟨-, unchanged⟩
    · have user : u = users.added ticks name password := by
        have same := is.appended.symm.trans appended
        exact (List.cons.inj (List.append_cancel_left same)).1
      have found := is.found
      rw [is.appended, findByName_append absent, user] at found
      have stored : (users.added ticks name password).name = name := by
        by_contra clipped
        rw [if_neg clipped] at found
        cases found
      have short : name.length ≤ 31 := by
        rw [← stored]
        exact List.length_take_le _ _
      refine ⟨room, short, fun other member => ?_, ?_⟩
      · have own := is.ownUid other member
        rwa [user] at own
      · intro given zero
        have hash : u.passwordHash = 0 := by rw [user, added_hash given, added_salt given, zero]
        have anyone : ∀ q, (users.addUser ticks name password).2.authenticate name q = true := by
          intro q
          rw [authenticate_found is.found, if_pos hash]
        exact hashPasswordSalted_apart u.salt
          ((is.guarded given _ (anyone [0])).trans (is.guarded given _ (anyone [1])).symm)
    · have same := congrArg List.length (unchanged.symm.trans is.appended)
      simp at same
  · intro fits
    refine ⟨refuses, fun _ => ⟨users.added ticks name password, ?_⟩⟩
    have appended : (users.addUser ticks name password).2 =
        users ++ [users.added ticks name password] := by
      rw [addUser, if_neg (not_or.mpr ⟨empty, used⟩)]
      exact if_pos fits.1
    rw [appended]
    exact fits.isAdded absent

/-- A name of 32 bytes is answered with `true` and not found. -/
theorem clipped_name_lost : ¬ ∀ (users : Table) (ticks : UInt32) (name password : List UInt8),
    users.KeepsWord ticks name password := by
  intro claim
  obtain ⟨u, is⟩ := (claim (init fun _ => 1) 2 (List.replicate 32 0x61) bob).2 (by decide)
  have lost : findByName (addUser (init fun _ => 1) 2 (List.replicate 32 0x61) bob).2
      (List.replicate 32 0x61) = none := by decide +kernel
  rw [is.found] at lost
  cases lost

end Table

end DBSos.Users
