import DBSos.Vfs.Spellings

/-!
# Mount tables

Whatever prefixes `mount` has accepted, a path belongs to the longest one that it is equal to
or that ends in front of one of its components, and the driver gets the components behind it.
-/

namespace DBSos.Vfs

/-! ## Components -/

/-- The names between the slashes. -/
def components (path : Path) : List Path := (path.splitOn slash).filter fun name => name ≠ []

section Components

variable {path pfx tail : Path}

theorem components_append_slash (path rest : Path) :
    components (path ++ slash :: rest) = components path ++ components rest := by
  rw [components, List.splitOn_append_cons_self, List.filter_append]
  rfl

@[simp] theorem components_nil : components [] = [] := rfl

@[simp] theorem components_slash_cons (rest : Path) :
    components (slash :: rest) = components rest :=
  components_append_slash [] rest

theorem components_dropWhile (path : Path) :
    components (path.dropWhile fun c => c = slash) = components path := by
  induction path with
  | nil => rfl
  | cons c rest ih =>
    rw [List.dropWhile_cons]
    by_cases isSlash : c = slash
    · rw [if_pos (decide_eq_true isSlash), ih, isSlash, components_slash_cons]
    · rw [if_neg (by simpa using isSlash)]

/-- What the driver gets has the components behind the prefix. -/
theorem components_stripPrefix (path : Path) (len : Nat) :
    components (stripPrefix path len) = components (path.drop len) :=
  components_dropWhile _

/-- A prefix is the whole path, or ends in front of a component of it. -/
def EndsIn (pfx path : Path) : Prop :=
  ∃ tail, path = pfx ++ tail ∧ (tail = [] ∨ pfx.getLast? = some slash ∨ tail.head? = some slash)

/-- The components of a path are those of such a prefix and those behind it. -/
theorem components_of_endsIn (ends : EndsIn pfx path) :
    components path = components pfx ++ components (path.drop pfx.length) := by
  obtain ⟨tail, rfl, boundary⟩ := ends
  rw [List.drop_left]
  rcases boundary with rfl | closed | opened
  · rw [List.append_nil, components_nil, List.append_nil]
  · obtain ⟨front, rfl⟩ := List.getLast?_eq_some_iff.mp closed
    rw [List.append_assoc, List.singleton_append, components_append_slash,
      components_append_slash, components_nil, List.append_nil]
  · obtain ⟨rest, rfl⟩ := List.head?_eq_some_iff.mp opened
    rw [components_append_slash, components_slash_cons]

/-- Two such prefixes of one length are the same. -/
theorem EndsIn.eq_of_length {other : Path} (ends : EndsIn pfx path) (also : EndsIn other path)
    (length : pfx.length = other.length) : pfx = other := by
  obtain ⟨tail, rfl, -⟩ := ends
  obtain ⟨tail', same, -⟩ := also
  exact (List.append_inj same length).1

end Components

/-! ## The longest prefix -/

section Longest

variable {mounts : List MountEntry} {path : Path} {m n : MountEntry}

theorem covers_iff_endsIn (absolute : Absolute m.pfx) :
    m.covers path = true ↔ EndsIn m.pfx path := by
  have root : m.pfx.length = 1 → m.pfx.getLast? = some slash := by
    intro one
    obtain ⟨rest, shape⟩ := List.head?_eq_some_iff.mp absolute
    rw [shape, List.length_cons, Nat.succ_inj, List.length_eq_zero_iff] at one
    rw [shape, one]
    rfl
  rw [covers_iff, EndsIn]
  refine exists_congr fun tail => and_congr_right fun _ => ?_
  constructor
  · rintro (one | closed | whole | opened)
    · exact .inr (.inl (root one))
    · exact .inr (.inl closed)
    · exact .inl whole
    · exact .inr (.inr opened)
  · rintro (whole | closed | opened)
    · exact .inr (.inr (.inl whole))
    · exact .inr (.inl closed)
    · exact .inr (.inr (.inr opened))

theorem covers_congr (same : n.pfx = m.pfx) : n.covers path = m.covers path := by
  rw [Bool.eq_iff_iff, covers_iff, covers_iff, same]

/-- Of the entries with one prefix the loop takes the first. -/
theorem foldl_better_first {best : Option MountEntry}
    (found : mounts.foldl (better path) best = some m) :
    best = some m ∨ mounts.find? (fun n => n.pfx = m.pfx) = some m ∧
      best.elim 0 (fun entry => entry.pfx.length) < m.pfx.length := by
  induction mounts generalizing best with
  | nil => exact .inl found
  | cons first rest ih =>
    have goesOn := ih found
    by_cases taken : first.covers path = true ∧
        best.elim 0 (fun entry => entry.pfx.length) < first.pfx.length
    · rw [better, if_pos taken] at goesOn
      refine .inr ?_
      rcases goesOn with same | ⟨later, longer⟩
      · cases same
        exact ⟨List.find?_cons_of_pos (decide_eq_true rfl), taken.2⟩
      · have apart : first.pfx ≠ m.pfx := fun same => longer.ne (congrArg List.length same)
        rw [List.find?_cons_of_neg (by simpa using apart)]
        exact ⟨later, taken.2.trans longer⟩
    · have origin := (foldl_better path rest _ m found).1
      rw [better, if_neg taken] at goesOn origin
      refine goesOn.imp_right fun both => ?_
      obtain ⟨later, longer⟩ := both
      have apart : first.pfx ≠ m.pfx := by
        intro same
        rcases origin with same' | ⟨-, covers⟩
        · rw [same'] at longer
          exact lt_irrefl _ longer
        · exact taken ⟨(covers_congr same).trans covers, same ▸ longer⟩
      rw [List.find?_cons_of_neg (by simpa using apart)]
      exact ⟨later, longer⟩

/-- An entry with the longest prefix that ends in a path, and the first with that prefix. -/
structure Longest (mounts : List MountEntry) (path : Path) (m : MountEntry) : Prop where
  first : mounts.find? (fun n => n.pfx = m.pfx) = some m
  ends : EndsIn m.pfx path
  longest : ∀ n ∈ mounts, EndsIn n.pfx path → n.pfx.length ≤ m.pfx.length

theorem Longest.unique (taken : Longest mounts path m) (other : Longest mounts path n) : m = n := by
  have length : m.pfx.length = n.pfx.length :=
    Nat.le_antisymm (other.longest m (List.mem_of_find?_eq_some taken.first) taken.ends)
      (taken.longest n (List.mem_of_find?_eq_some other.first) other.ends)
  have same := taken.ends.eq_of_length other.ends length
  refine Option.some.inj (taken.first.symm.trans ?_)
  rw [same]
  exact other.first

theorem resolveMount_eq_none_iff (prefixes : ∀ m ∈ mounts, Absolute m.pfx)
    (absolute : Absolute path) :
    resolveMount mounts path = none ↔ ∀ m ∈ mounts, ¬ EndsIn m.pfx path := by
  rw [resolveMount_absolute absolute]
  constructor
  · intro nothing m member ends
    have covers := (covers_iff_endsIn (prefixes m member)).mpr ends
    have found : (mounts.foldl (better path) none).isSome = true :=
      foldl_better_isSome none (.inr ⟨m, member, covers⟩)
    rw [nothing] at found
    cases found
  · intro apart
    cases found : mounts.foldl (better path) none with
    | none => rfl
    | some m =>
      obtain ⟨member, covers⟩ := (foldl_better _ _ _ _ found).1.resolve_left nofun
      exact absurd ((covers_iff_endsIn (prefixes m member)).mp covers) (apart m member)

theorem longest_of_resolveMount (prefixes : ∀ m ∈ mounts, Absolute m.pfx)
    (absolute : Absolute path) (resolved : resolveMount mounts path = some m) :
    Longest mounts path m := by
  rw [resolveMount_absolute absolute] at resolved
  obtain ⟨origin, -, longest⟩ := foldl_better _ _ _ _ resolved
  obtain ⟨member, covers⟩ := origin.resolve_left nofun
  exact
    { first := ((foldl_better_first resolved).resolve_left nofun).1
      ends := (covers_iff_endsIn (prefixes m member)).mp covers
      longest := fun n other ends =>
        longest n other ((covers_iff_endsIn (prefixes n other)).mpr ends) }

theorem resolveMount_eq_some_iff (prefixes : ∀ m ∈ mounts, Absolute m.pfx)
    (absolute : Absolute path) : resolveMount mounts path = some m ↔ Longest mounts path m := by
  refine ⟨longest_of_resolveMount prefixes absolute, fun taken => ?_⟩
  cases resolved : resolveMount mounts path with
  | none =>
    have member := List.mem_of_find?_eq_some taken.first
    exact absurd taken.ends
      ((resolveMount_eq_none_iff prefixes absolute).mp resolved m member)
  | some n => rw [(longest_of_resolveMount prefixes absolute resolved).unique taken]

end Longest

/-! ## Calls of `mount` -/

/-- The arguments of a call of `mount` with an absolute prefix that is not clipped. -/
structure MountCall extends MountEntry where
  absolute : Absolute pfx

/-- What sets up the file systems. -/
inductive SetUp (δ : Type)
  | register (ops : FsOps δ)
  | mount (call : MountCall)

namespace Tables

variable {δ : Type}

/-- The tables behind some calls. -/
def setUp (v : Tables δ) : List (SetUp δ) → Tables δ
  | [] => v
  | .register ops :: rest => setUp (v.registerDriver ops).2 rest
  | .mount call :: rest => setUp (v.mount call.pfx call.nonempty call.driverIdx).2 rest

/-- The calls of `mount` that are answered with `true`. -/
def mounted (v : Tables δ) : List (SetUp δ) → List MountEntry
  | [] => []
  | .register ops :: rest => mounted (v.registerDriver ops).2 rest
  | .mount call :: rest =>
    let (accepted, v') := v.mount call.pfx call.nonempty call.driverIdx
    if accepted then call.toMountEntry :: mounted v' rest else mounted v' rest

variable {v : Tables δ}

theorem registerDriver_mounts (ops : FsOps δ) : (v.registerDriver ops).2.mounts = v.mounts := by
  unfold registerDriver
  split_ifs <;> rfl

theorem mount_mounts (call : MountCall) :
    (v.mount call.pfx call.nonempty call.driverIdx).2.mounts =
      if (v.mount call.pfx call.nonempty call.driverIdx).1 then
        v.mounts ++ [call.toMountEntry]
      else v.mounts := by
  obtain ⟨⟨pfx, driverIdx, nonempty, fits⟩, absolute⟩ := call
  have whole : pfx.take (maxPath - 1) = pfx := List.take_of_length_le fits
  unfold mount
  by_cases unknown : driverIdx ≥ v.drivers.length
  · simp [unknown]
  · by_cases full : v.mounts.length ≥ maxMounts
    · simp [unknown, full]
    · simp only [if_neg unknown, if_neg full, whole, if_true]

/-- The table of mounts holds the calls that were accepted, in their order. -/
theorem setUp_mounts (calls : List (SetUp δ)) :
    (v.setUp calls).mounts = v.mounts ++ v.mounted calls := by
  induction calls generalizing v with
  | nil => exact (List.append_nil _).symm
  | cons call rest ih =>
    cases call with
    | register ops => rw [setUp, ih, registerDriver_mounts, mounted]
    | mount call =>
      rw [setUp, ih, mount_mounts, mounted]
      dsimp only
      split_ifs
      · rw [List.append_assoc, List.singleton_append]
      · rfl

theorem absolute_of_mounted {calls : List (SetUp δ)} {m : MountEntry}
    (member : m ∈ v.mounted calls) : Absolute m.pfx := by
  induction calls generalizing v with
  | nil => cases member
  | cons call rest ih =>
    cases call with
    | register ops => exact ih member
    | mount call =>
      rw [mounted] at member
      dsimp only at member
      split_ifs at member
      · rcases List.mem_cons.mp member with rfl | later
        · exact call.absolute
        · exact ih later
      · exact ih member

/-- With the mounts of any calls, an absolute path resolves to the driver and the length of the
longest accepted prefix that ends in it (of the first call for that prefix), or to nothing if
there is none; and what is left of it has the components behind the prefix, the rest of the
path's. -/
theorem resolveMount_setUp (fresh : v.mounts = []) (calls : List (SetUp δ)) {path : Path}
    (absolute : Absolute path) :
    (∀ driver len, (resolveMount (v.setUp calls).mounts path).map
          (fun m => (m.driverIdx, m.pfx.length)) = some (driver, len) ↔
        ∃ m, Longest (v.mounted calls) path m ∧ m.driverIdx = driver ∧ m.pfx.length = len) ∧
      (resolveMount (v.setUp calls).mounts path = none ↔
        ∀ m ∈ v.mounted calls, ¬ EndsIn m.pfx path) ∧
      ∀ m, resolveMount (v.setUp calls).mounts path = some m →
        components (stripPrefix path m.pfx.length) = components (path.drop m.pfx.length) ∧
          components path = components m.pfx ++ components (stripPrefix path m.pfx.length) := by
  have prefixes : ∀ m ∈ v.mounted calls, Absolute m.pfx := fun m => absolute_of_mounted
  rw [setUp_mounts, fresh, List.nil_append]
  refine ⟨fun driver len => ?_, resolveMount_eq_none_iff prefixes absolute, fun m resolved => ?_⟩
  · rw [Option.map_eq_some_iff]
    refine exists_congr fun m => ?_
    rw [resolveMount_eq_some_iff prefixes absolute, Prod.mk.injEq]
  · have taken := (resolveMount_eq_some_iff prefixes absolute).mp resolved
    refine ⟨components_stripPrefix path _, ?_⟩
    rw [components_stripPrefix]
    exact components_of_endsIn taken.ends

/-- The kernel's three mounts. -/
def kernelSetUp (ops : FsOps δ) : List (SetUp δ) :=
  [.register ops, .register ops, .register ops, .mount ⟨rootMount 0, rfl⟩,
    .mount ⟨tmpMount 1, rfl⟩, .mount ⟨homeMount 2, rfl⟩]

/-- `/home/x` is a file of the third driver. -/
theorem home_resolved :
    (resolveMount ((empty (Tmpfs.empty none)).setUp (kernelSetUp tmpOps)).mounts
      (homePrefix ++ [slash, 120])).map (fun m => (m.driverIdx, m.pfx.length)) = some (2, 5) := by
  have absolute : Absolute (homePrefix ++ [slash, 120]) := rfl
  refine ((resolveMount_setUp rfl (kernelSetUp tmpOps) absolute).1 2 5).mpr
    ⟨homeMount 2, ?_, rfl, rfl⟩
  exact
    { first := rfl
      ends := ⟨[slash, 120], rfl, .inr (.inr rfl)⟩
      longest := fun n member _ => by
        have short : ∀ n ∈ [rootMount 0, tmpMount 1, homeMount 2], n.pfx.length ≤ 5 := by decide
        exact short n member }

end Tables

end DBSos.Vfs
