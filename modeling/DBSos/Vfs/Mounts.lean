import DBSos.Vfs.Permissions

/-!
# Mounted prefixes

A path goes to the longest mounted prefix that ends at one of its components.
What follows the prefix, without further slashes, is what the driver is asked for.
-/

namespace DBSos.Vfs

def maxMounts : Nat := 8

def maxPath : Nat := 128

/-- `MountEntry` in use. No caller mounts the empty prefix, on which
`resolve_mount` would underflow. -/
structure MountEntry where
  pfx : Path
  driverIdx : Nat
  nonempty : pfx ≠ []
  fits : pfx.length ≤ maxPath - 1

/-- The mount of the FAT driver, at `/`. -/
def rootMount (driverIdx : Nat) : MountEntry :=
  ⟨[slash], driverIdx, List.cons_ne_nil _ _, Nat.le_of_ble_eq_true rfl⟩

/-- The mount of the RAM file system. -/
def tmpMount (driverIdx : Nat) : MountEntry :=
  ⟨ascii ['/', 't', 'm', 'p'], driverIdx, List.cons_ne_nil _ _, Nat.le_of_ble_eq_true rfl⟩

/-- The mount of the ext4 driver. -/
def homeMount (driverIdx : Nat) : MountEntry :=
  ⟨homePrefix, driverIdx, List.cons_ne_nil _ _, Nat.le_of_ble_eq_true rfl⟩

/-- The test that the first loop of `resolve_mount` makes. -/
def MountEntry.covers (m : MountEntry) (path : Path) : Bool :=
  m.pfx.isPrefixOf path &&
    !(m.pfx.length ≠ 1 && path.length > m.pfx.length && m.pfx.getLast m.nonempty ≠ slash &&
      path[m.pfx.length]? ≠ some slash)

/-- One round of that loop. -/
def better (path : Path) (best : Option MountEntry) (m : MountEntry) : Option MountEntry :=
  if m.covers path ∧ best.elim 0 (fun found => found.pfx.length) < m.pfx.length then some m
  else best

/-- `resolve_mount`. -/
def resolveMount (mounts : List MountEntry) (path : Path) : Option MountEntry :=
  (mounts.foldl (better path) none).or (mounts.find? fun m => m.pfx = [slash])

/-- `strip_prefix`, which panics where the path is shorter than the prefix: on
the empty path alone. -/
def stripPrefix (path : Path) (len : Nat) : Path := (path.drop len).dropWhile fun c => c = slash

/-- `parent_of`. -/
def parentOf (path : Path) : Path :=
  match (path.reverse.dropWhile fun c => c ≠ slash) with
  | [] => [slash]
  | [_] => [slash]
  | _ :: above => above.reverse

section Cover

variable {mounts : List MountEntry} {path other : Path} {m n : MountEntry}

/-- What follows the prefix starts a component. -/
def Boundary (pfx tail : Path) : Prop :=
  pfx.length = 1 ∨ pfx.getLast? = some slash ∨ tail = [] ∨ tail.head? = some slash

theorem covers_iff : m.covers path = true ↔
    ∃ tail, path = m.pfx ++ tail ∧ Boundary m.pfx tail := by
  rw [MountEntry.covers, Bool.and_eq_true, List.isPrefixOf_iff_prefix]
  constructor
  · rintro ⟨⟨tail, rfl⟩, boundary⟩
    refine ⟨tail, rfl, ?_⟩
    by_contra apart
    rw [Boundary, List.getLast?_eq_some_getLast m.nonempty, Option.some.injEq] at apart
    push Not at apart
    obtain ⟨long, notSlash, more, notHead⟩ := apart
    have next : (m.pfx ++ tail)[m.pfx.length]? ≠ some slash := by
      rwa [List.getElem?_append_right le_rfl, Nat.sub_self, ← List.head?_eq_getElem?]
    simp [long, notSlash, next] at boundary
    exact more boundary
  · rintro ⟨tail, rfl, boundary⟩
    refine ⟨List.prefix_append _ _, ?_⟩
    rw [Boundary, List.getLast?_eq_some_getLast m.nonempty, Option.some.injEq] at boundary
    rcases boundary with one | ends | rfl | starts
    · simp [one]
    · simp [ends]
    · simp
    · have next : (m.pfx ++ tail)[m.pfx.length]? = some slash := by
        rwa [List.getElem?_append_right le_rfl, Nat.sub_self, ← List.head?_eq_getElem?]
      simp [next]

/-- Whether a shorter prefix covers a path is settled within the longer one. -/
theorem covers_of_covers {tail tail' : Path} (short : n.pfx.length ≤ m.pfx.length)
    (boundary : Boundary m.pfx tail') (covers : n.covers (m.pfx ++ tail) = true) :
    n.covers (m.pfx ++ tail') = true := by
  obtain ⟨rest, split, ends⟩ := covers_iff.mp covers
  obtain ⟨between, whole, rfl⟩ | ⟨between, whole, -⟩ := List.append_eq_append_iff.mp split.symm
  · refine covers_iff.mpr ⟨between ++ tail', by rw [whole, List.append_assoc], ?_⟩
    cases between with
    | nil => rwa [whole, List.append_nil] at boundary
    | cons next between => exact ends.imp_right fun ends => ends.imp_right fun ends => by simpa using ends
  · have none : between = [] := by
      have := congrArg List.length whole
      rw [List.length_append] at this
      exact List.length_eq_zero_iff.mp (by omega)
    subst none
    rw [List.append_nil] at whole
    exact covers_iff.mpr ⟨tail', by rw [whole], by rwa [whole]⟩

/-- What the loop holds: the best entry so far is covered and longest. -/
theorem foldl_better (path : Path) (mounts : List MountEntry) (best : Option MountEntry)
    (m : MountEntry) (found : mounts.foldl (better path) best = some m) :
    (best = some m ∨ m ∈ mounts ∧ m.covers path = true) ∧
      best.elim 0 (fun entry => entry.pfx.length) ≤ m.pfx.length ∧
      ∀ n ∈ mounts, n.covers path = true → n.pfx.length ≤ m.pfx.length := by
  induction mounts generalizing best with
  | nil => exact ⟨.inl found, by simp [show best = some m from found], by simp⟩
  | cons first rest ih =>
    obtain ⟨origin, atLeast, longest⟩ := ih _ found
    by_cases taken : first.covers path = true ∧
        best.elim 0 (fun entry => entry.pfx.length) < first.pfx.length
    · rw [better, if_pos taken] at origin atLeast
      refine ⟨.inr ?_, taken.2.le.trans atLeast, ?_⟩
      · rcases origin with same | ⟨member, covers⟩
        · cases same
          exact ⟨List.mem_cons_self, taken.1⟩
        · exact ⟨List.mem_cons_of_mem _ member, covers⟩
      · rintro n member covers
        rcases List.mem_cons.mp member with rfl | member
        · exact atLeast
        · exact longest n member covers
    · rw [better, if_neg taken] at origin atLeast
      refine ⟨origin.imp_right fun ⟨member, covers⟩ =>
        ⟨List.mem_cons_of_mem _ member, covers⟩, atLeast, ?_⟩
      rintro n member covers
      rcases List.mem_cons.mp member with rfl | member
      · exact (not_lt.mp fun longer => taken ⟨covers, longer⟩).trans atLeast
      · exact longest n member covers

theorem foldl_better_congr (same : ∀ n ∈ mounts, n.covers path = n.covers other)
    (best : Option MountEntry) :
    mounts.foldl (better path) best = mounts.foldl (better other) best := by
  induction mounts generalizing best with
  | nil => rfl
  | cons first rest ih =>
    rw [List.foldl_cons, List.foldl_cons,
      ih fun n member => same n (List.mem_cons_of_mem _ member)]
    rw [better, better, same first List.mem_cons_self]

theorem foldl_better_isSome (best : Option MountEntry)
    (some' : best.isSome = true ∨ ∃ n ∈ mounts, n.covers path = true) :
    (mounts.foldl (better path) best).isSome = true := by
  induction mounts generalizing best with
  | nil => simpa using some'
  | cons first rest ih =>
    refine ih _ ?_
    have positive := List.length_pos_of_ne_nil first.nonempty
    rcases some' with isSome | ⟨n, member, covers⟩
    · rw [better]
      split_ifs <;> simp [isSome]
    · rcases List.mem_cons.mp member with rfl | member
      · rw [better]
        cases best <;> split_ifs <;> simp_all
      · exact .inr ⟨n, member, covers⟩

theorem covers_of_root (root : m.pfx = [slash]) (absolute : path.head? = some slash) :
    m.covers path = true := by
  obtain ⟨tail, rfl⟩ := List.head?_eq_some_iff.mp absolute
  exact covers_iff.mpr ⟨tail, by rw [root]; rfl, .inl (by rw [root]; rfl)⟩

/-- On an absolute path the second loop of `resolve_mount` finds nothing new. -/
theorem resolveMount_absolute (absolute : path.head? = some slash) :
    resolveMount mounts path = mounts.foldl (better path) none := by
  rw [resolveMount]
  cases found : mounts.foldl (better path) none with
  | some m => rfl
  | none =>
    rw [Option.none_or, List.find?_eq_none]
    intro root member isRoot
    have covers := covers_of_root (of_decide_eq_true isRoot) absolute
    simpa [found] using foldl_better_isSome none (.inr ⟨root, member, covers⟩)

end Cover

end DBSos.Vfs
