import DBSos.Iso.Sectors
import DBSos.Lib.Pieces
import DBSos.Lib.Scan

/-!
# Paths on a disc

`find_in_dir` reads up to eight sectors from the extent of a directory on, and ends behind a
sector that starts with 0; it does not look at the size of the directory. The image says what
the directories are: each is a run of sectors, as long as its record says.
-/

namespace DBSos.Iso

open DBSos.Lib

/-- What the drive reads in a sector; `none` where it fails. -/
abbrev Disc := Nat → Option Buffer

/-! ## The driver -/

/-- One turn of `find_in_dir`. `none` where the number of the next sector overflows. -/
def visit (disc : Disc) (comp : List UInt8) (lba : Nat) : Option (Visit (Option Slot)) :=
  match disc lba with
  | none => some (.stop none)
  | some buf =>
    match scanSector buf comp with
    | some slot => some (.stop (some slot))
    | none =>
      if buf 0 = 0 then some (.stop none)
      else if 2 ^ 32 ≤ lba + 1 then none
      else some .next

/-- `find_in_dir`. -/
def findInDir (disc : Disc) (dirLba : Nat) (comp : List UInt8) : Option (Option Slot) :=
  (scan (visit disc comp) (List.range' dirLba 8)).map Option.join

/-- What `resolve` returns: extent, size, and whether it is a directory. -/
structure Node where
  extent : Nat
  size : Nat
  isDir : Bool
deriving DecidableEq

def Slot.isDir (slot : Slot) : Bool := slot.flags &&& 2 != 0

def Slot.node (slot : Slot) : Node := ⟨slot.extent, slot.size, slot.isDir⟩

/-- `CD001`. -/
def magic : List UInt8 := [0x43, 0x44, 0x30, 0x30, 0x31]

/-- `init`: the extent of the root, where the disc has a volume descriptor. -/
def init (disc : Disc) : Option Nat :=
  (disc 16).bind fun pvd =>
    if pvd 0 ≠ 1 ∨ pvd.slice 1 5 ≠ magic then none else some (le32 pvd 158)

/-- The loop of `resolve`. A turn takes at least one byte of the path. -/
def resolveFrom (disc : Disc) : (turns : Nat) → Path → Nat → Option (Option Node)
  | 0, _, _ => some none
  | turns + 1, p, dir =>
    let rest := (p.dropWhile (· != slash)).dropWhile (· == slash)
    (findInDir disc dir (p.takeWhile (· != slash))).bind fun
      | none => some none
      | some slot =>
        if rest = [] then some (some slot.node)
        else if slot.flags &&& 2 = 0 then some none
        else resolveFrom disc turns rest slot.extent

/-- `resolve`, with the root that `init` has found. -/
def resolve (disc : Disc) (root : Option Nat) (path : Path) : Option (Option Node) :=
  match root with
  | none => some none
  | some root =>
    let p := path.dropWhile (· == slash)
    if p = [] then some (some ⟨root, 2048, true⟩) else resolveFrom disc p.length p root

/-! ## Components -/

/-- The components of a path. -/
def components (path : Path) : List (List UInt8) := (path.splitOn slash).filter (· ≠ [])

theorem components_nil : components [] = [] := rfl

theorem components_slash (path : Path) : components (slash :: path) = components path := by
  rw [components, List.splitOn, List.splitOnP_cons_eq_if_modifyHead, if_pos (by simp)]
  rfl

theorem components_trim (path : Path) :
    components (path.dropWhile (· == slash)) = components path := by
  induction path with
  | nil => rfl
  | cons c rest ih =>
    by_cases isSlash : c = slash
    · rw [isSlash, List.dropWhile_cons_of_pos (by simp), ih, components_slash]
    · rw [List.dropWhile_cons_of_neg (by simpa using isSlash)]

/-- The first component, and those behind it. -/
theorem components_first {c : UInt8} {rest : Path} (notSlash : c ≠ slash) :
    components (c :: rest) = (c :: rest).takeWhile (· != slash) ::
      components ((c :: rest).dropWhile (· != slash)) := by
  have first : (c :: rest).takeWhile (· != slash) ≠ [] := by
    rw [List.takeWhile_cons_of_pos (by simpa using notSlash)]
    exact List.cons_ne_nil _ _
  have solid : ∀ b ∈ (c :: rest).takeWhile (· != slash), (b == slash) = false :=
    fun b member => by simpa using List.mem_takeWhile_imp member
  have split := List.takeWhile_append_dropWhile (p := (· != slash)) (l := c :: rest)
  generalize (c :: rest).takeWhile (· != slash) = front at *
  rcases back : (c :: rest).dropWhile (· != slash) with _ | ⟨b, others⟩
  · rw [back, List.append_nil] at split
    rw [← split, components, List.splitOn, List.splitOnP_eq_singleton solid, components_nil]
    simp [first]
  · have isSlash : b = slash := by
      have head := List.head_dropWhile_not (· != slash) (l := c :: rest) (by rw [back]; simp)
      simp only [back, List.head_cons] at head
      simpa using head
    rw [back, isSlash] at split
    rw [isSlash, components_slash, ← split, components, List.splitOn,
      List.splitOnP_append_cons_of_forall_mem solid slash (by simp)]
    simp [first, components, List.splitOn]

/-- A component has characters, and no slash among them. -/
theorem mem_components {path : Path} {comp : List UInt8} (member : comp ∈ components path) :
    comp ≠ [] ∧ slash ∉ comp := by
  obtain ⟨part, some⟩ := List.mem_filter.mp member
  exact ⟨by simpa using some, (mem_splitOn part).1⟩

/-- Components behind slashes are a path. -/
theorem components_join {comps : List (List UInt8)}
    (plain : ∀ comp ∈ comps, comp ≠ [] ∧ slash ∉ comp) :
    components (comps.flatMap (slash :: ·)) = comps := by
  induction comps with
  | nil => rfl
  | cons comp rest ih =>
    obtain ⟨some, solid⟩ := plain comp List.mem_cons_self
    obtain ⟨c, others, rfl⟩ := List.exists_cons_of_ne_nil some
    have notSlash : c ≠ slash := fun same => solid (same ▸ List.mem_cons_self)
    have back := ih fun comp member => plain comp (List.mem_cons_of_mem _ member)
    have inside : ∀ b ∈ c :: others, (b != slash) = true := fun b member => by
      simpa using fun same : b = slash => solid (same ▸ member)
    rw [List.flatMap_cons, List.cons_append, components_slash, List.cons_append,
      components_first notSlash, ← List.cons_append, List.takeWhile_append_of_pos inside,
      List.dropWhile_append_of_pos inside]
    rcases rest with _ | ⟨next, more⟩
    · simp [components_nil]
    · rw [List.flatMap_cons, List.cons_append] at back
      rw [List.flatMap_cons, @List.cons_append _ slash, List.takeWhile_cons_of_neg (by simp),
        List.dropWhile_cons_of_neg (by simp), back, List.append_nil]

/-- The loop of `resolve` over components. -/
def walk (disc : Disc) : List (List UInt8) → Nat → Option (Option Node)
  | [], _ => some none
  | comp :: rest, dir =>
    (findInDir disc dir comp).bind fun
      | none => some none
      | some slot =>
        if rest = [] then some (some slot.node)
        else if slot.flags &&& 2 = 0 then some none
        else walk disc rest slot.extent

theorem resolveFrom_eq (disc : Disc) {turns : Nat} {p : Path} (dir : Nat)
    (trimmed : p.head? ≠ some slash) (enough : p.length ≤ turns) (some : p ≠ []) :
    resolveFrom disc turns p dir = walk disc (components p) dir := by
  induction turns generalizing p dir with
  | zero => exact absurd (List.length_eq_zero_iff.mp (by omega)) some
  | succ turns ih =>
    obtain ⟨c, others, rfl⟩ := List.exists_cons_of_ne_nil some
    have notSlash : c ≠ slash := by simpa using trimmed
    rw [components_first notSlash, walk, resolveFrom]
    rw [← components_trim ((c :: others).dropWhile (· != slash))]
    have shorter : (((c :: others).dropWhile (· != slash)).dropWhile (· == slash)).length ≤
        turns := by
      rw [List.dropWhile_cons_of_pos (by simpa using notSlash)]
      have first := (List.dropWhile_sublist (l := others) (· != slash)).length_le
      have second := (List.dropWhile_sublist (l := others.dropWhile (· != slash))
        (· == slash)).length_le
      simp only [List.length_cons] at enough
      omega
    have trimmed : (((c :: others).dropWhile (· != slash)).dropWhile (· == slash)).head? ≠
        .some slash := by
      intro head
      have holds := List.head?_dropWhile_not (· == slash)
        ((c :: others).dropWhile (· != slash))
      rw [head] at holds
      simp at holds
    generalize ((c :: others).dropWhile (· != slash)).dropWhile (· == slash) = rest at *
    congr 1
    funext found
    rcases found with _ | slot
    · rfl
    · dsimp only
      by_cases last : rest = []
      · rw [if_pos last, if_pos (by rw [last, components_nil])]
      · have more : components rest ≠ [] := by
          obtain ⟨b, back, rfl⟩ := List.exists_cons_of_ne_nil last
          rw [components_first (by simpa using trimmed)]
          exact List.cons_ne_nil _ _
        rw [if_neg last, if_neg more, ih slot.extent trimmed shorter last]

/-- A path without components is the root, and every other goes down from it. -/
theorem resolve_eq (disc : Disc) (root : Nat) (path : Path) :
    resolve disc (some root) path =
      if components path = [] then some (some ⟨root, 2048, true⟩)
      else walk disc (components path) root := by
  simp only [resolve]
  rw [← components_trim path]
  have trimmed : (path.dropWhile (· == slash)).head? ≠ some slash := by
    intro head
    have holds := List.head?_dropWhile_not (· == slash) path
    rw [head] at holds
    simp at holds
  generalize path.dropWhile (· == slash) = p at *
  by_cases empty : p = []
  · rw [if_pos empty, if_pos (by rw [empty, components_nil])]
  · have more : components p ≠ [] := by
      obtain ⟨b, back, rfl⟩ := List.exists_cons_of_ne_nil empty
      rw [components_first (by simpa using trimmed)]
      exact List.cons_ne_nil _ _
    rw [if_neg empty, if_neg more, resolveFrom_eq disc root trimmed le_rfl empty]

/-! ## One directory -/

section Search

variable {disc : Disc} {comp : List UInt8} {start : Nat} {slot : Slot}

/-- A search goes past a sector that starts with a record. -/
def Open (disc : Disc) (lba : Nat) : Prop := ∃ buf, disc lba = some buf ∧ buf 0 ≠ 0

/-- A sector in which a record answers to a component. -/
def Answers (disc : Disc) (comp : List UInt8) (lba : Nat) (slot : Slot) : Prop :=
  ∃ buf, disc lba = some buf ∧ scanSector buf comp = some slot

theorem visits (disc : Disc) (comp : List UInt8) :
    Visits (visit disc comp)
      (fun lba => (Open disc lba ∧ ∀ slot, ¬ Answers disc comp lba slot) → lba + 1 < 2 ^ 32)
      (fun lba => Open disc lba ∧ ∀ slot, ¬ Answers disc comp lba slot) := by
  intro lba
  unfold visit
  rcases read : disc lba with _ | buf
  · have shut : ¬ Open disc lba := by
      rintro ⟨buf, there, -⟩
      exact absurd (read.symm.trans there) (by nofun)
    exact .inr (.inr ⟨none, rfl, fun passed => absurd passed.1 shut, fun passed => shut passed.1⟩)
  rcases found : scanSector buf comp with _ | slot
  · have silent (slot : Slot) : ¬ Answers disc comp lba slot := by
      rintro ⟨buf', there, answers⟩
      obtain rfl := Option.some.inj (read.symm.trans there)
      exact absurd (found.symm.trans answers) (by nofun)
    dsimp only
    by_cases ends : buf 0 = 0
    · have shut : ¬ Open disc lba := by
        rintro ⟨buf', there, more⟩
        obtain rfl := Option.some.inj (read.symm.trans there)
        exact more ends
      rw [found, if_pos ends]
      exact .inr (.inr ⟨none, rfl, fun passed => absurd passed.1 shut,
        fun passed => shut passed.1⟩)
    · have passed : Open disc lba ∧ ∀ slot, ¬ Answers disc comp lba slot :=
        ⟨⟨buf, read, ends⟩, silent⟩
      rw [found, if_neg ends]
      dsimp only
      by_cases last : 2 ^ 32 ≤ lba + 1
      · rw [if_pos last]
        exact .inl ⟨rfl, fun safe => absurd (safe passed) (not_lt.mpr last)⟩
      · rw [if_neg last]
        exact .inr (.inl ⟨rfl, fun _ => not_le.mp last, passed⟩)
  · have answers : Answers disc comp lba slot := ⟨buf, read, found⟩
    dsimp only
    rw [found]
    exact .inr (.inr ⟨some slot, rfl, fun passed => absurd answers (passed.2 slot),
      fun passed => passed.2 slot answers⟩)

theorem visit_eq_stop {lba : Nat} :
    visit disc comp lba = some (.stop (some slot)) ↔ Answers disc comp lba slot := by
  unfold visit Answers
  rcases read : disc lba with _ | buf
  · exact iff_of_false (by nofun) (by rintro ⟨_, ⟨⟩, -⟩)
  · simp only [Option.some.injEq, exists_eq_left']
    rcases found : scanSector buf comp with _ | other
    · refine iff_of_false (fun stops => ?_) (by nofun)
      dsimp only at stops
      split_ifs at stops <;> cases stops
    · simp only [Option.some.injEq, Visit.stop.injEq]

theorem comes_visit {passes : Nat → Prop} {k : Nat} :
    Comes passes (List.range' start 8) (start + k) ↔ k < 8 ∧ ∀ j < k, passes (start + j) := by
  rw [comes_range']
  constructor
  · rintro ⟨⟨-, below⟩, passed⟩
    exact ⟨by omega, fun j before => passed (start + j) (by omega) (by omega)⟩
  · rintro ⟨below, passed⟩
    refine ⟨by omega, fun j above before => ?_⟩
    obtain ⟨d, rfl⟩ := Nat.exists_eq_add_of_le above
    exact passed d (by omega)

/-- The numbers of the sectors that a search comes to do not overflow. -/
theorem safe_visits (small : start + 8 < 2 ^ 32) {passes : Nat → Prop} {lba : Nat}
    (comes : Comes passes (List.range' start 8) lba) : lba + 1 < 2 ^ 32 := by
  have range := (comes_range'.mp comes).1
  omega

/-- A search comes to the sector with the first answer, and to no more than eight sectors. -/
theorem findInDir_eq_some (small : start + 8 < 2 ^ 32) :
    findInDir disc start comp = some (some slot) ↔
      ∃ k < 8, (∀ j < k, Open disc (start + j) ∧ ∀ slot, ¬ Answers disc comp (start + j) slot) ∧
        Answers disc comp (start + k) slot := by
  have joined : findInDir disc start comp = some (some slot) ↔
      scan (visit disc comp) (List.range' start 8) = some (some (some slot)) := by
    unfold findInDir
    rcases scan (visit disc comp) (List.range' start 8) with _ | _ | _ | found <;> simp
  rw [joined, (visits disc comp).scan_eq_some_iff]
  simp only [visit_eq_stop]
  constructor
  · rintro ⟨-, lba, comes, answers⟩
    have above := (comes_range'.mp comes).1.1
    obtain ⟨k, rfl⟩ := Nat.exists_eq_add_of_le above
    exact ⟨k, (comes_visit.mp comes).1, (comes_visit.mp comes).2, answers⟩
  · rintro ⟨k, below, passed, answers⟩
    exact ⟨fun lba comes _ => safe_visits small comes,
      start + k, comes_visit.mpr ⟨below, passed⟩, answers⟩

theorem findInDir_ne_none (small : start + 8 < 2 ^ 32) : findInDir disc start comp ≠ none := by
  intro panics
  refine (visits disc comp).scan_ne_none_iff (List.range' start 8) |>.mpr
    (fun lba comes _ => safe_visits small comes) ?_
  exact Option.map_eq_none_iff.mp panics

end Search

end DBSos.Iso
