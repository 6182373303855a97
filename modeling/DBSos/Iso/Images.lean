import DBSos.Iso.Paths

/-!
# Images

A valid image says which directories it has, sector by sector, and what its paths name. The
driver finds what a path names as long as it reads the sectors of the directories and no
others.
-/

namespace DBSos.Iso

namespace Record

variable (r : Record)

def isDir : Bool := r.slot.isDir
def node : Node := r.slot.node

/-- A component names a record: `.` and `..` by their codes, any other by the name without its
version, in any case. -/
def Names (comp : List UInt8) : Prop :=
  if comp = [dot] then r.name = [0]
  else if comp = [dot, dot] then r.name = [1]
  else ¬ IsDot r.name ∧ (stripVer r.name).map upper = comp.map upper

instance : DecidablePred r.Names := fun comp => by
  unfold Names
  infer_instance

variable {r}

theorem matches_iff_names {comp : List UInt8} (plain : ¬ WantsDot comp) :
    r.slot.Matches comp ↔ r.Names comp := by
  obtain ⟨notSelf, notParent⟩ := not_or.mp plain
  rw [matches_iff _ plain, Names, if_neg notSelf, if_neg notParent]
  exact Iff.rfl

end Record

/-- A valid image: a volume descriptor, directories in whole sectors that start with the
records of themselves and their parents, and files in one extent each. -/
structure Image where
  disc : Disc
  rootExtent : Nat
  rootSize : Nat
  dirs : Nat → Option (List (List Record))
  descriptor : ∃ pvd, disc 16 = some pvd ∧ pvd 0 = 1 ∧ pvd.slice 1 5 = magic ∧
    le32 pvd 158 = rootExtent ∧ le32 pvd 166 = rootSize
  root : ∃ sectors, dirs rootExtent = some sectors ∧ rootSize = 2048 * sectors.length
  sectors : ∀ {extent sectors k rs}, dirs extent = some sectors → sectors[k]? = some rs →
    ∃ buf, disc (extent + k) = some buf ∧ Holds buf rs
  dots : ∀ {extent sectors}, dirs extent = some sectors → ∃ self parent rest,
    sectors.flatten = self :: parent :: rest ∧ self.name = [0] ∧ parent.name = [1] ∧
      ∀ r ∈ rest, ¬ IsDot r.name
  children : ∀ {extent sectors r}, dirs extent = some sectors → r ∈ sectors.flatten →
    r.isDir = true → ∃ below, dirs r.extent = some below ∧ r.size = 2048 * below.length
  files : ∀ {extent sectors r}, dirs extent = some sectors → r ∈ sectors.flatten →
    r.isDir = false → ∀ k, k * 2048 < r.size → ∃ buf, disc (r.extent + k) = some buf
  bounded : ∀ {lba buf}, disc lba = some buf → lba < 2 ^ 31

namespace Image

variable (image : Image)

/-- The record of a directory that a component names. -/
def find (extent : Nat) (comp : List UInt8) : Option Record :=
  (image.dirs extent).bind fun sectors => sectors.flatten.find? fun r => r.Names comp

/-- What components name, from a directory on. -/
def named : List (List UInt8) → Node → Option Node
  | [], node => some node
  | comp :: rest, node =>
    if node.isDir then (image.find node.extent comp).bind fun r => named rest r.node
    else none

/-- The directory at the top. -/
def top : Node := ⟨image.rootExtent, image.rootSize, true⟩

/-- What a path names. -/
def meaning (path : Path) : Option Node := image.named (components path) image.top

/-- What the driver resolves a path to, once it is mounted. -/
def resolved (path : Path) : Option (Option Node) := resolve image.disc (init image.disc) path

/-- A path, and every path that it begins with, is resolved to what it names. -/
def Resolves (path : Path) : Prop :=
  ∀ front, components front <+: components path → (components front = [] → components path = []) →
    image.resolved front = some (image.meaning front)

/-- What the search for a component in a directory has to meet: the component is not `.` or
`..`, its record is in one of eight sectors, none of those before it is empty, and if there is
no such record, none of the sectors that the search reads behind the directory answers. -/
structure Passable (extent : Nat) (comp : List UInt8) : Prop where
  plain : ¬ WantsDot comp
  found : ∀ before here after, image.dirs extent = some (before ++ here :: after) →
    (∃ r ∈ here, r.Names comp) → (∀ rs ∈ before, ∀ r ∈ rs, ¬ r.Names comp) →
      before.length < 8 ∧ ∀ rs ∈ before, rs ≠ []
  absent : ∀ sectors, image.dirs extent = some sectors →
    (∀ r ∈ sectors.flatten, ¬ r.Names comp) → ∀ k < 8, sectors.length ≤ k →
      (∀ j < k, Open image.disc (extent + j)) → ∀ slot, ¬ Answers image.disc comp (extent + k) slot

/-- What a walk from a directory on has to meet: every search, as far as it comes. -/
def Walkable : List (List UInt8) → Nat → Prop
  | [], _ => True
  | comp :: rest, extent =>
    image.Passable extent comp ∧
      ∀ r, image.find extent comp = some r → r.isDir = true → Walkable rest r.extent

variable {image} {extent k : Nat} {sectors : List (List Record)} {rs : List Record}
  {comp : List UInt8} {slot : Slot}

theorem init_disc (image : Image) : init image.disc = some image.rootExtent := by
  obtain ⟨pvd, read, first, standard, extent, -⟩ := image.descriptor
  rw [init, read, Option.bind_some, if_neg (by simp [first, standard]), extent]

theorem extent_small (there : image.dirs extent = some sectors) : extent + 8 < 2 ^ 32 := by
  obtain ⟨self, parent, rest, records, -⟩ := image.dots there
  obtain ⟨first, others, rfl⟩ : ∃ first others, sectors = first :: others := by
    refine List.exists_cons_of_ne_nil ?_
    rintro rfl
    cases records
  obtain ⟨buf, read, -⟩ := image.sectors (k := 0) there rfl
  have small := image.bounded read
  omega

/-- The search goes past the sectors of a directory that have a record. -/
theorem open_iff (there : image.dirs extent = some sectors) (own : sectors[k]? = some rs) :
    Open image.disc (extent + k) ↔ rs ≠ [] := by
  obtain ⟨buf, read, holds⟩ := image.sectors there own
  refine Iff.trans ?_ (not_congr (first_eq_zero_iff holds))
  constructor
  · rintro ⟨buf', read', more⟩
    obtain rfl := Option.some.inj (read.symm.trans read')
    exact more
  · exact fun more => ⟨buf, read, more⟩

theorem answers_iff (there : image.dirs extent = some sectors) (own : sectors[k]? = some rs)
    (plain : ¬ WantsDot comp) :
    Answers image.disc comp (extent + k) slot ↔
      (rs.find? fun r => r.Names comp).map Record.slot = some slot := by
  obtain ⟨buf, read, holds⟩ := image.sectors there own
  have scanned : scanSector buf comp = (rs.find? fun r => r.Names comp).map Record.slot := by
    rw [scanSector_holds holds]
    simp only [Record.matches_iff_names plain]
  unfold Answers
  simp only [read, Option.some.injEq, exists_eq_left', scanned]

theorem silent_iff (there : image.dirs extent = some sectors) (own : sectors[k]? = some rs)
    (plain : ¬ WantsDot comp) :
    (∀ slot, ¬ Answers image.disc comp (extent + k) slot) ↔ ∀ r ∈ rs, ¬ r.Names comp := by
  simp only [answers_iff there own plain]
  constructor
  · intro silent r member names
    have found : (rs.find? fun r => r.Names comp).isSome = true := by
      rw [List.find?_isSome]
      exact ⟨r, member, decide_eq_true names⟩
    obtain ⟨first, found⟩ := Option.isSome_iff_exists.mp found
    exact silent first.slot (by rw [found, Option.map_some])
  · intro unnamed slot answers
    obtain ⟨r, found, -⟩ := Option.map_eq_some_iff.mp answers
    exact unnamed r (List.mem_of_find?_eq_some found) (by simpa using List.find?_some found)

/-- The first sector that has a record of the name. -/
theorem find_split {before after : List (List Record)} {here : List Record}
    (there : image.dirs extent = some (before ++ here :: after))
    (unnamed : ∀ rs ∈ before, ∀ r ∈ rs, ¬ r.Names comp) (bears : ∃ r ∈ here, r.Names comp) :
    ∃ r, image.find extent comp = some r ∧ here.find? (fun r => r.Names comp) = some r := by
  have found : (here.find? fun r => r.Names comp).isSome = true := by
    obtain ⟨r, member, names⟩ := bears
    rw [List.find?_isSome]
    exact ⟨r, member, decide_eq_true names⟩
  obtain ⟨r, found⟩ := Option.isSome_iff_exists.mp found
  have none : before.flatten.find? (fun r => decide (r.Names comp)) = none := by
    rw [List.find?_flatten_eq_none_iff]
    intro rs inBefore r member
    simpa using unnamed rs inBefore r member
  refine ⟨r, ?_, found⟩
  rw [Image.find, there, Option.bind_some, List.flatten_append, List.flatten_cons,
    List.find?_append, none, Option.none_or, List.find?_append, found, Option.some_or]

theorem found_of_named {r : Record} (right : (findInDir image.disc extent comp).map Option.isSome =
    some (image.find extent comp).isSome) (named : image.find extent comp = some r) :
    ∃ slot, findInDir image.disc extent comp = some (some slot) := by
  rw [named] at right
  obtain ⟨found, result, isSome⟩ := Option.map_eq_some_iff.mp right
  obtain ⟨slot, rfl⟩ := Option.isSome_iff_exists.mp isSome
  exact ⟨slot, result⟩

/-- A search that finds something exactly where the component names something can pass. -/
theorem passable_of_found (there : image.dirs extent = some sectors)
    (right : (findInDir image.disc extent comp).map Option.isSome =
      some (image.find extent comp).isSome) : image.Passable extent comp := by
  have small := extent_small there
  have find : image.find extent comp = sectors.flatten.find? fun r => r.Names comp := by
    rw [Image.find, there, Option.bind_some]
  by_cases wants : WantsDot comp
  · -- The code of the record is not the character, so that the search finds nothing.
    exfalso
    obtain ⟨self, parent, rest, records, selfName, parentName, -⟩ := image.dots there
    obtain ⟨r, named⟩ : ∃ r, image.find extent comp = some r := by
      refine Option.isSome_iff_exists.mp ?_
      rw [find, records]
      rcases wants with rfl | rfl
      · simp [Record.Names, selfName]
      · simp [Record.Names, parentName]
    obtain ⟨slot, result⟩ := found_of_named right named
    obtain ⟨k, -, -, buf, -, found⟩ := (findInDir_eq_some small).mp result
    exact not_matches_dot _ wants (by simpa using List.find?_some found)
  · refine ⟨wants, fun before here after split bears unnamed => ?_, fun S there' unnamed => ?_⟩
    · obtain ⟨r, named, first⟩ := find_split split unnamed bears
      have own : (before ++ here :: after)[before.length]? = some here := by simp
      obtain ⟨slot, result⟩ := found_of_named right named
      obtain ⟨k, below, passed, answers⟩ := (findInDir_eq_some small).mp result
      have notPast : k ≤ before.length := by
        refine not_lt.mp fun past => ?_
        obtain ⟨r, member, names⟩ := bears
        exact (silent_iff split own wants).mp (passed _ past).2 r member names
      have sector {j : Nat} (inside : j < before.length) :
          (before ++ here :: after)[j]? = some before[j] := by
        rw [List.getElem?_append_left inside, List.getElem?_eq_getElem inside]
      obtain rfl : k = before.length := by
        refine le_antisymm notPast (not_lt.mp fun inside => ?_)
        exact (silent_iff split (sector inside) wants).mpr
          (unnamed _ (List.getElem_mem inside)) _ answers
      refine ⟨below, fun rs member => ?_⟩
      obtain ⟨j, inside, rfl⟩ := List.mem_iff_getElem.mp member
      exact (open_iff split (sector inside)).mp (passed j inside).1
    · obtain rfl := Option.some.inj (there.symm.trans there')
      have none : image.find extent comp = none := by
        rw [find, List.find?_eq_none]
        intro r member
        simpa using unnamed r member
      intro k
      -- The first sector behind the directory that answers ends the search.
      induction k using Nat.strongRecOn with
      | ind k ih =>
        intro below behind open' slot answers
        have found : findInDir image.disc extent comp = some (some slot) := by
          refine (findInDir_eq_some small).mpr
            ⟨k, below, fun j before => ⟨open' j before, fun other answered => ?_⟩, answers⟩
          rcases lt_or_ge j sectors.length with inside | past
          · have own := List.getElem?_eq_getElem inside
            exact (silent_iff there own wants).mpr (fun r member =>
              unnamed r (List.mem_flatten.mpr ⟨_, List.getElem_mem inside, member⟩)) _ answered
          · exact ih j before (by omega) past
              (fun i earlier => open' i (by omega)) other answered
        rw [found, none] at right
        cases right

/-- A search that can pass finds what the component names. -/
theorem findInDir_of_passable (there : image.dirs extent = some sectors)
    (passable : image.Passable extent comp) :
    findInDir image.disc extent comp = some ((image.find extent comp).map Record.slot) := by
  have small := extent_small there
  have find : image.find extent comp = sectors.flatten.find? fun r => r.Names comp := by
    rw [Image.find, there, Option.bind_some]
  obtain ⟨wants, found, absent⟩ := passable
  rcases named : image.find extent comp with _ | r
  · rw [find, List.find?_eq_none] at named
    have unnamed : ∀ r ∈ sectors.flatten, ¬ r.Names comp := fun r member => by
      simpa using named r member
    rcases result : findInDir image.disc extent comp with _ | _ | slot
    · exact absurd result (findInDir_ne_none small)
    · rfl
    · obtain ⟨k, below, passed, answers⟩ := (findInDir_eq_some small).mp result
      rcases lt_or_ge k sectors.length with inside | past
      · have own := List.getElem?_eq_getElem inside
        exact absurd answers ((silent_iff there own wants).mpr (fun r member =>
          unnamed r (List.mem_flatten.mpr ⟨_, List.getElem_mem inside, member⟩)) slot)
      · exact absurd answers (absent sectors there unnamed k below past
          (fun j before => (passed j before).1) slot)
  · have records := named
    rw [find, List.find?_flatten_eq_some_iff] at records
    obtain ⟨names, before, front, back, after, split, unnamed, firstHere⟩ := records
    have bears : ∃ other ∈ front ++ r :: back, other.Names comp :=
      ⟨r, by simp, by simpa using names⟩
    have unnamed : ∀ rs ∈ before, ∀ r ∈ rs, ¬ r.Names comp := fun rs member r inside => by
      simpa using unnamed rs member r inside
    rw [split] at there
    obtain ⟨below, filled⟩ := found before _ after there bears unnamed
    obtain ⟨r', named', first⟩ := find_split there unnamed bears
    obtain rfl := Option.some.inj (named.symm.trans named')
    have own : (before ++ (front ++ r :: back) :: after)[before.length]? =
        some (front ++ r :: back) := by simp
    refine (findInDir_eq_some small).mpr ⟨before.length, below, fun j inside => ?_,
      (answers_iff there own wants).mpr (by rw [first, Option.map_some])⟩
    have sector : (before ++ (front ++ r :: back) :: after)[j]? = some before[j] := by
      rw [List.getElem?_append_left inside, List.getElem?_eq_getElem inside]
    exact ⟨(open_iff there sector).mpr (filled _ (List.getElem_mem inside)),
      (silent_iff there sector wants).mpr (unnamed _ (List.getElem_mem inside))⟩

theorem named_cons (image : Image) (comp : List UInt8) (rest : List (List UInt8))
    (extent size : Nat) : image.named (comp :: rest) ⟨extent, size, true⟩ =
      (image.find extent comp).bind fun r => image.named rest r.node := rfl

theorem find_mem {r : Record} (there : image.dirs extent = some sectors)
    (found : image.find extent comp = some r) : r ∈ sectors.flatten := by
  rw [Image.find, there, Option.bind_some] at found
  exact List.mem_of_find?_eq_some found

/-- A step of a walk behind a component that is found. -/
theorem walk_found {r : Record} (rest : List (List UInt8))
    (found : findInDir image.disc extent comp = some (some r.slot)) :
    walk image.disc (comp :: rest) extent =
      if rest = [] then some (some r.node)
      else if r.isDir then walk image.disc rest r.extent else some none := by
  rw [walk, found, Option.bind_some]
  dsimp only
  split_ifs with last file isDir isDir
  · rfl
  · exact absurd isDir (by simp [Record.isDir, Slot.isDir, file])
  · rfl
  · rfl
  · exact absurd (show r.isDir = true by simpa [Record.isDir, Slot.isDir] using file) isDir

/-- Every beginning of a walk is right exactly where all its searches can pass. -/
theorem walk_iff {comps : List (List UInt8)} (size : Nat)
    (there : image.dirs extent = some sectors) :
    (∀ front, front ≠ [] → front <+: comps →
      walk image.disc front extent = some (image.named front ⟨extent, size, true⟩)) ↔
        image.Walkable comps extent := by
  induction comps generalizing extent sectors size with
  | nil =>
    refine iff_of_true (fun front some isPrefix => ?_) trivial
    exact absurd (List.prefix_nil.mp isPrefix) some
  | cons comp rest ih =>
    constructor
    · intro right
      have first := right [comp] (List.cons_ne_nil _ _) (List.prefix_iff_eq_take.mpr rfl)
      have passable : image.Passable extent comp := by
        refine passable_of_found there ?_
        rw [named_cons, walk] at first
        rcases result : findInDir image.disc extent comp with _ | _ | slot <;>
          rcases named : image.find extent comp with _ | r <;> rw [result, named] at first
        · cases first
        · cases first
        · rfl
        · cases first
        · cases first
        · rfl
      refine ⟨passable, fun r found isDir => ?_⟩
      obtain ⟨below, there', -⟩ := image.children there (find_mem there found) isDir
      refine (ih r.size there').mp fun front some isPrefix => ?_
      have step := right (comp :: front) (List.cons_ne_nil _ _)
        (List.cons_prefix_cons.mpr ⟨rfl, isPrefix⟩)
      rw [walk_found front (by rw [findInDir_of_passable there passable, found,
        Option.map_some]), if_neg some, if_pos isDir, named_cons, found, Option.bind_some] at step
      rw [step, Record.node, Slot.node, show r.slot.isDir = true from isDir]
      rfl
    · rintro ⟨passable, further⟩ front some isPrefix
      obtain ⟨c, front, rfl⟩ := List.exists_cons_of_ne_nil some
      obtain ⟨rfl, inRest⟩ := List.cons_prefix_cons.mp isPrefix
      have search := findInDir_of_passable there passable
      rw [named_cons]
      rcases found : image.find extent c with _ | r
      · rw [walk, search, found]
        rfl
      · rw [found] at search
        rw [walk_found front search, Option.bind_some]
        by_cases last : front = []
        · rw [if_pos last, last]
          rfl
        rw [if_neg last]
        by_cases isDir : r.isDir = true
        · obtain ⟨below, there', -⟩ := image.children there (find_mem there found) isDir
          rw [if_pos isDir, (ih r.size there').mpr (further r found isDir)
            front last inRest, Record.node, Slot.node, show r.slot.isDir = true from isDir]
          rfl
        · obtain ⟨next, more, rfl⟩ := List.exists_cons_of_ne_nil last
          rw [if_neg isDir, Image.named, if_neg]
          exact isDir

/-- A path and its beginnings are resolved to what they name exactly where the searches can
pass; the root is taken to have one sector. -/
theorem resolves_iff (image : Image) (path : Path) :
    image.Resolves path ↔ (components path = [] → image.rootSize = 2048) ∧
      image.Walkable (components path) image.rootExtent := by
  obtain ⟨sectors, there, -⟩ := image.root
  rw [← walk_iff image.rootSize there]
  unfold Resolves resolved meaning top
  rw [init_disc]
  simp only [resolve_eq]
  constructor
  · intro right
    refine ⟨fun empty => ?_, fun front some isPrefix => ?_⟩
    · have root := right path (List.prefix_refl _) fun _ => empty
      rw [if_pos empty, empty] at root
      exact (Node.mk.inj (Option.some.inj (Option.some.inj root))).2.1.symm
    · have joined : components (front.flatMap (slash :: ·)) = front :=
        components_join fun comp member => mem_components (isPrefix.subset member)
      have step := right (front.flatMap (slash :: ·)) (by rw [joined]; exact isPrefix)
        fun empty => absurd (joined.symm.trans empty) some
      rw [joined, if_neg some] at step
      exact step
  · rintro ⟨root, right⟩ front isPrefix whole
    split_ifs with empty
    · rw [empty, ← root (whole empty)]
      rfl
    · exact right _ empty isPrefix

end Image

end DBSos.Iso
