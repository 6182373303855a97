import Mathlib.Data.List.Nodup

/-!
# Linked nodes

A table gives some nodes a successor. In a forest every node has at most one
predecessor and the roots have none, so the paths from different roots never meet.
Nodes are taken into use, linked behind the end of a path and released from the
root on; each step keeps the forest.
-/

namespace DBSos.Lib

universe u

variable {α : Type u}

/-- The nodes from this one to the end of its chain. -/
inductive Path (next : α → Option α) : α → List α → Prop where
  | last {x : α} (stops : next x = none) : Path next x [x]
  | step {x y : α} {rest : List α} (link : next x = some y) (path : Path next y rest) :
      Path next x (x :: rest)

/-- Links join nodes in use, no node has two predecessors, and the roots, each named
once, have none. -/
structure Forest (next : α → Option α) (used : α → Prop) (roots : List α) : Prop where
  source : ∀ {x y}, next x = some y → used x
  target : ∀ {x y}, next x = some y → used y
  injective : ∀ {x y z}, next x = some z → next y = some z → x = y
  inUse : ∀ {r}, r ∈ roots → used r
  orphan : ∀ {r x}, r ∈ roots → next x ≠ some r
  distinct : roots.Nodup

section Paths

variable {next next' : α → Option α} {x y : α} {xs ys : List α}

theorem Path.unique (path : Path next x xs) (other : Path next x ys) : xs = ys := by
  induction path generalizing ys with
  | last stops =>
    cases other with
    | last => rfl
    | step link => simp [stops] at link
  | step link _ ih =>
    cases other with
    | last stops => simp [link] at stops
    | step link' path' =>
      obtain rfl := Option.some.inj (link.symm.trans link')
      rw [ih path']

/-- A node of a path other than the first is the successor of one of its nodes. -/
theorem Path.predecessor (path : Path next x xs) (member : y ∈ xs) :
    y = x ∨ ∃ z ∈ xs, next z = some y := by
  induction path with
  | last => exact .inl (List.mem_singleton.mp member)
  | @step x w rest link path ih =>
    rcases List.mem_cons.mp member with rfl | inRest
    · exact .inl rfl
    · rcases ih inRest with rfl | ⟨z, inside, successor⟩
      · exact .inr ⟨x, List.mem_cons_self, link⟩
      · exact .inr ⟨z, List.mem_cons_of_mem x inside, successor⟩

/-- Each node of a path starts a path of its own, with no more nodes. -/
theorem Path.tail (path : Path next x xs) (member : y ∈ xs) :
    ∃ ys, Path next y ys ∧ ys.length ≤ xs.length ∧ ∀ z ∈ ys, z ∈ xs := by
  induction path with
  | last stops =>
    obtain rfl := List.mem_singleton.mp member
    exact ⟨_, .last stops, Nat.le_refl _, fun _ inside => inside⟩
  | @step x w rest link path ih =>
    rcases List.mem_cons.mp member with rfl | inRest
    · exact ⟨_, .step link path, Nat.le_refl _, fun _ inside => inside⟩
    · obtain ⟨ys, own, shorter, inside⟩ := ih inRest
      exact ⟨ys, own, by rw [List.length_cons]; omega,
        fun z member => List.mem_cons_of_mem x (inside z member)⟩

/-- A path that ends does not come back to its first node. -/
theorem Path.nodup (path : Path next x xs) : xs.Nodup := by
  induction path with
  | last => exact List.nodup_singleton _
  | @step x w rest link path ih =>
    refine List.nodup_cons.mpr ⟨fun back => ?_, ih⟩
    obtain ⟨ys, again, shorter, -⟩ := path.tail back
    have same := again.unique (.step link path)
    have lengths := congrArg List.length same
    rw [List.length_cons] at lengths
    omega

/-- Only one node of a path has no successor. -/
theorem Path.end_unique (path : Path next x xs) (left : y ∈ xs) (leftEnds : next y = none)
    {z : α} (right : z ∈ xs) (rightEnds : next z = none) : y = z := by
  induction path with
  | last => rw [List.mem_singleton.mp left, List.mem_singleton.mp right]
  | @step x w rest link path ih =>
    have notFirst : ∀ {v}, v ∈ x :: rest → next v = none → v ∈ rest := by
      intro v member stops
      rcases List.mem_cons.mp member with rfl | inRest
      · rw [link] at stops
        cases stops
      · exact inRest
    exact ih (notFirst left leftEnds) (notFirst right rightEnds)

/-- The successor of a node stands behind it. -/
theorem Path.next_eq (path : Path next x xs) {k : Nat} (at_ : xs[k]? = some y) :
    next y = xs[k + 1]? := by
  induction path generalizing k with
  | last stops =>
    cases k with
    | zero =>
      obtain rfl := Option.some.inj at_
      exact stops
    | succ k => cases at_
  | @step v w rest link path ih =>
    cases k with
    | zero =>
      obtain rfl := Option.some.inj at_
      rw [link]
      cases path <;> rfl
    | succ k => exact ih at_

/-- A path depends only on the links of its nodes. -/
theorem Path.congr (path : Path next x xs) (same : ∀ y ∈ xs, next' y = next y) :
    Path next' x xs := by
  induction path with
  | last stops => exact .last ((same _ (List.mem_singleton_self _)).trans stops)
  | step link _ ih =>
    exact .step ((same _ List.mem_cons_self).trans link)
      (ih fun y inside => same y (List.mem_cons_of_mem _ inside))

/-- A new node behind the last one. -/
theorem Path.extend (path : Path next x xs) (fresh : y ∉ xs) (stops : next' y = none)
    (same : ∀ z ∈ xs, next z ≠ none → next' z = next z)
    (link : ∀ z ∈ xs, next z = none → next' z = some y) : Path next' x (xs ++ [y]) := by
  induction path with
  | last ends => exact .step (link _ (List.mem_singleton_self _) ends) (.last stops)
  | step first _ ih =>
    refine .step ((same _ List.mem_cons_self (by simp [first])).trans first) ?_
    exact ih (fun inside => fresh (List.mem_cons_of_mem _ inside))
      (fun z inside => same z (List.mem_cons_of_mem _ inside))
      (fun z inside => link z (List.mem_cons_of_mem _ inside))

end Paths

namespace Forest

variable {next next' : α → Option α} {used used' : α → Prop} {roots : List α}
  {r s x : α} {xs : List α}

/-- Another root lies on no path from a root. -/
theorem root_not_mem (forest : Forest next used roots) (other : s ∈ roots) (differs : s ≠ r)
    (path : Path next r xs) : s ∉ xs := by
  intro member
  rcases path.predecessor member with same | ⟨z, _, link⟩
  · exact differs same
  · exact forest.orphan other link

/-- Paths from different roots share no node. -/
theorem disjoint (forest : Forest next used roots) (left : r ∈ roots) (right : s ∈ roots)
    (differs : r ≠ s) {ys : List α} (path : Path next r xs) (other : Path next s ys)
    (member : x ∈ xs) : x ∉ ys := by
  intro shared
  have back : r ∈ ys := by
    clear left differs
    induction path with
    | last => exact List.mem_singleton.mp member ▸ shared
    | @step v w rest link path ih =>
      rcases List.mem_cons.mp member with rfl | inRest
      · exact shared
      · rcases other.predecessor (ih inRest) with rfl | ⟨z, inside, into⟩
        · exact absurd link (forest.orphan right)
        · exact forest.injective into link ▸ inside
  exact forest.root_not_mem left differs other back

theorem path_inUse (forest : Forest next used roots) (root : r ∈ roots) (path : Path next r xs)
    (member : x ∈ xs) : used x := by
  rcases path.predecessor member with rfl | ⟨z, _, link⟩
  · exact forest.inUse root
  · exact forest.target link

/-- A free node becomes the root of a path of its own. -/
theorem claim (forest : Forest next used roots) (free : ¬ used x) (stops : next' x = none)
    (same : ∀ y, y ≠ x → next' y = next y) (uses : ∀ y, used' y ↔ used y ∨ y = x) :
    Forest next' used' (x :: roots) := by
  have kept : ∀ {y z}, next' y = some z → next y = some z := by
    intro y z link
    by_cases here : y = x
    · rw [here, stops] at link
      cases link
    · rwa [same y here] at link
  refine ⟨fun link => (uses _).mpr (.inl (forest.source (kept link))),
    fun link => (uses _).mpr (.inl (forest.target (kept link))),
    fun left right => forest.injective (kept left) (kept right), fun member => ?_,
    fun member link => ?_, List.nodup_cons.mpr ⟨fun member => free (forest.inUse member),
      forest.distinct⟩⟩
  · rcases List.mem_cons.mp member with rfl | old
    · exact (uses _).mpr (.inr rfl)
    · exact (uses _).mpr (.inl (forest.inUse old))
  · rcases List.mem_cons.mp member with rfl | old
    · exact free (forest.target (kept link))
    · exact forest.orphan old (kept link)

/-- A root is linked behind a node that had no successor. -/
theorem link (forest : Forest next used (x :: roots)) (inUse : used r)
    (links : next' r = some x) (same : ∀ y, y ≠ r → next' y = next y) :
    Forest next' used roots := by
  have kept : ∀ {y z}, next' y = some z → y = r ∧ z = x ∨ y ≠ r ∧ next y = some z := by
    intro y z link
    by_cases here : y = r
    · rw [here, links] at link
      exact .inl ⟨here, (Option.some.inj link).symm⟩
    · rw [same y here] at link
      exact .inr ⟨here, link⟩
  have first : x ∈ x :: roots := List.mem_cons_self
  refine ⟨fun link => ?_, fun link => ?_, fun left right => ?_,
    fun member => forest.inUse (List.mem_cons_of_mem _ member), fun member link => ?_,
    (List.nodup_cons.mp forest.distinct).2⟩
  · rcases kept link with ⟨rfl, -⟩ | ⟨-, old⟩
    · exact inUse
    · exact forest.source old
  · rcases kept link with ⟨-, rfl⟩ | ⟨-, old⟩
    · exact forest.inUse first
    · exact forest.target old
  · rcases kept left with ⟨rfl, rfl⟩ | ⟨-, old⟩
    · rcases kept right with ⟨rfl, -⟩ | ⟨-, other⟩
      · rfl
      · exact absurd other (forest.orphan first)
    · rcases kept right with ⟨-, rfl⟩ | ⟨-, other⟩
      · exact absurd old (forest.orphan first)
      · exact forest.injective old other
  · rcases kept link with ⟨-, rfl⟩ | ⟨-, old⟩
    · exact (List.nodup_cons.mp forest.distinct).1 member
    · exact forest.orphan (List.mem_cons_of_mem _ member) old

/-- The nodes in use may be described in another way. -/
theorem used_congr (forest : Forest next used roots) (uses : ∀ y, used' y ↔ used y) :
    Forest next used' roots where
  source := fun link => (uses _).mpr (forest.source link)
  target := fun link => (uses _).mpr (forest.target link)
  injective := forest.injective
  inUse := fun member => (uses _).mpr (forest.inUse member)
  orphan := forest.orphan
  distinct := forest.distinct

end Forest

end DBSos.Lib
