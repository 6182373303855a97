import Mathlib.Data.List.Range

/-!
# Walks through blocks of pointers

A block of pointers has an entry at each index, and 0 is the pointer to nothing. A walk
follows one index in each block. `chain` is the entry table in which one walk arrives and
every other walk of its length from the same block leads nowhere, so that two different walks
can be told apart by what lies on the disk.
-/

namespace DBSos.Lib

variable (entry : Nat → Nat → Nat)

/-- Where a walk from a block arrives. -/
def walk : List Nat → Nat → Option Nat
  | [], b => if b = 0 then none else some b
  | i :: rest, b => if b = 0 then none else walk rest (entry b i)

variable {entry}

@[simp] theorem walk_zero (path : List Nat) : walk entry path 0 = none := by
  cases path <;> rfl

theorem walk_congr {entry' : Nat → Nat → Nat} {path : List Nat}
    (same : ∀ i ∈ path, ∀ b, entry b i = entry' b i) (b : Nat) :
    walk entry path b = walk entry' path b := by
  induction path generalizing b with
  | nil => rfl
  | cons i rest ih =>
    rw [walk, walk, same i List.mem_cons_self,
      ih fun j member => same j (List.mem_cons_of_mem _ member)]

/-! ## Telling walks apart -/

variable (node : Nat → Nat) (path : List Nat)

/-- The entries of a chain of blocks along a path. -/
def chain (b i : Nat) : Nat :=
  ((List.range path.length).find? fun p => node p == b && path[p]? == some i).elim 0
    fun p => node (p + 1)

variable {node path}

/-- The blocks of the chain are different, and none is 0. -/
structure Links (node : Nat → Nat) (path : List Nat) : Prop where
  nonzero : ∀ p ≤ path.length, node p ≠ 0
  apart : ∀ p ≤ path.length, ∀ q ≤ path.length, node p = node q → p = q

theorem chain_of_apart {b i : Nat} (apart : ∀ p < path.length, node p = b → path[p]? ≠ some i) :
    chain node path b i = 0 := by
  have none : (List.range path.length).find? (fun p => node p == b && path[p]? == some i) = none := by
    refine List.find?_eq_none.mpr fun p member found => ?_
    simp only [Bool.and_eq_true, beq_iff_eq] at found
    exact apart p (List.mem_range.mp member) found.1 found.2
  rw [chain, none]
  rfl

theorem chain_node (links : Links node path) {p i : Nat} (inside : p < path.length) :
    chain node path (node p) i = if path[p]? = some i then node (p + 1) else 0 := by
  split_ifs with here
  · unfold chain
    cases found : (List.range path.length).find? fun q => node q == node p && path[q]? == some i with
    | none =>
      have missed := List.find?_eq_none.mp found p (List.mem_range.mpr inside)
      simp [here] at missed
    | some q =>
      have test := List.find?_some found
      have member := List.mem_range.mp (List.mem_of_find?_eq_some found)
      simp only [Bool.and_eq_true, beq_iff_eq] at test
      rw [links.apart q member.le p inside.le test.1]
      rfl
  · refine chain_of_apart fun q below same => ?_
    rw [links.apart q below.le p inside.le same]
    exact here

/-- From a block of the chain, only what is left of the path arrives. -/
theorem walk_chain (links : Links node path) {other : List Nat} {p : Nat}
    (length : p + other.length = path.length) :
    walk (chain node path) other (node p) =
      if other = path.drop p then some (node path.length) else none := by
  induction other generalizing p with
  | nil =>
    have last : p = path.length := length
    rw [last, List.drop_length, if_pos rfl, walk, if_neg (links.nonzero _ le_rfl)]
  | cons i rest ih =>
    rw [List.length_cons] at length
    have inside : p < path.length := by omega
    rw [walk, if_neg (links.nonzero p inside.le), chain_node links inside,
      List.drop_eq_getElem_cons inside]
    have atPlace := List.getElem?_eq_getElem inside
    by_cases here : path[p] = i
    · rw [if_pos (atPlace.trans (congrArg some here)), ih (by omega), here]
      simp only [List.cons.injEq, true_and]
    · rw [if_neg (fun found => here (Option.some.inj (atPlace.symm.trans found))), walk_zero, if_neg]
      intro same
      exact here (List.cons.inj same).1.symm

end DBSos.Lib
