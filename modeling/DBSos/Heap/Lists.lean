import DBSos.Heap.Allocator

/-!
# The free list in memory

The list nodes lie in the words that the heap works on. Where the nodes are apart, taking one
out and putting one in front are the edits of a linked list, and every other word stays.
-/

namespace DBSos.Heap

open DBSos.Lib

/-- The pointer that a word holds. -/
def pointer (word : Nat) : Option Nat := if word = 0 then none else some word

theorem pointer_eq_none {word : Nat} : pointer word = none ↔ word = 0 := by
  unfold pointer
  split_ifs <;> simp_all

theorem pointer_eq_some {word a : Nat} : pointer word = some a ↔ word = a ∧ a ≠ 0 := by
  unfold pointer
  split_ifs with null
  · simp [null]
    omega
  · simp only [Option.some.injEq]
    constructor
    · rintro rfl
      exact ⟨rfl, null⟩
    · exact And.left

/-- The free list as a list of nodes in memory. -/
def list (h : Heap) : LinkedList Nat :=
  ⟨pointer h.freeList, fun node => ⟨pointer (h.next node), pointer (h.prev node)⟩⟩

/-- The nodes do not share words. -/
structure Spread (nodes : List Nat) : Prop where
  nonzero : ∀ p ∈ nodes, p ≠ 0
  apart : ∀ p ∈ nodes, ∀ q ∈ nodes, p ≠ q + 8

variable {h : Heap} {nodes : List Nat} {node x : Nat}

/-- A node's neighbour in front is one of the nodes. -/
theorem prev_mem (linked : h.list.Linked nodes) (member : node ∈ nodes)
    (named : h.prev node ≠ 0) : h.prev node ∈ nodes := by
  obtain ⟨us, vs, rfl⟩ := List.append_of_mem member
  obtain ⟨before, -⟩ := LinkedList.segment_append.mp linked.segment
  have pointed : (h.list.node node).prev = some (h.prev node) := pointer_eq_some.mpr ⟨rfl, named⟩
  rcases before.prev_mem with same | among
  · cases pointed.symm.trans same
  · rw [pointed] at among
    obtain ⟨b, earlier, same⟩ := List.mem_map.mp among
    obtain rfl := Option.some.inj same
    exact List.mem_append_left _ earlier

/-- A node's neighbour behind is one of the nodes. -/
theorem next_mem (linked : h.list.Linked nodes) (member : node ∈ nodes)
    (named : h.next node ≠ 0) : h.next node ∈ nodes := by
  obtain ⟨us, vs, rfl⟩ := List.append_of_mem member
  obtain ⟨-, after⟩ := LinkedList.segment_append.mp linked.segment
  have pointed : h.list.forward (some node) = some (h.next node) :=
    pointer_eq_some.mpr ⟨rfl, named⟩
  rcases after.forward_mem with same | among
  · cases pointed.symm.trans same
  · rw [pointed] at among
    obtain ⟨b, later, same⟩ := List.mem_map.mp among
    obtain rfl := Option.some.inj same
    exact List.mem_append_right _ (List.mem_cons_of_mem node later)

theorem head_mem (linked : h.list.Linked nodes) (named : h.freeList ≠ 0) :
    h.freeList ∈ nodes := by
  have pointed : h.list.head = some h.freeList := pointer_eq_some.mpr ⟨rfl, named⟩
  exact List.mem_of_head? (linked.head_eq.symm.trans pointed)

/-- A walk with fuel for the whole list finds the first node that passes the test. -/
theorem walk_eq (h : Heap) (test : Nat → Bool) (fuel node : Nat) :
    h.walk test fuel node = h.list.search test fuel (pointer node) := by
  induction fuel generalizing node with
  | zero => rfl
  | succ fuel ih =>
    by_cases null : node = 0
    · subst null
      rfl
    · have pointed : pointer node = some node := pointer_eq_some.mpr ⟨rfl, null⟩
      rw [walk, if_neg null, pointed, LinkedList.search, ih]
      rfl

theorem scan_eq (linked : h.list.Linked nodes) (enough : nodes.length ≤ h.stop - h.start)
    (test : Nat → Bool) : h.scan test = nodes.find? test :=
  (walk_eq h test _ _).trans (linked.search_eq enough)

/-- The first half of `free_list_remove`: what leads to the node leads around it. -/
def unlinkFront (h : Heap) (node : Nat) : Heap :=
  if h.prev node ≠ 0 then h.setNext (h.prev node) (h.next node)
  else { h with freeList := h.next node }

theorem freeListRemove_eq (nonzero : node ≠ 0) :
    h.freeListRemove node =
      if (h.unlinkFront node).next node ≠ 0 then
        (h.unlinkFront node).setPrev ((h.unlinkFront node).next node)
          ((h.unlinkFront node).prev node)
      else h.unlinkFront node := by
  rw [freeListRemove, if_neg nonzero]
  rfl

theorem word_unlinkFront :
    (h.unlinkFront node).word x =
      if h.prev node ≠ 0 ∧ x = h.prev node then h.next node else h.word x := by
  unfold unlinkFront
  by_cases first : h.prev node = 0
  · simp [first]
  · simp [first, setNext, setWord, Function.update_apply]

theorem freeList_unlinkFront :
    (h.unlinkFront node).freeList = if h.prev node = 0 then h.next node else h.freeList := by
  unfold unlinkFront
  by_cases first : h.prev node = 0
  · simp [first]
  · simp [first, setNext, setWord]

/-- The words behind `free_list_remove`. -/
theorem word_freeListRemove (linked : h.list.Linked nodes) (spread : Spread nodes)
    (member : node ∈ nodes) :
    (h.freeListRemove node).word x =
      if h.next node ≠ 0 ∧ x = h.next node + 8 then h.prev node
      else if h.prev node ≠ 0 ∧ x = h.prev node then h.next node
      else h.word x := by
  have next : (h.unlinkFront node).next node = h.next node := by
    rw [Heap.next, word_unlinkFront]
    split_ifs with front
    · rfl
    · rfl
  have prev : (h.unlinkFront node).prev node = h.prev node := by
    rw [Heap.prev, word_unlinkFront, if_neg]
    · rfl
    · rintro ⟨named, same⟩
      exact spread.apart _ (prev_mem linked member named) node member same.symm
  rw [freeListRemove_eq (spread.nonzero node member), next, prev]
  by_cases last : h.next node = 0
  · simp [last, word_unlinkFront]
  · simp [last, setPrev, setWord, Function.update_apply, word_unlinkFront]

theorem freeList_freeListRemove (nonzero : node ≠ 0) :
    (h.freeListRemove node).freeList = if h.prev node = 0 then h.next node else h.freeList := by
  rw [freeListRemove_eq nonzero, ← freeList_unlinkFront]
  split_ifs <;> rfl

/-- A word outside the nodes stays. -/
theorem freeListRemove_frame (linked : h.list.Linked nodes) (spread : Spread nodes)
    (member : node ∈ nodes) (outside : ∀ p ∈ nodes, x ≠ p ∧ x ≠ p + 8) :
    (h.freeListRemove node).word x = h.word x := by
  rw [word_freeListRemove linked spread member, if_neg, if_neg]
  · rintro ⟨named, same⟩
    exact (outside _ (prev_mem linked member named)).1 same
  · rintro ⟨named, same⟩
    exact (outside _ (next_mem linked member named)).2 same

/-- `free_list_remove` takes the node out of the list. -/
theorem linked_freeListRemove (linked : h.list.Linked nodes) (spread : Spread nodes)
    (member : node ∈ nodes) : (h.freeListRemove node).list.Linked (nodes.erase node) := by
  have prevOf : (h.list.node node).prev = pointer (h.prev node) := rfl
  have nextOf : (h.list.node node).next = pointer (h.next node) := rfl
  refine linked.removed member (fun u among different => ?_) fun b listed different => ?_
  · rw [prevOf, nextOf]
    rcases List.mem_cons.mp among with rfl | among
    · change pointer (h.freeListRemove node).freeList = _
      rw [freeList_freeListRemove (spread.nonzero node member)]
      by_cases first : h.prev node = 0
      · rw [if_pos first, if_pos (pointer_eq_none.mpr first).symm]
      · rw [if_neg first, if_neg fun same => first (pointer_eq_none.mp same.symm)]
        rfl
    · obtain ⟨b, listed, rfl⟩ := List.mem_map.mp among
      change pointer ((h.freeListRemove node).word b) = _
      rw [word_freeListRemove linked spread member, if_neg]
      · by_cases front : h.prev node ≠ 0 ∧ b = h.prev node
        · rw [if_pos front, if_pos (pointer_eq_some.mpr ⟨front.2.symm, front.2 ▸ front.1⟩).symm]
        · rw [if_neg front, if_neg]
          · rfl
          · intro same
            obtain ⟨named, nonzero⟩ := pointer_eq_some.mp same.symm
            exact front ⟨named ▸ nonzero, named.symm⟩
      · rintro ⟨named, same⟩
        exact spread.apart b listed _ (next_mem linked member named) same
  · rw [prevOf, nextOf]
    change pointer ((h.freeListRemove node).word (b + 8)) = _
    rw [word_freeListRemove linked spread member]
    by_cases behind : h.next node ≠ 0 ∧ b + 8 = h.next node + 8
    · have same : h.next node = b := (Nat.add_right_cancel behind.2).symm
      rw [if_pos behind, if_pos (pointer_eq_some.mpr ⟨same, same ▸ behind.1⟩)]
    · rw [if_neg behind, if_neg, if_neg]
      · rfl
      · intro same
        obtain ⟨named, nonzero⟩ := pointer_eq_some.mp same
        exact behind ⟨named ▸ nonzero, congrArg (· + 8) named.symm⟩
      · rintro ⟨named, same⟩
        exact spread.apart _ (prev_mem linked member named) b listed same.symm

/-- The words behind `free_list_insert`. -/
theorem word_freeListInsert :
    (h.freeListInsert node).word x =
      if h.freeList ≠ 0 ∧ x = h.freeList + 8 then node
      else if x = node then h.freeList else if x = node + 8 then 0 else h.word x := by
  unfold freeListInsert
  by_cases empty : h.freeList = 0
  · simp [empty, setNext, setPrev, setWord, Function.update_apply]
  · simp [empty, setNext, setPrev, setWord, Function.update_apply]

/-- A word outside the nodes and the new one stays. -/
theorem freeListInsert_frame (linked : h.list.Linked nodes)
    (outside : ∀ p ∈ node :: nodes, x ≠ p ∧ x ≠ p + 8) :
    (h.freeListInsert node).word x = h.word x := by
  have own := outside node List.mem_cons_self
  rw [word_freeListInsert, if_neg, if_neg own.1, if_neg own.2]
  rintro ⟨named, same⟩
  exact (outside _ (List.mem_cons_of_mem node (head_mem linked named))).2 same

/-- `free_list_insert` puts a fresh node in front of the list. -/
theorem linked_freeListInsert (linked : h.list.Linked nodes) (spread : Spread (node :: nodes))
    (fresh : node ∉ nodes) : (h.freeListInsert node).list.Linked (node :: nodes) := by
  have nonzero := spread.nonzero node List.mem_cons_self
  have apart {p q : Nat} (memberP : p ∈ node :: nodes) (memberQ : q ∈ node :: nodes) :
      p ≠ q + 8 := spread.apart p memberP q memberQ
  have headListed (named : h.freeList ≠ 0) : h.freeList ∈ node :: nodes :=
    List.mem_cons_of_mem node (head_mem linked named)
  refine linked.inserted fresh (pointer_eq_some.mpr ⟨rfl, nonzero⟩) ?_ (fun b listed => ?_)
    fun b listed => ?_
  · have next : (h.freeListInsert node).word node = h.freeList := by
      rw [word_freeListInsert, if_neg, if_pos rfl]
      exact fun front => apart List.mem_cons_self (headListed front.1) front.2
    have prev : (h.freeListInsert node).word (node + 8) = 0 := by
      rw [word_freeListInsert, if_neg, if_neg (by omega), if_pos rfl]
      rintro ⟨named, same⟩
      exact fresh (Nat.add_right_cancel same ▸ head_mem linked named)
    change (⟨pointer ((h.freeListInsert node).word node),
      pointer ((h.freeListInsert node).word (node + 8))⟩ : Node Nat) = _
    rw [next, prev]
    rfl
  · have listed' := List.mem_cons_of_mem node listed
    change pointer ((h.freeListInsert node).word b) = pointer (h.word b)
    rw [word_freeListInsert, if_neg, if_neg, if_neg]
    · exact apart listed' List.mem_cons_self
    · exact fun same => fresh (same ▸ listed)
    · exact fun front => apart listed' (headListed front.1) front.2
  · have listed' := List.mem_cons_of_mem node listed
    change pointer ((h.freeListInsert node).word (b + 8)) =
      if pointer h.freeList = some b then some node else pointer (h.word (b + 8))
    rw [word_freeListInsert]
    by_cases front : h.freeList ≠ 0 ∧ b + 8 = h.freeList + 8
    · have same : h.freeList = b := (Nat.add_right_cancel front.2).symm
      rw [if_pos front, if_pos (pointer_eq_some.mpr ⟨same, same ▸ front.1⟩)]
      exact pointer_eq_some.mpr ⟨rfl, nonzero⟩
    · rw [if_neg front, if_neg, if_neg, if_neg]
      · intro same
        obtain ⟨named, filled⟩ := pointer_eq_some.mp same
        exact front ⟨named ▸ filled, congrArg (· + 8) named.symm⟩
      · exact fun same => fresh (Nat.add_right_cancel same ▸ listed)
      · exact fun same => apart List.mem_cons_self listed' same.symm

end DBSos.Heap
