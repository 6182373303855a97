import Mathlib.Data.List.Nodup
import Mathlib.Data.Option.Basic

/-!
# Doubly linked lists

The nodes of a list lie in a memory of their own, at pointers of any type, and name their
neighbours; a head pointer names the first. The empty pointer stands at both ends, so that a
list is a segment of joined pointers from the empty one to the empty one, and taking a node
out or putting one in front changes two links.
-/

namespace DBSos.Lib

universe u

variable {P : Type u}

/-- The neighbours that a node names. -/
structure Node (P : Type u) where
  next : Option P
  prev : Option P
  deriving DecidableEq, Repr

/-- The first node and the memory that the nodes lie in. -/
structure LinkedList (P : Type u) where
  head : Option P
  node : P → Node P

namespace LinkedList

/-- The node after a pointer; after the empty pointer comes the head. -/
def forward (l : LinkedList P) : Option P → Option P
  | none => l.head
  | some a => (l.node a).next

/-- Two pointers follow each other: the first leads to the second, which names it back. -/
def Joined (l : LinkedList P) (x y : Option P) : Prop :=
  l.forward x = y ∧ ∀ b, y = some b → (l.node b).prev = x

/-- The nodes between two pointers, in order. -/
def Segment (l : LinkedList P) (x : Option P) : List P → Option P → Prop
  | [], y => l.Joined x y
  | a :: rest, y => l.Joined x (some a) ∧ Segment l (some a) rest y

/-- The nodes of the list in order, each once. -/
structure Linked (l : LinkedList P) (nodes : List P) : Prop where
  segment : l.Segment none nodes none
  distinct : nodes.Nodup

/-- Walk from a pointer to the first node that passes a test. -/
def search (l : LinkedList P) (test : P → Bool) : Nat → Option P → Option P
  | 0, _ => none
  | _, none => none
  | fuel + 1, some a => if test a then some a else search l test fuel (l.node a).next

section Segments

variable {l l' : LinkedList P} {x y : Option P} {nodes us vs : List P} {a : P}

theorem segment_append :
    l.Segment x (us ++ a :: vs) y ↔ l.Segment x us (some a) ∧ l.Segment (some a) vs y := by
  induction us generalizing x with
  | nil => exact Iff.rfl
  | cons b rest ih =>
    simp only [List.cons_append, Segment, ih, and_assoc]

/-- A segment reads the links out of its first pointer and its nodes and the links back from
its nodes and its last pointer. -/
theorem Segment.frame (segment : l.Segment x us y)
    (ahead : ∀ u, u = x ∨ u ∈ us.map some → l'.forward u = l.forward u)
    (behind : ∀ b, b ∈ us ∨ y = some b → (l'.node b).prev = (l.node b).prev) :
    l'.Segment x us y := by
  induction us generalizing x with
  | nil =>
    exact ⟨(ahead x (.inl rfl)).trans segment.1,
      fun b last => (behind b (.inr last)).trans (segment.2 b last)⟩
  | cons a rest ih =>
    obtain ⟨joined, later⟩ := segment
    refine ⟨⟨(ahead x (.inl rfl)).trans joined.1, fun b same => ?_⟩, ?_⟩
    · obtain rfl := Option.some.inj same
      exact (behind a (.inl List.mem_cons_self)).trans (joined.2 a rfl)
    · refine ih later (fun u among => ahead u (.inr ?_)) fun b among => ?_
      · rw [List.map_cons, List.mem_cons]
        exact among
      · exact behind b (among.imp_left (List.mem_cons_of_mem a))

/-- The pointer that the last one names is the first or one of the nodes. -/
theorem Segment.prev_mem (segment : l.Segment x us (some a)) :
    (l.node a).prev = x ∨ (l.node a).prev ∈ us.map some := by
  induction us generalizing x with
  | nil => exact .inl (segment.2 a rfl)
  | cons b rest ih =>
    rw [List.map_cons, List.mem_cons]
    exact .inr (ih segment.2)

/-- A pointer leads to one of the nodes after it or to the last pointer. -/
theorem Segment.forward_mem (segment : l.Segment x us y) :
    l.forward x = y ∨ l.forward x ∈ us.map some := by
  cases us with
  | nil => exact .inl segment.1
  | cons b rest =>
    rw [List.map_cons, List.mem_cons]
    exact .inr (.inl segment.1.1)

/-- The pointers of a list, with the empty one in front, are distinct. -/
theorem distinct_pointers (distinct : nodes.Nodup) : (none :: nodes.map some).Nodup := by
  refine List.nodup_cons.mpr ⟨fun named => ?_, distinct.map (Option.some_injective P)⟩
  obtain ⟨_, -, same⟩ := List.mem_map.mp named
  cases same

/-- The list is empty. -/
theorem linked_nil (node : P → Node P) : Linked ⟨none, node⟩ [] :=
  ⟨⟨rfl, nofun⟩, List.nodup_nil⟩

/-- The head of a list is its first node. -/
theorem Linked.head_eq (linked : l.Linked nodes) : l.head = nodes.head? := by
  cases nodes with
  | nil => exact linked.segment.1
  | cons => exact linked.segment.1.1

/-- A list reads its head and its nodes only. -/
theorem Linked.frame (linked : l.Linked nodes) (head : l'.head = l.head)
    (kept : ∀ b ∈ nodes, l'.node b = l.node b) : l'.Linked nodes := by
  refine ⟨linked.segment.frame (fun u among => ?_) fun b among => ?_, linked.distinct⟩
  · rcases among with rfl | among
    · exact head
    · obtain ⟨b, member, rfl⟩ := List.mem_map.mp among
      exact congrArg Node.next (kept b member)
  · exact congrArg Node.prev (kept b (among.resolve_right nofun))

/-- A walk along a segment finds the first node that passes the test. -/
theorem Segment.search_eq {test : P → Bool} {fuel : Nat} (segment : l.Segment x nodes none) (enough : nodes.length ≤ fuel) :
    l.search test fuel (l.forward x) = nodes.find? test := by
  induction nodes generalizing x fuel with
  | nil =>
    rw [segment.1]
    cases fuel <;> rfl
  | cons a rest ih =>
    obtain ⟨⟨leads, -⟩, later⟩ := segment
    cases fuel with
    | zero => exact absurd enough (Nat.not_succ_le_zero _)
    | succ fuel =>
      have next := ih later (Nat.le_of_succ_le_succ enough)
      rw [leads, search, List.find?_cons]
      cases test a with
      | true => rfl
      | false => exact next

/-- A walk from the head with fuel for the whole list finds its first fitting node. -/
theorem Linked.search_eq {test : P → Bool} {fuel : Nat}
    (linked : l.Linked nodes) (enough : nodes.length ≤ fuel) :
    l.search test fuel l.head = nodes.find? test :=
  linked.segment.search_eq enough

end Segments

section Edits

variable [DecidableEq P] {l l' : LinkedList P} {x : Option P} {nodes us vs : List P} {a : P}

/-- Links that lead around a node join the segments on its two sides. -/
theorem Segment.bypass (before : l.Segment x us (some a))
    (after : l.Segment (some a) vs none)
    (distinct : (x :: (us ++ a :: vs).map some).Nodup)
    (ahead : ∀ u ∈ x :: (us ++ vs).map some,
      l'.forward u = if u = (l.node a).prev then (l.node a).next else l.forward u)
    (behind : ∀ b ∈ us ++ vs, (l'.node b).prev =
      if (l.node a).next = some b then (l.node a).prev else (l.node b).prev) :
    l'.Segment x (us ++ vs) none := by
  induction us generalizing x with
  | nil =>
    have named : (l.node a).prev = x := before.2 a rfl
    rw [named] at ahead behind
    rw [List.nil_append] at ahead behind ⊢
    have around : l'.forward x = (l.node a).next :=
      (ahead x List.mem_cons_self).trans (if_pos rfl)
    cases vs with
    | nil => exact ⟨around.trans after.1, nofun⟩
    | cons b rest =>
      obtain ⟨⟨leads, -⟩, later⟩ := after
      have next : (l.node a).next = some b := leads
      refine ⟨⟨around.trans next, fun c same => ?_⟩, ?_⟩
      · obtain rfl := Option.some.inj same
        exact (behind b List.mem_cons_self).trans (if_pos next)
      · simp only [List.nil_append, List.map_cons, List.nodup_cons, List.mem_cons,
          not_or] at distinct
        obtain ⟨⟨-, apartHead, apartRest⟩, -, fresh, -⟩ := distinct
        refine later.frame (fun u among => ?_) fun c among => ?_
        · rw [ahead u (List.mem_cons_of_mem x (List.mem_cons.mpr among)), if_neg]
          rintro rfl
          exact among.elim (fun same => apartHead same) apartRest
        · have member : c ∈ rest := among.resolve_right nofun
          rw [behind c (List.mem_cons_of_mem b member), next, if_neg]
          intro same
          obtain rfl := Option.some.inj same
          exact fresh (List.mem_map_of_mem member)
  | cons b rest ih =>
    obtain ⟨⟨leads, names⟩, later⟩ := before
    have others := List.nodup_cons.mp distinct
    refine ⟨⟨?_, fun c same => ?_⟩, ih later others.2
      (fun u among => ahead u (List.mem_cons_of_mem x among))
      fun c among => behind c (List.mem_cons_of_mem b among)⟩
    · rw [ahead x List.mem_cons_self, if_neg, leads]
      rintro rfl
      apply others.1
      rcases later.prev_mem with same | among
      · simp [same]
      · simp only [List.cons_append, List.map_cons, List.map_append, List.mem_cons,
          List.mem_append]
        exact .inr (.inl among)
    · obtain rfl := Option.some.inj same
      rw [behind b List.mem_cons_self, if_neg, names b rfl]
      intro turned
      rcases after.forward_mem with same | among
      · cases turned.symm.trans same
      · have fresh : some b ∉ (rest ++ a :: vs).map some := (List.nodup_cons.mp others.2).1
        have again : some b ∈ vs.map some := turned ▸ among
        apply fresh
        rw [List.map_append, List.map_cons, List.mem_append, List.mem_cons]
        exact .inr (.inr again)

/-- The list without a node, whose neighbours now name each other. -/
theorem Linked.removed (linked : l.Linked nodes) (member : a ∈ nodes)
    (ahead : ∀ u ∈ none :: nodes.map some, u ≠ some a →
      l'.forward u = if u = (l.node a).prev then (l.node a).next else l.forward u)
    (behind : ∀ b ∈ nodes, b ≠ a → (l'.node b).prev =
      if (l.node a).next = some b then (l.node a).prev else (l.node b).prev) :
    l'.Linked (nodes.erase a) := by
  obtain ⟨us, vs, rfl⟩ := List.append_of_mem member
  have distinct := linked.distinct
  obtain ⟨before, after⟩ := segment_append.mp linked.segment
  obtain ⟨-, distinctTail, crossed⟩ := List.nodup_append.mp distinct
  have freshUs : a ∉ us := fun earlier => crossed a earlier a List.mem_cons_self rfl
  have freshVs : a ∉ vs := (List.nodup_cons.mp distinctTail).1
  have erased : (us ++ a :: vs).erase a = us ++ vs := by
    rw [List.erase_append_right _ freshUs, List.erase_cons_head]
  have others (b : P) (among : b ∈ us ++ vs) : b ∈ us ++ a :: vs ∧ b ≠ a := by
    rcases List.mem_append.mp among with earlier | later
    · exact ⟨List.mem_append_left _ earlier, fun same => freshUs (same ▸ earlier)⟩
    · exact ⟨List.mem_append_right _ (List.mem_cons_of_mem a later),
        fun same => freshVs (same ▸ later)⟩
  refine ⟨?_, distinct.erase a⟩
  rw [erased]
  refine before.bypass after (distinct_pointers distinct) (fun u among => ?_) fun b among =>
    behind b (others b among).1 (others b among).2
  rcases List.mem_cons.mp among with rfl | among
  · exact ahead none List.mem_cons_self nofun
  · obtain ⟨b, kept, rfl⟩ := List.mem_map.mp among
    obtain ⟨listed, different⟩ := others b kept
    exact ahead (some b) (List.mem_cons_of_mem _ (List.mem_map_of_mem listed))
      fun same => different (Option.some.inj same)

/-- The list with a fresh node in front. -/
theorem Linked.inserted (linked : l.Linked nodes) (fresh : a ∉ nodes) (head : l'.head = some a)
    (front : l'.node a = ⟨l.head, none⟩)
    (ahead : ∀ b ∈ nodes, (l'.node b).next = (l.node b).next)
    (behind : ∀ b ∈ nodes, (l'.node b).prev =
      if l.head = some b then some a else (l.node b).prev) : l'.Linked (a :: nodes) := by
  have leads : l.head = nodes.head? := linked.head_eq
  have next : l'.forward (some a) = l.head := congrArg Node.next front
  refine ⟨⟨⟨head, fun b same => ?_⟩, ?_⟩, List.nodup_cons.mpr ⟨fresh, linked.distinct⟩⟩
  · obtain rfl := Option.some.inj same
    exact congrArg Node.prev front
  · cases nodes with
    | nil => exact ⟨next.trans leads, nofun⟩
    | cons b rest =>
      obtain ⟨-, later⟩ := linked.segment
      refine ⟨⟨next.trans leads, fun c same => ?_⟩, later.frame (fun u among => ?_) ?_⟩
      · obtain rfl := Option.some.inj same
        exact (behind b List.mem_cons_self).trans (if_pos leads)
      · rcases among with rfl | among
        · exact ahead b List.mem_cons_self
        · obtain ⟨c, member, rfl⟩ := List.mem_map.mp among
          exact ahead c (List.mem_cons_of_mem b member)
      · intro c among
        have member : c ∈ rest := among.resolve_right nofun
        rw [behind c (List.mem_cons_of_mem b member), leads, if_neg]
        intro same
        obtain rfl := Option.some.inj same
        exact (List.nodup_cons.mp linked.distinct).1 member

end Edits

end LinkedList

end DBSos.Lib
