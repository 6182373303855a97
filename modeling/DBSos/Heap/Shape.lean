import DBSos.Heap.Views
import Mathlib.Data.List.Perm.Subperm

/-!
# Blocks that fill the heap

The size in a header is rounded up before the next block is looked for. A heap is in shape
when this leads from every block but the last to the one behind it, and from the last one out
of the heap. Marking a block, cutting up the last one and merging the last one into the one
in front of it keep the shape.
-/

namespace DBSos.Heap

open DBSos.Lib

/-- The blocks up to the last one tile the heap, the last one has room for a node and claims
more than is left, and the free blocks are the ones listed. -/
structure Shape (start stop : Nat) (front : List Nat) (last : Nat) (nodes : List Nat)
    (headers : Nat → BlockHeader) : Prop where
  positive : 0 < start
  tiles : Tiles (fun b => blockTotal (headers b).size) last start front
  wide : ∀ b ∈ front, 24 ≤ blockTotal (headers b).size
  room : last + 24 ≤ stop
  crosses : stop < last + blockTotal (headers last).size
  distinct : nodes.Nodup
  free : ∀ p, p ∈ nodes ↔
    ∃ b ∈ last :: front, (headers b).used = 0 ∧ p = headerToPayload b

/-- Of two blocks next to each other one is in use. -/
def Separate (front : List Nat) (headers : Nat → BlockHeader) : Prop :=
  ∀ b ∈ front, (headers b).used = 0 → (headers (b + blockTotal (headers b).size)).used ≠ 0

theorem le_alignUp (n : Nat) : n ≤ alignUp n := by
  unfold alignUp minAlign
  omega

theorem alignUp_le (n : Nat) : alignUp n ≤ n + 15 := by
  unfold alignUp minAlign
  omega

/-- A payload of at least one byte has room for a list node. -/
theorem wide_blockTotal {size : Nat} (positive : 1 ≤ size) : 24 ≤ blockTotal size := by
  unfold blockTotal alignUp minAlign BlockHeader.bytes
  omega

theorem headerToPayload_inj {b c : Nat} : headerToPayload b = headerToPayload c ↔ b = c :=
  Nat.add_right_cancel_iff

@[simp] theorem payloadToHeader_headerToPayload (b : Nat) :
    payloadToHeader (headerToPayload b) = b :=
  Nat.add_sub_cancel b BlockHeader.bytes

namespace Shape

variable {start stop last a b : Nat} {front nodes nodes' : List Nat}
  {headers headers' : Nat → BlockHeader}

/-- The shape is one of the headers of its blocks. -/
theorem congr (shape : Shape start stop front last nodes headers)
    (same : ∀ b ∈ last :: front, headers' b = headers b) :
    Shape start stop front last nodes headers' := by
  have sameLast := same last List.mem_cons_self
  have sameFront := fun b member => same b (List.mem_cons_of_mem last (a := b) member)
  refine ⟨shape.positive, shape.tiles.congr fun b member => ?_, fun b member => ?_, shape.room,
    ?_, shape.distinct, fun p => ?_⟩
  · rw [sameFront b member]
  · rw [sameFront b member]
    exact shape.wide b member
  · rw [sameLast]
    exact shape.crosses
  · rw [shape.free p]
    refine exists_congr fun b => and_congr_right fun member => ?_
    rw [same b member]

/-- A block in front of the last one ends inside the heap. -/
theorem inside (shape : Shape start stop front last nodes headers) (member : b ∈ front) :
    b + blockTotal (headers b).size < stop := by
  have bound := (shape.tiles.bounds member).2
  have room := shape.room
  omega

/-- Behind a block in front of the last one comes another block. -/
theorem next_mem (shape : Shape start stop front last nodes headers) (member : b ∈ front) :
    b + blockTotal (headers b).size ∈ last :: front := by
  rcases Nat.lt_or_eq_of_le (shape.tiles.bounds member).2 with before | atLast
  · exact List.mem_cons_of_mem last (shape.tiles.next_mem member before)
  · rw [atLast]
    exact List.mem_cons_self

/-- A block that reaches the end of the heap is the last one. -/
theorem eq_last (shape : Shape start stop front last nodes headers) (member : b ∈ last :: front)
    (atEnd : stop ≤ b + blockTotal (headers b).size) : b = last := by
  rcases List.mem_cons.mp member with same | earlier
  · exact same
  · have := shape.inside earlier
    omega

theorem last_not_mem (shape : Shape start stop front last nodes headers) : last ∉ front := by
  intro again
  have bound := (shape.tiles.bounds again).2
  have wide := shape.wide last again
  omega

theorem placed (shape : Shape start stop front last nodes headers) : Placed (last :: front) := by
  have positive := shape.positive
  have behind := shape.tiles.start_le
  have reach (c : Nat) (member : c ∈ front) : start ≤ c ∧ c + 24 ≤ last := by
    have bounds := shape.tiles.bounds member
    have wide := shape.wide c member
    omega
  constructor
  · intro b member
    rcases List.mem_cons.mp member with rfl | earlier
    · omega
    · have := (reach b earlier).1
      omega
  · intro b memberB c memberC different
    rcases List.mem_cons.mp memberB with rfl | earlierB
    · rcases List.mem_cons.mp memberC with rfl | earlierC
      · exact absurd rfl different
      · exact .inr (reach c earlierC).2
    · rcases List.mem_cons.mp memberC with rfl | earlierC
      · exact .inl (reach b earlierB).2
      · have wideB := shape.wide b earlierB
        have wideC := shape.wide c earlierC
        rcases shape.tiles.apart earlierB earlierC different with before | before
        · exact .inl (by omega)
        · exact .inr (by omega)

/-- Header and node of a block lie outside any other block. -/
theorem clear (shape : Shape start stop front last nodes headers) (memberA : a ∈ last :: front)
    (memberB : b ∈ last :: front) (different : b ≠ a) :
    b + 24 ≤ a ∨ a + blockTotal (headers a).size ≤ b := by
  rcases List.mem_cons.mp memberB with rfl | frontB
  · have frontA := (List.mem_cons.mp memberA).resolve_left different.symm
    exact .inr (shape.tiles.bounds frontA).2
  · have wide := shape.wide b frontB
    rcases List.mem_cons.mp memberA with rfl | frontA
    · exact .inl ((Nat.add_le_add_left wide b).trans (shape.tiles.bounds frontB).2)
    · rcases shape.tiles.apart frontB frontA different with before | before
      · exact .inl ((Nat.add_le_add_left wide b).trans before)
      · exact .inr before

/-- The heap has room for all the nodes. -/
theorem length_le (shape : Shape start stop front last nodes headers) :
    nodes.length ≤ stop - start := by
  have count : nodes.length ≤ ((last :: front).map headerToPayload).length := by
    refine (List.Nodup.subperm shape.distinct fun p listed => ?_).length_le
    obtain ⟨b, member, -, rfl⟩ := (shape.free p).mp listed
    exact List.mem_map_of_mem member
  rw [List.length_map, List.length_cons] at count
  have room := shape.room
  have behind := shape.tiles.start_le
  have fill := shape.tiles.length_mul_le shape.wide
  omega

/-- A free block's node is listed. -/
theorem listed_iff (shape : Shape start stop front last nodes headers)
    (member : b ∈ last :: front) :
    headerToPayload b ∈ nodes ↔ (headers b).used = 0 := by
  rw [shape.free]
  constructor
  · rintro ⟨c, -, free, same⟩
    rw [headerToPayload_inj.mp same]
    exact free
  · exact fun free => ⟨b, member, free, rfl⟩

/-- The sizes decide the shape, the marks decide the list. -/
theorem relist (shape : Shape start stop front last nodes headers)
    (sizes : ∀ b ∈ last :: front, (headers' b).size = (headers b).size)
    (distinct : nodes'.Nodup)
    (free : ∀ p, p ∈ nodes' ↔
      ∃ b ∈ last :: front, (headers' b).used = 0 ∧ p = headerToPayload b) :
    Shape start stop front last nodes' headers' := by
  refine ⟨shape.positive, shape.tiles.congr fun b member => ?_, fun b member => ?_, shape.room,
    ?_, distinct, free⟩
  · rw [sizes b (List.mem_cons_of_mem last member)]
  · rw [sizes b (List.mem_cons_of_mem last member)]
    exact shape.wide b member
  · rw [sizes last List.mem_cons_self]
    exact shape.crosses

/-- A free block is taken into use. -/
theorem occupy (shape : Shape start stop front last nodes headers)
    {used : Nat} (taken : used ≠ 0) :
    Shape start stop front last (nodes.erase (headerToPayload b))
      (Function.update headers b { headers b with used := used }) := by
  refine shape.relist (fun c _ => ?_) (shape.distinct.erase _) fun p => ?_
  · by_cases same : c = b
    · subst same
      rw [Function.update_self]
    · rw [Function.update_of_ne same]
  · rw [shape.distinct.mem_erase_iff, shape.free]
    constructor
    · rintro ⟨different, c, member, free, rfl⟩
      have other : c ≠ b := fun same => different (congrArg headerToPayload same)
      exact ⟨c, member, by rwa [Function.update_of_ne other], rfl⟩
    · rintro ⟨c, member, free, rfl⟩
      by_cases same : c = b
      · subst same
        rw [Function.update_self] at free
        exact absurd free taken
      · rw [Function.update_of_ne same] at free
        exact ⟨fun equal => same (headerToPayload_inj.mp equal), c, member, free, rfl⟩

/-- A block in use is released. -/
theorem release (shape : Shape start stop front last nodes headers)
    (member : b ∈ last :: front) (taken : (headers b).used ≠ 0) :
    Shape start stop front last (headerToPayload b :: nodes)
      (Function.update headers b { headers b with used := 0 }) := by
  have fresh : headerToPayload b ∉ nodes := fun listed =>
    taken ((shape.listed_iff member).mp listed)
  refine shape.relist (fun c _ => ?_) (List.nodup_cons.mpr ⟨fresh, shape.distinct⟩) fun p => ?_
  · by_cases same : c = b
    · subst same
      rw [Function.update_self]
    · rw [Function.update_of_ne same]
  · rw [List.mem_cons, shape.free]
    constructor
    · rintro (rfl | ⟨c, memberC, free, rfl⟩)
      · exact ⟨b, member, by rw [Function.update_self], rfl⟩
      · have other : c ≠ b := fun same => taken (same ▸ free)
        exact ⟨c, memberC, by rwa [Function.update_of_ne other], rfl⟩
    · rintro ⟨c, memberC, free, rfl⟩
      by_cases same : c = b
      · exact .inl (congrArg headerToPayload same)
      · rw [Function.update_of_ne same] at free
        exact .inr ⟨c, memberC, free, rfl⟩

/-- The last block is cut up and its front part taken into use; the size of the tail is
rounded up once more, so it claims the rest of the heap and more. -/
theorem cut (shape : Shape start stop front last nodes headers) (taken : BlockHeader) {size : Nat}
    (sized : 1 ≤ size) (used : taken.used ≠ 0) (fits : taken.size = size)
    (enough : blockTotal size + BlockHeader.bytes ≤ blockTotal (headers last).size)
    (inside : last + blockTotal size + 24 ≤ stop) :
    let tail := last + blockTotal size
    let rest := blockTotal (headers last).size - blockTotal size
    Shape start stop (front ++ [last]) tail
      (headerToPayload tail :: nodes.erase (headerToPayload last))
      (Function.update (Function.update headers tail ⟨rest - BlockHeader.bytes, 0, 0⟩)
        last taken) := by
  intro tail rest
  have wide := wide_blockTotal sized
  have behind (b : Nat) (member : b ∈ last :: front) : b < tail := by
    rcases List.mem_cons.mp member with rfl | earlier
    · omega
    · have := (shape.tiles.bounds earlier).2
      omega
  have atLast : Function.update (Function.update headers tail ⟨rest - BlockHeader.bytes, 0, 0⟩)
      last taken last = taken := Function.update_self ..
  have atTail : Function.update (Function.update headers tail ⟨rest - BlockHeader.bytes, 0, 0⟩)
      last taken tail = ⟨rest - BlockHeader.bytes, 0, 0⟩ := by
    rw [Function.update_of_ne (by omega), Function.update_self]
  have atFront (b : Nat) (member : b ∈ front) :
      Function.update (Function.update headers tail ⟨rest - BlockHeader.bytes, 0, 0⟩)
        last taken b = headers b := by
    have before := behind b (List.mem_cons_of_mem last member)
    rw [Function.update_of_ne, Function.update_of_ne (by omega)]
    exact fun same => shape.last_not_mem (same ▸ member)
  generalize Function.update (Function.update headers tail ⟨rest - BlockHeader.bytes, 0, 0⟩)
    last taken = headers' at atLast atTail atFront ⊢
  have freshTail : headerToPayload tail ∉ nodes := by
    intro listed
    obtain ⟨b, member, -, same⟩ := (shape.free _).mp listed
    have := behind b member
    rw [headerToPayload_inj] at same
    omega
  refine ⟨shape.positive, ?_, fun b member => ?_, inside, ?_, ?_, fun p => ?_⟩
  · refine Tiles.append_iff.mpr ⟨last, shape.tiles.congr fun b member => ?_, rfl, ?_⟩
    · rw [atFront b member]
    · change last + blockTotal (headers' last).size = tail
      rw [atLast, fits]
  · rcases List.mem_append.mp member with earlier | same
    · rw [atFront b earlier]
      exact shape.wide b earlier
    · rw [List.mem_singleton.mp same, atLast, fits]
      exact wide
  · have crosses := shape.crosses
    have rounded := le_alignUp (rest - BlockHeader.bytes)
    rw [atTail]
    simp only [blockTotal, BlockHeader.bytes, rest, tail] at *
    omega
  · refine List.nodup_cons.mpr ⟨fun again => ?_, shape.distinct.erase _⟩
    exact freshTail (List.mem_of_mem_erase again)
  · rw [List.mem_cons, shape.distinct.mem_erase_iff, shape.free]
    constructor
    · rintro (rfl | ⟨different, b, member, free, rfl⟩)
      · exact ⟨tail, List.mem_cons_self, by rw [atTail], rfl⟩
      · have earlier : b ∈ front := (List.mem_cons.mp member).resolve_left
          fun same => different (congrArg headerToPayload same)
        refine ⟨b, by simp [earlier], ?_, rfl⟩
        rw [atFront b earlier]
        exact free
    · rintro ⟨b, member, free, rfl⟩
      rcases List.mem_cons.mp member with rfl | member
      · exact .inl rfl
      · rcases List.mem_append.mp member with earlier | same
        · rw [atFront b earlier] at free
          refine .inr ⟨fun same => ?_, b, List.mem_cons_of_mem last earlier, free, rfl⟩
          exact shape.last_not_mem (headerToPayload_inj.mp same ▸ earlier)
        · rw [List.mem_singleton.mp same, atLast] at free
          exact absurd free used

/-- The block in front of the last one is the end of the blocks in front. -/
theorem front_eq (shape : Shape start stop front last nodes headers) (member : a ∈ front)
    (next : a + blockTotal (headers a).size = last) : ∃ us, front = us ++ [a] := by
  obtain ⟨us, vs, rfl, -, after⟩ := shape.tiles.split member
  cases vs with
  | nil => exact ⟨us, rfl⟩
  | cons c rest =>
    have wide := shape.wide c (by simp)
    have bound := after.2.start_le
    dsimp only at bound
    omega

/-- The last block is taken in by the free one in front of it, which claims what both did and
more. -/
theorem join {us : List Nat} (shape : Shape start stop (us ++ [a]) last nodes headers)
    (nodes' : List Nat) (size : Nat)
    (next : a + blockTotal (headers a).size = last) (freeA : (headers a).used = 0)
    (large : blockTotal (headers a).size + blockTotal (headers last).size ≤
      size + BlockHeader.bytes)
    (distinct : nodes'.Nodup)
    (kept : ∀ p, p ∈ nodes' ↔ p ∈ nodes ∧ p ≠ headerToPayload last) :
    Shape start stop us a nodes'
      (Function.update headers a { headers a with size := size }) := by
  have memberA : a ∈ us ++ [a] := by simp
  obtain ⟨middle, before, first, -⟩ := Tiles.append_iff.mp shape.tiles
  obtain rfl : a = middle := first
  have apart (b : Nat) (member : b ∈ us) : b ≠ a := by
    have bound := (before.bounds member).2
    have wide := shape.wide b (List.mem_append_left _ member)
    omega
  have others (b : Nat) (member : b ∈ us) :
      Function.update headers a { headers a with size := size } b = headers b :=
    Function.update_of_ne (apart b member) ..
  refine ⟨shape.positive, before.congr fun b member => ?_, fun b member => ?_, ?_, ?_, distinct,
    fun p => ?_⟩
  · rw [others b member]
  · rw [others b member]
    exact shape.wide b (List.mem_append_left _ member)
  · have room := shape.room
    omega
  · have crosses := shape.crosses
    have rounded := le_alignUp size
    rw [Function.update_self]
    simp only [blockTotal, BlockHeader.bytes] at *
    omega
  · rw [kept, shape.free]
    constructor
    · rintro ⟨⟨b, member, free, rfl⟩, different⟩
      have earlier : b ∈ us ++ [a] := (List.mem_cons.mp member).resolve_left
        fun same => different (congrArg headerToPayload same)
      rcases List.mem_append.mp earlier with within | same
      · exact ⟨b, List.mem_cons_of_mem a within, by rwa [others b within], rfl⟩
      · rw [List.mem_singleton.mp same]
        exact ⟨a, List.mem_cons_self, by rwa [Function.update_self], rfl⟩
    · rintro ⟨b, member, free, rfl⟩
      have notLast : ∀ c ∈ us ++ [a], headerToPayload c ≠ headerToPayload last := by
        intro c listed same
        exact shape.last_not_mem (headerToPayload_inj.mp same ▸ listed)
      rcases List.mem_cons.mp member with rfl | within
      · exact ⟨⟨b, List.mem_cons_of_mem last memberA, freeA, rfl⟩, notLast b memberA⟩
      · have listed : b ∈ us ++ [a] := List.mem_append_left _ within
        rw [others b within] at free
        exact ⟨⟨b, List.mem_cons_of_mem last listed, free, rfl⟩, notLast b listed⟩

end Shape

end DBSos.Heap
