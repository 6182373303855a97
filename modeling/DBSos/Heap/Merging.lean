import DBSos.Heap.Shape

/-!
# Where the heap keeps its free blocks apart

Cutting up or merging a block inside the heap, and growing, write a size that no longer leads
to the next block, which merging then misses. Where only the last block is cut up or merged,
the sizes lead from block to block and no two free blocks stay next to each other.
-/

namespace DBSos.Heap

/-- A heap in shape, of whose neighbours one is always in use. -/
structure Fitted (h : Heap) (front : List Nat) (last : Nat) (nodes : List Nat) : Prop where
  ready : h.ready = true
  linked : h.list.Linked nodes
  shape : Shape h.start h.stop front last nodes h.header
  separate : Separate front h.header

/-- A pointer is on the free list. -/
def Listed (h : Heap) (node : Nat) : Prop := h.scan (fun other => other = node) = some node

instance (h : Heap) (node : Nat) : Decidable (h.Listed node) :=
  inferInstanceAs (Decidable (_ = _))

/-- The block claims the end of the heap. -/
def AtEnd (h : Heap) (hdr : Nat) : Prop := h.stop ≤ h.blockNext hdr

instance (h : Heap) (hdr : Nat) : Decidable (h.AtEnd hdr) := inferInstanceAs (Decidable (_ ≤ _))

/-- The block claims the end of the heap and its size has not grown out of its field. -/
def Mergeable (h : Heap) (hdr : Nat) : Prop :=
  h.AtEnd hdr ∧ h.blockNext hdr + 16 ≤ h.start + 2 ^ 32

/-- A block lies behind this one and is free. -/
def NextFree (h : Heap) (hdr : Nat) : Prop :=
  h.blockNext hdr < h.stop ∧ (h.header (h.blockNext hdr)).used = 0

instance (h : Heap) (hdr : Nat) : Decidable (h.NextFree hdr) :=
  inferInstanceAs (Decidable (_ ∧ _))

theorem mergeNext_eq (h : Heap) (hdr : Nat) : h.mergeNext hdr =
    if h.NextFree hdr then
      let merged := h.freeListRemove (headerToPayload (h.blockNext hdr))
      merged.setHeader hdr { merged.header hdr with
        size := merged.total hdr + merged.total (h.blockNext hdr) - BlockHeader.bytes }
    else h := rfl

/-- `kmalloc` finds a block to hand out whole or cuts up the last one inside the heap, or it
finds none and gets no page. -/
def CleanMalloc (h : Heap) (size : Nat) (granted : List Nat) : Prop :=
  match h.fit size with
  | some node =>
    h.total (payloadToHeader node) - blockTotal size < blockTotal 0 + minBlock ∨
      h.AtEnd (payloadToHeader node) ∧
        payloadToHeader node + blockTotal size + 24 ≤ h.stop
  | none =>
    min (h.growPages (pagesNeeded size)) (granted.headD 0) = 0

instance (h : Heap) (size : Nat) (granted : List Nat) : Decidable (h.CleanMalloc size granted) := by
  unfold CleanMalloc
  cases h.fit size <;> infer_instance

/-- `kfree` merges the last block with the one in front of it, or none. -/
def CleanFree (h : Heap) (ptr : Nat) : Prop :=
  let hdr := payloadToHeader ptr
  (h.NextFree hdr → h.Mergeable (h.blockNext hdr)) ∧
    ∀ node, h.Listed node → h.blockNext (payloadToHeader node) = hdr →
      h.Mergeable hdr ∨ h.NextFree hdr

variable {h : Heap} {front nodes : List Nat} {last size b c node : Nat} {granted : List Nat}

namespace Fitted

theorem view (fitted : Fitted h front last nodes) : View h (last :: front) nodes h.header := by
  refine ⟨fitted.linked, fun p listed => ?_, fun _ _ => rfl⟩
  obtain ⟨b, member, -, same⟩ := (fitted.shape.free p).mp listed
  exact ⟨b, member, same⟩

theorem scan_eq (fitted : Fitted h front last nodes) (test : Nat → Bool) :
    h.scan test = nodes.find? test :=
  Heap.scan_eq fitted.linked fitted.shape.length_le test

theorem listed_iff (fitted : Fitted h front last nodes) : h.Listed node ↔ node ∈ nodes := by
  rw [Listed, fitted.scan_eq]
  constructor
  · exact List.mem_of_find?_eq_some
  · intro member
    cases found : nodes.find? (fun other => other = node) with
    | none =>
      have := List.find?_eq_none.mp found node member
      simp at this
    | some other =>
      have same := List.find?_some found
      rw [of_decide_eq_true same]

/-- What `kmalloc` finds is a free block that is large enough. -/
theorem fit_some (fitted : Fitted h front last nodes) (found : h.fit size = some node) :
    ∃ b ∈ last :: front, node = headerToPayload b ∧ node ∈ nodes ∧ (h.header b).used = 0 ∧
      blockTotal size ≤ h.total b := by
  rw [fit, fitted.scan_eq] at found
  have listed := List.mem_of_find?_eq_some found
  have large := List.find?_some
    (p := fun node => decide (h.total (payloadToHeader node) ≥ blockTotal size)) found
  obtain ⟨b, member, free, rfl⟩ := (fitted.shape.free node).mp listed
  rw [payloadToHeader_headerToPayload] at large
  exact ⟨b, member, rfl, listed, free, of_decide_eq_true large⟩

/-- Where `kmalloc` finds none, every free block is too small. -/
theorem fit_none (fitted : Fitted h front last nodes) (missing : h.fit size = none)
    (listed : node ∈ nodes) : h.total (payloadToHeader node) < blockTotal size := by
  rw [fit, fitted.scan_eq] at missing
  have small := List.find?_eq_none.mp missing node listed
  simpa using small

/-- A heap that looks like a fitting table of headers and nodes is fitted. -/
theorem of_view {h' : Heap} {bs front' nodes' : List Nat} {last' : Nat}
    {headers : Nat → BlockHeader} (fitted : Fitted h front last nodes) (same : SameBounds h h')
    (view : View h' bs nodes' headers) (within : ∀ b ∈ last' :: front', b ∈ bs)
    (shape : Shape h.start h.stop front' last' nodes' headers)
    (separate : Separate front' headers) : Fitted h' front' last' nodes' := by
  have agrees (b : Nat) (member : b ∈ last' :: front') : h'.header b = headers b :=
    view.agrees b (within b member)
  refine ⟨same.ready.trans fitted.ready, view.linked, ?_, fun b member free => ?_⟩
  · rw [same.start, same.stop]
    exact shape.congr agrees
  · have own := agrees b (List.mem_cons_of_mem last' member)
    have next := agrees _ (shape.next_mem member)
    rw [own] at free ⊢
    rw [next]
    exact separate b member free

end Fitted

theorem sameBounds_take (h : Heap) (size node : Nat) : SameBounds h (h.take size node) := by
  have removed := sameBounds_freeListRemove h node
  unfold take
  dsimp only
  split_ifs
  · exact removed.trans ((((sameBounds_setHeader _ _ _).trans (sameBounds_setHeader _ _ _)).trans
      (sameBounds_freeListInsert _ _)).trans (sameBounds_setHeader _ _ _))
  · exact removed.trans (sameBounds_setHeader _ _ _)

theorem sameBounds_mergeNext (h : Heap) (hdr : Nat) : SameBounds h (h.mergeNext hdr) := by
  unfold mergeNext
  dsimp only
  split_ifs
  · exact (sameBounds_freeListRemove _ _).trans (sameBounds_setHeader _ _ _)
  · exact .refl h

theorem sameBounds_mergePrev (h : Heap) (hdr : Nat) : SameBounds h (h.mergePrev hdr) := by
  unfold mergePrev
  dsimp only
  split
  · exact .refl h
  · exact (((sameBounds_freeListRemove _ _).trans (sameBounds_freeListRemove _ _)).trans
      (sameBounds_setHeader _ _ _)).trans (sameBounds_freeListInsert _ _)

/-- What a served request leaves behind: the block is in use and large enough, and every other
block is as it was. -/
structure Served (h h' : Heap) (size : Nat) (blocks blocks' : List Nat) (b : Nat) : Prop where
  member : b ∈ blocks
  free : (h.header b).used = 0
  member' : b ∈ blocks'
  used : (h'.header b).used ≠ 0
  large : blockTotal size ≤ h'.total b
  others : ∀ c ∈ blocks, c ≠ b → c ∈ blocks' ∧ h'.header c = h.header c

namespace Fitted

/-- The block is handed out whole. -/
theorem take_whole (fitted : Fitted h front last nodes) (member : b ∈ last :: front)
    (listed : headerToPayload b ∈ nodes) (large : blockTotal size ≤ h.total b)
    (whole : h.total b - blockTotal size < blockTotal 0 + minBlock) :
    Fitted (h.take size (headerToPayload b)) front last (nodes.erase (headerToPayload b)) ∧
      Served h (h.take size (headerToPayload b)) size (last :: front) (last :: front) b := by
  have placed := fitted.shape.placed
  have free := (fitted.shape.listed_iff member).mp listed
  have same := sameBounds_take h size (headerToPayload b)
  have view : View (h.take size (headerToPayload b)) (last :: front)
      (nodes.erase (headerToPayload b))
      (Function.update h.header b { h.header b with used := 1 }) := by
    unfold take
    simp only [payloadToHeader_headerToPayload]
    rw [if_neg (Nat.not_le_of_lt whole)]
    exact (fitted.view.remove placed listed).mark placed member _ (by decide)
  have own : (h.take size (headerToPayload b)).header b = { h.header b with used := 1 } := by
    rw [view.agrees b member, Function.update_self]
  have other (c : Nat) (different : c ≠ b) :
      Function.update h.header b { h.header b with used := 1 } c = h.header c :=
    Function.update_of_ne different ..
  refine ⟨fitted.of_view same view (fun _ => id) (fitted.shape.occupy one_ne_zero) ?_,
    ⟨member, free, member, by rw [own]; exact one_ne_zero, by rwa [total, own], ?_⟩⟩
  · intro c memberC freeC
    by_cases taken : c = b
    · subst taken
      rw [Function.update_self] at freeC
      exact absurd freeC one_ne_zero
    · rw [other c taken] at freeC ⊢
      by_cases next : c + blockTotal (h.header c).size = b
      · rw [next, Function.update_self]
        exact one_ne_zero
      · rw [other _ next]
        exact fitted.separate c memberC freeC
  · intro c memberC different
    exact ⟨memberC, (view.agrees c memberC).trans (other c different)⟩

/-- The last block is cut up inside the heap. -/
theorem take_cut (fitted : Fitted h front last nodes)
    (listed : headerToPayload last ∈ nodes) (sized : 1 ≤ size) (small : size < 2 ^ 32)
    (split : blockTotal 0 + minBlock ≤ h.total last - blockTotal size)
    (inside : last + blockTotal size + 24 ≤ h.stop) :
    ∃ nodes',
      Fitted (h.take size (headerToPayload last)) (front ++ [last]) (last + blockTotal size)
        nodes' ∧
      Served h (h.take size (headerToPayload last)) size (last :: front)
        ((last + blockTotal size) :: (front ++ [last])) last := by
  have shape := fitted.shape
  have wide := wide_blockTotal sized
  have free := (shape.listed_iff List.mem_cons_self).mp listed
  have same := sameBounds_take h size (headerToPayload last)
  have range := BlockHeader.fits_ofWord (h.word last)
  have rest : h.total last - blockTotal size - BlockHeader.bytes < 2 ^ 32 := by
    have rounded := alignUp_le (h.header last).size
    have field := range.size
    change (h.header last).size < 2 ^ 32 at field
    simp only [total, blockTotal, BlockHeader.bytes] at *
    omega
  have enough : blockTotal size + BlockHeader.bytes ≤ h.total last := by
    simp only [blockTotal, BlockHeader.bytes, minBlock] at *
    omega
  have cut := shape.cut { h.header last with size := size, used := 1 } sized
    one_ne_zero rfl enough inside
  generalize spot : last + blockTotal size = tail at *
  have apart : last ≠ tail := by omega
  have placed : Placed (tail :: last :: front) := cut.placed.mono fun b member => by
    simp only [List.mem_cons, List.mem_append, List.not_mem_nil, or_false] at member ⊢
    tauto
  have memberLast : last ∈ tail :: last :: front := by simp
  have memberTail : tail ∈ tail :: last :: front := by simp
  have view : View (h.take size (headerToPayload last)) (tail :: last :: front)
      (headerToPayload tail :: nodes.erase (headerToPayload last))
      (Function.update (Function.update h.header tail
        ⟨h.total last - blockTotal size - BlockHeader.bytes, 0, 0⟩) last
        { h.header last with size := size, used := 1 }) := by
    have start : View h (tail :: last :: front) nodes h.header :=
      ⟨fitted.linked, fun p listed => (fitted.view.among p listed).imp fun b found =>
        ⟨List.mem_cons_of_mem tail found.1, found.2⟩, fun _ _ => rfl⟩
    have fresh := (List.nodup_cons.mp cut.distinct).1
    have fits : BlockHeader.Fits ⟨h.total last - blockTotal size - BlockHeader.bytes, 0, 0⟩ :=
      ⟨rest, Nat.two_pow_pos 16, Nat.two_pow_pos 16⟩
    have cutUp := ((start.remove placed listed).setHeader placed memberTail fits).resize placed
      memberLast small
    have marked := (cutUp.insert placed memberTail fresh).mark placed memberLast 1
      (by decide)
    rw [Function.update_idem, Function.update_self, Function.update_of_ne apart] at marked
    unfold take
    simp only [payloadToHeader_headerToPayload]
    rw [if_pos split, spot]
    exact marked
  have own : (h.take size (headerToPayload last)).header last =
      { h.header last with size := size, used := 1 } := by
    rw [view.agrees last memberLast, Function.update_self]
  have other (c : Nat) (member : c ∈ front) :
      Function.update (Function.update h.header tail
        ⟨h.total last - blockTotal size - BlockHeader.bytes, 0, 0⟩) last
        { h.header last with size := size, used := 1 } c = h.header c := by
    have before := (shape.tiles.bounds member).2
    rw [Function.update_of_ne, Function.update_of_ne (by omega)]
    exact fun same => shape.last_not_mem (same ▸ member)
  have blocks (c : Nat) (member : c ∈ tail :: (front ++ [last])) : c ∈ tail :: last :: front := by
    simp only [List.mem_cons, List.mem_append, List.not_mem_nil, or_false] at member ⊢
    tauto
  refine ⟨_, fitted.of_view same view blocks cut ?_,
    ⟨List.mem_cons_self, free, by simp, by rw [own]; exact one_ne_zero, ?_, ?_⟩⟩
  · intro c member freeC
    rcases List.mem_append.mp member with earlier | same
    · rw [other c earlier] at freeC ⊢
      rcases List.mem_cons.mp (shape.next_mem earlier) with next | next
      · rw [next, Function.update_self]
        exact one_ne_zero
      · rw [other _ next]
        exact fitted.separate c earlier freeC
    · rw [List.mem_singleton.mp same, Function.update_self] at freeC
      exact absurd freeC one_ne_zero
  · rw [total, own]
  · intro c member different
    have earlier := (List.mem_cons.mp member).resolve_left different
    have kept := view.agrees c (by simp [earlier])
    exact ⟨by simp [earlier], kept.trans (other c earlier)⟩

/-- A clean `kmalloc` serves the request or changes nothing. -/
theorem kmalloc_cases (fitted : Fitted h front last nodes) (sized : 1 ≤ size)
    (small : size < 2 ^ 32) (clean : h.CleanMalloc size granted) :
    h.kmalloc size granted = (0, h) ∨
      ∃ b front' last' nodes', (h.kmalloc size granted).1 = headerToPayload b ∧
        Fitted (h.kmalloc size granted).2 front' last' nodes' ∧
        Served h (h.kmalloc size granted).2 size (last :: front) (last' :: front') b := by
  have started : h.kmalloc size granted = h.search size granted := by
    rw [kmalloc, if_neg (Nat.one_le_iff_ne_zero.mp sized), fitted.ready]
    rfl
  rw [started]
  unfold CleanMalloc at clean
  cases found : h.fit size with
  | none =>
    rw [found] at clean
    left
    unfold search
    rw [found]
    cases granted with
    | nil => rfl
    | cons pages later =>
      have starved : min (h.growPages (pagesNeeded size)) pages = 0 := clean
      have refused : h.growHeap (pagesNeeded size) pages = (false, h) := by
        simp only [growHeap, starved, if_true]
      simp [refused]
  | some node =>
    rw [found] at clean
    right
    have served : h.search size granted =
        (headerToPayload (payloadToHeader node), h.take size node) := by
      unfold search
      rw [found]
    rw [served]
    obtain ⟨b, member, rfl, listed, -, large⟩ := fitted.fit_some found
    simp only [payloadToHeader_headerToPayload] at clean ⊢
    by_cases whole : h.total b - blockTotal size < blockTotal 0 + minBlock
    · obtain ⟨kept, record⟩ := fitted.take_whole member listed large whole
      exact ⟨b, _, _, _, rfl, kept, record⟩
    · obtain ⟨atEnd, inside⟩ := clean.resolve_left whole
      obtain rfl := fitted.shape.eq_last member atEnd
      obtain ⟨_, kept, record⟩ :=
        fitted.take_cut listed sized small (Nat.le_of_not_lt whole) inside
      exact ⟨b, _, _, _, rfl, kept, record⟩

end Fitted

/-- Halfway through `kfree`: the block is listed, and what lies away from it is untouched. -/
structure Releasing (h h' : Heap) (front₀ : List Nat) (last₀ b : Nat) (front : List Nat)
    (last : Nat) (nodes : List Nat) (headers : Nat → BlockHeader) : Prop where
  bounds : SameBounds h h'
  view : View h' (last₀ :: front₀) nodes headers
  shape : Shape h.start h.stop front last nodes headers
  member : b ∈ last :: front
  within : ∀ c ∈ last :: front, c ∈ last₀ :: front₀
  ahead : ∀ c ∈ front, c ∈ front₀
  free : (headers b).used = 0
  others : ∀ c, c ≠ b → headers c = h.header c
  kept : ∀ c ∈ last₀ :: front₀, c ≠ b → (h.header c).used ≠ 0 → c ∈ last :: front

/-- What a release leaves behind: every other block in use is as it was. -/
structure Released (h h' : Heap) (blocks blocks' : List Nat) (b : Nat) : Prop where
  others : ∀ c ∈ blocks, (h.header c).used ≠ 0 → c ≠ b → c ∈ blocks' ∧ h'.header c = h.header c

namespace Fitted

/-- The block is marked and listed. -/
theorem releasing (fitted : Fitted h front last nodes) (member : b ∈ last :: front)
    (taken : (h.header b).used ≠ 0) :
    Releasing h
      ((h.setHeader b { h.header b with used := 0 }).freeListInsert (headerToPayload b))
      front last b front last (headerToPayload b :: nodes)
      (Function.update h.header b { h.header b with used := 0 }) where
  bounds := (sameBounds_setHeader _ _ _).trans (sameBounds_freeListInsert _ _)
  view := (fitted.view.mark fitted.shape.placed member _ (by decide)).insert fitted.shape.placed
    member fun listed => taken ((fitted.shape.listed_iff member).mp listed)
  shape := fitted.shape.release member taken
  member := member
  within := fun _ => id
  ahead := fun _ => id
  free := by rw [Function.update_self]
  others := fun _ different => Function.update_of_ne different ..
  kept := fun _ memberC _ _ => memberC

end Fitted

variable {h' : Heap} {front₀ nodes₀ : List Nat} {last₀ : Nat} {headers : Nat → BlockHeader}

namespace Releasing

/-- The block behind is taken in where it is free, and then it is the last one. -/
theorem mergeNext (releasing : Releasing h h' front₀ last₀ b front₀ last₀ nodes headers)
    (size : (headers b).size = (h.header b).size)
    (clean : h.NextFree b → h.Mergeable (h.blockNext b)) :
    (¬ h.NextFree b ∧ h'.mergeNext b = h') ∨
      h.NextFree b ∧ ∃ us nodes' headers', front₀ = us ++ [b] ∧
        Releasing h (h'.mergeNext b) front₀ last₀ b us b nodes' headers' ∧
        b + blockTotal (headers' b).size < h.start + 2 ^ 32 := by
  have view := releasing.view
  have shape := releasing.shape
  have placed : Placed (last₀ :: front₀) := shape.placed
  have totalB : h'.total b = h.total b := by
    rw [view.total_eq releasing.member, size]
    rfl
  have next : h'.blockNext b = h.blockNext b := congrArg (b + ·) totalB
  have nextEq : b + blockTotal (headers b).size = h.blockNext b := by
    rw [size]
    rfl
  have wide : h.blockNext b ≠ b := by
    simp only [blockNext, total, blockTotal, BlockHeader.bytes]
    omega
  have frontOf (before : h.blockNext b < h.stop) : b ∈ front₀ := by
    refine (List.mem_cons.mp releasing.member).resolve_left ?_
    rintro rfl
    have crosses := shape.crosses
    omega
  have nextMember (before : h.blockNext b < h.stop) : h.blockNext b ∈ last₀ :: front₀ :=
    nextEq ▸ shape.next_mem (frontOf before)
  have nextHeader := releasing.others _ wide
  have agreed : h'.NextFree b ↔ h.NextFree b := by
    unfold NextFree
    rw [next, releasing.bounds.stop]
    refine and_congr_right fun before => ?_
    rw [view.agrees _ (nextMember before), nextHeader]
  by_cases nextFree : h.NextFree b
  · refine .inr ⟨nextFree, ?_⟩
    have earlier := frontOf nextFree.1
    have memberNext := nextMember nextFree.1
    obtain ⟨atEnd, small⟩ := clean nextFree
    have nextLast : h.blockNext b = last₀ := by
      refine shape.eq_last memberNext ?_
      rw [nextHeader]
      exact atEnd
    have free : (headers last₀).used = 0 := by
      rw [← nextLast, nextHeader]
      exact nextFree.2
    have totalLast : blockTotal (headers last₀).size = h.total last₀ := by
      rw [← nextLast, nextHeader]
      rfl
    have listed := (shape.listed_iff List.mem_cons_self).mpr free
    have ahead := (shape.tiles.bounds earlier).1
    have removed := view.remove placed listed
    have merged : h'.mergeNext b =
        (h'.freeListRemove (headerToPayload last₀)).setHeader b
          { (h'.freeListRemove (headerToPayload last₀)).header b with
            size := h.total b + h.total last₀ - BlockHeader.bytes } := by
      have first := removed.total_eq releasing.member
      have second := removed.total_eq (b := last₀) List.mem_cons_self
      rw [size] at first
      rw [totalLast] at second
      rw [mergeNext_eq, if_pos (agreed.mpr nextFree), next, nextLast]
      dsimp only
      rw [first, second]
      rfl
    have fits : h.total b + h.total last₀ - BlockHeader.bytes < 2 ^ 32 := by
      rw [nextLast] at small
      simp only [blockNext] at nextLast small
      omega
    have resized := removed.resize placed releasing.member fits
    rw [← merged] at resized
    obtain ⟨us, rfl⟩ := shape.front_eq earlier (nextEq.trans nextLast)
    have joined := shape.join (nodes.erase (headerToPayload last₀))
      (h.total b + h.total last₀ - BlockHeader.bytes) (nextEq.trans nextLast)
      releasing.free (by rw [totalLast, size]; exact Nat.le_add_of_sub_le le_rfl)
      (shape.distinct.erase _) (fun p => by rw [shape.distinct.mem_erase_iff, and_comm])
    refine ⟨us, _, _, rfl, ⟨releasing.bounds.trans (sameBounds_mergeNext h' b), resized, joined,
      List.mem_cons_self, ?_, ?_, ?_, ?_, ?_⟩, ?_⟩
    · intro c member
      rcases List.mem_cons.mp member with rfl | within
      · exact releasing.member
      · simp [within]
    · intro c member
      simp [member]
    · rw [Function.update_self]
      exact releasing.free
    · intro c different
      rw [Function.update_of_ne different]
      exact releasing.others c different
    · intro c member different taken
      rcases List.mem_cons.mp member with same | within
      · rw [same, ← nextLast] at taken
        exact absurd nextFree.2 taken
      · rcases List.mem_append.mp within with inside | same
        · exact List.mem_cons_of_mem b inside
        · exact absurd (List.mem_singleton.mp same) different
    · have rounded := alignUp_le (h.total b + h.total last₀ - BlockHeader.bytes)
      have some : BlockHeader.bytes ≤ h.total last₀ := Nat.le_add_left _ _
      rw [Function.update_self]
      rw [nextLast] at small
      simp only [blockNext, blockTotal, BlockHeader.bytes] at nextLast small rounded some ⊢
      omega
  · refine .inl ⟨nextFree, ?_⟩
    rw [mergeNext_eq, if_neg fun merged => nextFree (agreed.mp merged)]

/-- `kfree` looks through the whole list. -/
theorem scan_eq (releasing : Releasing h h' front₀ last₀ b front last nodes headers)
    (test : Nat → Bool) : h'.scan test = nodes.find? test := by
  refine Heap.scan_eq releasing.view.linked ?_ test
  rw [releasing.bounds.start, releasing.bounds.stop]
  exact releasing.shape.length_le

/-- No free block lies in front: the blocks stay apart. -/
theorem stay (fitted : Fitted h front₀ last₀ nodes₀)
    (releasing : Releasing h h' front₀ last₀ b front last nodes headers)
    (behind : b ∈ front → (headers (b + blockTotal (headers b).size)).used ≠ 0)
    (absent : ∀ c ∈ front, c ≠ b → (headers c).used = 0 →
      c + blockTotal (headers c).size ≠ b) :
    Fitted h' front last nodes ∧ Released h h' (last₀ :: front₀) (last :: front) b := by
  have view := releasing.view
  refine ⟨fitted.of_view releasing.bounds view releasing.within releasing.shape ?_,
    ⟨fun c member taken different => ⟨releasing.kept c member different taken,
      (view.agrees c member).trans (releasing.others c different)⟩⟩⟩
  intro c member freeC
  by_cases same : c = b
  · subst same
    exact behind member
  · have next := absent c member same freeC
    rw [releasing.others _ next]
    rw [releasing.others c same] at freeC ⊢
    exact fitted.separate c (releasing.ahead c member) freeC

/-- The free block in front takes in the last one. -/
theorem takeIn {us : List Nat} {a : Nat} (fitted : Fitted h front₀ last₀ nodes₀)
    (releasing : Releasing h h' front₀ last₀ last (us ++ [a]) last nodes headers)
    (nextA : a + blockTotal (headers a).size = last) (freeA : (headers a).used = 0)
    (small : last + blockTotal (headers last).size < h.start + 2 ^ 32)
    (finds : h'.scan (fun node => h'.blockNext (payloadToHeader node) = last ∧
      (h'.header (payloadToHeader node)).used = 0 ∧ payloadToHeader node ≠ last) =
        some (headerToPayload a)) :
    ∃ nodes', Fitted (h'.mergePrev last) us a nodes' ∧
      Released h (h'.mergePrev last) (last₀ :: front₀) (a :: us) last := by
  have view := releasing.view
  have shape := releasing.shape
  have placed : Placed (last₀ :: front₀) := fitted.shape.placed
  have inFront : a ∈ us ++ [a] := by simp
  have memberA : a ∈ last :: (us ++ [a]) := List.mem_cons_of_mem last inFront
  have withinA := releasing.within a memberA
  have withinB := releasing.within last List.mem_cons_self
  have ahead := (shape.tiles.bounds inFront).1
  have different : a ≠ last := fun same => shape.last_not_mem (same ▸ inFront)
  have headerA := releasing.others a different
  have listedA := (shape.listed_iff memberA).mpr freeA
  have listedB := (shape.listed_iff List.mem_cons_self).mpr releasing.free
  have distinct := shape.distinct
  have listedA' := distinct.mem_erase_iff.mpr
    ⟨fun same => different (headerToPayload_inj.mp same), listedA⟩
  have removed := (view.remove placed listedB).remove placed listedA'
  have fits : blockTotal (headers a).size + blockTotal (headers last).size -
      BlockHeader.bytes < 2 ^ 32 := by
    simp only [BlockHeader.bytes]
    omega
  have fresh := (distinct.erase (headerToPayload last)).not_mem_erase (a := headerToPayload a)
  have inserted := (removed.resize placed withinA fits).insert placed withinA fresh
  have merged : h'.mergePrev last =
      (((h'.freeListRemove (headerToPayload last)).freeListRemove (headerToPayload a)).setHeader
        a { ((h'.freeListRemove (headerToPayload last)).freeListRemove
              (headerToPayload a)).header a with
            size := blockTotal (headers a).size + blockTotal (headers last).size -
              BlockHeader.bytes }).freeListInsert (headerToPayload a) := by
    have first := removed.total_eq withinA
    have second := removed.total_eq withinB
    unfold Heap.mergePrev
    rw [finds]
    simp only [payloadToHeader_headerToPayload, first, second]
  rw [← merged] at inserted
  have joined := shape.join
    (headerToPayload a :: (nodes.erase (headerToPayload last)).erase (headerToPayload a))
    (blockTotal (headers a).size + blockTotal (headers last).size - BlockHeader.bytes)
    nextA freeA (Nat.le_add_of_sub_le le_rfl)
    (List.nodup_cons.mpr ⟨fresh, (distinct.erase _).erase _⟩) fun p => by
      rw [List.mem_cons, (distinct.erase _).mem_erase_iff, distinct.mem_erase_iff]
      by_cases same : p = headerToPayload a
      · subst same
        simp [listedA, headerToPayload_inj, different]
      · simp [same, and_comm]
  have others (c : Nat) (apart : c ≠ last) (apartA : c ≠ a) :
      Function.update headers a { headers a with
        size := blockTotal (headers a).size + blockTotal (headers last).size -
          BlockHeader.bytes } c = h.header c := by
    rw [Function.update_of_ne apartA]
    exact releasing.others c apart
  have notLast (c : Nat) (member : c ∈ us ++ [a]) : c ≠ last := fun same =>
    shape.last_not_mem (same ▸ member)
  have notA (c : Nat) (member : c ∈ us) : c ≠ a := fun same =>
    joined.last_not_mem (same ▸ member)
  have within (c : Nat) (member : c ∈ a :: us) : c ∈ us ++ [a] := by
    simpa [or_comm] using member
  refine ⟨_, fitted.of_view (releasing.bounds.trans (sameBounds_mergePrev h' last)) inserted
    (fun c member => releasing.within c (List.mem_cons_of_mem last (within c member))) joined ?_,
    ⟨fun c member taken apart => ?_⟩⟩
  · intro c member freeC
    have listed := within c (List.mem_cons_of_mem a member)
    have next := joined.next_mem member
    rw [others c (notLast c listed) (notA c member)] at freeC next ⊢
    have used := fitted.separate c (releasing.ahead c listed) freeC
    have apartA : c + blockTotal (h.header c).size ≠ a := by
      intro same
      rw [same, ← headerA] at used
      exact used freeA
    rw [others _ (notLast _ (within _ next)) apartA]
    exact used
  · have apartA : c ≠ a := by
      rintro rfl
      exact taken (headerA ▸ freeA)
    have listed := (List.mem_cons.mp (releasing.kept c member apart taken)).resolve_left apart
    refine ⟨?_, (inserted.agrees c member).trans (others c apart apartA)⟩
    exact List.mem_cons_of_mem a ((List.mem_append.mp listed).resolve_right fun same =>
      apartA (List.mem_singleton.mp same))

/-- The free block in front takes this one in where it is the last one. -/
theorem mergePrev (fitted : Fitted h front₀ last₀ nodes₀)
    (releasing : Releasing h h' front₀ last₀ b front last nodes headers)
    (behind : b ∈ front → (headers (b + blockTotal (headers b).size)).used ≠ 0)
    (atEnd : ∀ a ∈ front₀, (h.header a).used = 0 → h.blockNext a = b →
      last = b ∧ b + blockTotal (headers b).size < h.start + 2 ^ 32) :
    ∃ front' last' nodes', Fitted (h'.mergePrev b) front' last' nodes' ∧
      Released h (h'.mergePrev b) (last₀ :: front₀) (last' :: front') b := by
  have view := releasing.view
  have shape := releasing.shape
  cases finds : h'.scan (fun node => h'.blockNext (payloadToHeader node) = b ∧
      (h'.header (payloadToHeader node)).used = 0 ∧ payloadToHeader node ≠ b) with
  | none =>
    have unmerged : h'.mergePrev b = h' := by
      unfold Heap.mergePrev
      rw [finds]
    rw [unmerged]
    rw [releasing.scan_eq] at finds
    refine ⟨front, last, nodes, releasing.stay fitted behind fun c member different free next => ?_⟩
    have within := releasing.within c (List.mem_cons_of_mem last member)
    have listed := (shape.listed_iff (List.mem_cons_of_mem last member)).mpr free
    have failed := List.find?_eq_none.mp finds _ listed
    rw [payloadToHeader_headerToPayload, blockNext, view.total_eq within,
      view.agrees c within] at failed
    exact failed (decide_eq_true ⟨next, free, different⟩)
  | some node =>
    have found := finds
    rw [releasing.scan_eq] at found
    have listed := List.mem_of_find?_eq_some found
    have passed := of_decide_eq_true (List.find?_some
      (p := fun node => decide (h'.blockNext (payloadToHeader node) = b ∧
        (h'.header (payloadToHeader node)).used = 0 ∧ payloadToHeader node ≠ b)) found)
    obtain ⟨a, member, free, rfl⟩ := (shape.free node).mp listed
    rw [payloadToHeader_headerToPayload, blockNext,
      view.total_eq (releasing.within a member)] at passed
    obtain ⟨next, -, different⟩ := passed
    have header := releasing.others a different
    have inFront : a ∈ front := by
      refine (List.mem_cons.mp member).resolve_left ?_
      rintro rfl
      have crosses := shape.crosses
      have room := shape.room
      have earlier := (List.mem_cons.mp releasing.member).resolve_left different.symm
      have before := (shape.tiles.bounds earlier).2
      omega
    have nextBefore : h.blockNext a = b := by
      rw [blockNext, total, ← header]
      exact next
    obtain ⟨rfl, small⟩ := atEnd a (releasing.ahead a inFront) (header ▸ free) nextBefore
    obtain ⟨us, rfl⟩ := shape.front_eq inFront next
    obtain ⟨nodes', kept, record⟩ := takeIn fitted releasing next free small finds
    exact ⟨us, a, nodes', kept, record⟩

end Releasing

/-- `kfree` of a block in use marks and lists it and looks for its neighbours. -/
theorem Fitted.kfree_eq (fitted : Fitted h front last nodes) (member : b ∈ last :: front)
    (taken : (h.header b).used ≠ 0) :
    h.kfree (headerToPayload b) =
      (((h.setHeader b { h.header b with used := 0 }).freeListInsert
        (headerToPayload b)).mergeNext b).mergePrev b := by
  have inside : h.start ≤ b ∧ b < h.stop := by
    have room := fitted.shape.room
    have ahead := fitted.shape.tiles.start_le
    rcases List.mem_cons.mp member with rfl | earlier
    · omega
    · have bounds := fitted.shape.tiles.bounds earlier
      omega
  have nonzero : headerToPayload b ≠ 0 := Nat.succ_ne_zero _
  unfold Heap.kfree
  simp only [payloadToHeader_headerToPayload]
  rw [if_neg nonzero, fitted.ready, Bool.not_true, if_neg Bool.false_ne_true,
    if_neg taken, if_neg (by omega)]

/-- A clean `kfree` keeps the free blocks apart. -/
theorem Fitted.kfree (fitted : Fitted h front last nodes) (member : b ∈ last :: front)
    (taken : (h.header b).used ≠ 0) (clean : h.CleanFree (headerToPayload b)) :
    ∃ front' last' nodes', Fitted (h.kfree (headerToPayload b)) front' last' nodes' ∧
      Released h (h.kfree (headerToPayload b)) (last :: front) (last' :: front') b := by
  have releasing := fitted.releasing member taken
  have shape := fitted.shape
  unfold CleanFree at clean
  simp only [payloadToHeader_headerToPayload] at clean
  obtain ⟨cleanNext, cleanPrev⟩ := clean
  have size : (Function.update h.header b { h.header b with used := 0 } b).size =
      (h.header b).size := by rw [Function.update_self]
  rw [fitted.kfree_eq member taken]
  rcases releasing.mergeNext size cleanNext with
    ⟨alone, same⟩ | ⟨-, us, nodes', headers', rfl, merged, small⟩
  · rw [same]
    refine releasing.mergePrev fitted (fun earlier => ?_) fun a earlier free next => ?_
    · have apart : b + blockTotal (h.header b).size ≠ b := by
        simp only [blockTotal, BlockHeader.bytes]
        omega
      rw [size, Function.update_of_ne apart]
      exact fun free => alone ⟨shape.inside earlier, free⟩
    · have listed : h.Listed (headerToPayload a) := fitted.listed_iff.mpr
        ((shape.listed_iff (List.mem_cons_of_mem last earlier)).mpr free)
      obtain ⟨atEnd, small⟩ := (cleanPrev _ listed (by
        rw [payloadToHeader_headerToPayload, next])).resolve_right alone
      refine ⟨(shape.eq_last member atEnd).symm, ?_⟩
      rw [size]
      exact Nat.lt_of_lt_of_le (Nat.lt_add_of_pos_right (by decide)) small
  · refine merged.mergePrev fitted (fun again => ?_) fun _ _ _ _ => ⟨rfl, small⟩
    exact absurd again merged.shape.last_not_mem

end DBSos.Heap
