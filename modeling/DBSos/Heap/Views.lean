import DBSos.Heap.Lists

/-!
# Blocks and nodes apart

Where the blocks are far enough apart for a header and a list node each, the words of the
headers and those of the nodes are different ones. The memory then looks like a table of
headers and a list of nodes, and each operation edits one of them.
-/

namespace DBSos.Heap

open DBSos.Lib

namespace BlockHeader

/-- Each field fits its type. -/
structure Fits (value : BlockHeader) : Prop where
  size : value.size < 2 ^ 32
  used : value.used < 2 ^ 16
  pad : value.pad < 2 ^ 16

theorem Fits.ofWord_toWord {value : BlockHeader} (fits : value.Fits) :
    ofWord value.toWord = value := by
  rw [BlockHeader.ofWord_toWord, Nat.mod_eq_of_lt fits.size, Nat.mod_eq_of_lt fits.used,
    Nat.mod_eq_of_lt fits.pad]

theorem fits_ofWord (word : Nat) : (ofWord word).Fits :=
  ⟨Nat.mod_lt _ (by decide), Nat.mod_lt _ (by decide), Nat.mod_lt _ (by decide)⟩

end BlockHeader

/-- No operation on the list moves the bounds of the heap. -/
structure SameBounds (h h' : Heap) : Prop where
  ready : h'.ready = h.ready
  start : h'.start = h.start
  stop : h'.stop = h.stop

theorem SameBounds.refl (h : Heap) : SameBounds h h := ⟨rfl, rfl, rfl⟩

theorem SameBounds.trans {h h' h'' : Heap} (first : SameBounds h h') (second : SameBounds h' h'') :
    SameBounds h h'' :=
  ⟨second.ready.trans first.ready, second.start.trans first.start, second.stop.trans first.stop⟩

theorem sameBounds_setHeader (h : Heap) (hdr : Nat) (value : BlockHeader) :
    SameBounds h (h.setHeader hdr value) := ⟨rfl, rfl, rfl⟩

theorem sameBounds_freeListRemove (h : Heap) (node : Nat) :
    SameBounds h (h.freeListRemove node) := by
  by_cases null : node = 0
  · rw [freeListRemove, if_pos null]
    exact .refl h
  · rw [freeListRemove_eq null]
    unfold unlinkFront
    split_ifs <;> exact ⟨rfl, rfl, rfl⟩

theorem sameBounds_freeListInsert (h : Heap) (node : Nat) :
    SameBounds h (h.freeListInsert node) := by
  unfold freeListInsert
  dsimp only
  split_ifs <;> exact ⟨rfl, rfl, rfl⟩

/-- Block addresses with room for a header and a node between them. -/
structure Placed (bs : List Nat) : Prop where
  positive : ∀ b ∈ bs, 0 < b
  spaced : ∀ b ∈ bs, ∀ c ∈ bs, b ≠ c → b + 24 ≤ c ∨ c + 24 ≤ b

theorem Placed.mono {bs cs : List Nat} (placed : Placed bs) (within : ∀ b ∈ cs, b ∈ bs) :
    Placed cs :=
  ⟨fun b member => placed.positive b (within b member),
    fun b memberB c memberC => placed.spaced b (within b memberB) c (within c memberC)⟩

/-- The memory holds these headers at the blocks and a list of these nodes. -/
structure View (h : Heap) (bs nodes : List Nat) (headers : Nat → BlockHeader) : Prop where
  linked : h.list.Linked nodes
  among : ∀ p ∈ nodes, ∃ b ∈ bs, p = headerToPayload b
  agrees : ∀ b ∈ bs, h.header b = headers b

variable {h : Heap} {bs nodes : List Nat} {headers : Nat → BlockHeader} {b p : Nat}

/-- Nodes behind the headers of placed blocks do not share words. -/
theorem Placed.spread (placed : Placed bs) (among : ∀ p ∈ nodes, ∃ b ∈ bs, p = headerToPayload b) :
    Spread nodes := by
  constructor
  · intro p listed
    obtain ⟨b, -, rfl⟩ := among p listed
    exact Nat.succ_ne_zero _
  · intro p listedP q listedQ
    obtain ⟨b, memberB, rfl⟩ := among p listedP
    obtain ⟨c, memberC, rfl⟩ := among q listedQ
    unfold headerToPayload BlockHeader.bytes
    by_cases same : b = c
    · omega
    · have := placed.spaced b memberB c memberC same
      omega

/-- The header of a placed block is no word of a node. -/
theorem Placed.outside (placed : Placed bs)
    (among : ∀ p ∈ nodes, ∃ b ∈ bs, p = headerToPayload b) (member : b ∈ bs) :
    ∀ p ∈ nodes, b ≠ p ∧ b ≠ p + 8 := by
  intro p listed
  obtain ⟨c, memberC, rfl⟩ := among p listed
  unfold headerToPayload BlockHeader.bytes
  by_cases same : b = c
  · omega
  · have := placed.spaced b member c memberC same
    omega

namespace View

theorem total_eq (view : View h bs nodes headers) (member : b ∈ bs) :
    h.total b = blockTotal (headers b).size := by
  rw [total, view.agrees b member]

/-- A header that fits is written as it is. -/
theorem setHeader (view : View h bs nodes headers) (placed : Placed bs) (member : b ∈ bs)
    {value : BlockHeader} (fits : value.Fits) :
    View (h.setHeader b value) bs nodes (Function.update headers b value) := by
  have word (x : Nat) : (h.setHeader b value).word x =
      if x = b then value.toWord else h.word x := by
    simp [Heap.setHeader, setWord, Function.update_apply]
  refine ⟨view.linked.frame rfl fun p listed => ?_, view.among, fun c memberC => ?_⟩
  · obtain ⟨front, back⟩ := placed.outside view.among member p listed
    have next : (h.setHeader b value).word p = h.word p := by rw [word, if_neg front.symm]
    have prev : (h.setHeader b value).word (p + 8) = h.word (p + 8) := by
      rw [word, if_neg back.symm]
    change (⟨pointer ((h.setHeader b value).word p),
      pointer ((h.setHeader b value).word (p + 8))⟩ : Node Nat) = _
    rw [next, prev]
    rfl
  · rw [header, word]
    by_cases same : c = b
    · subst same
      rw [if_pos rfl, fits.ofWord_toWord, Function.update_self]
    · rw [if_neg same, Function.update_of_ne same]
      exact view.agrees c memberC

/-- Mark a block. -/
theorem mark (view : View h bs nodes headers) (placed : Placed bs) (member : b ∈ bs) (used : Nat)
    (small : used < 2 ^ 16) :
    View (h.setHeader b { h.header b with used := used }) bs nodes
      (Function.update headers b { headers b with used := used }) := by
  have range := BlockHeader.fits_ofWord (h.word b)
  have same := view.agrees b member
  rw [← same]
  exact view.setHeader placed member ⟨range.size, small, range.pad⟩

/-- Give a block another size. -/
theorem resize (view : View h bs nodes headers) (placed : Placed bs) (member : b ∈ bs) {size : Nat}
    (small : size < 2 ^ 32) :
    View (h.setHeader b { h.header b with size := size }) bs nodes
      (Function.update headers b { headers b with size := size }) := by
  have range := BlockHeader.fits_ofWord (h.word b)
  have same := view.agrees b member
  rw [← same]
  exact view.setHeader placed member ⟨small, range.used, range.pad⟩

/-- Take a block's node out of the list. -/
theorem remove (view : View h bs nodes headers) (placed : Placed bs) (listed : p ∈ nodes) :
    View (h.freeListRemove p) bs (nodes.erase p) headers := by
  have spread := placed.spread view.among
  refine ⟨linked_freeListRemove view.linked spread listed,
    fun q kept => view.among q (List.mem_of_mem_erase kept), fun c memberC => ?_⟩
  rw [header, freeListRemove_frame view.linked spread listed
    (placed.outside view.among memberC)]
  exact view.agrees c memberC

/-- Put a block's node in front of the list. -/
theorem insert (view : View h bs nodes headers) (placed : Placed bs) (member : b ∈ bs)
    (fresh : headerToPayload b ∉ nodes) :
    View (h.freeListInsert (headerToPayload b)) bs (headerToPayload b :: nodes) headers := by
  have among : ∀ p ∈ headerToPayload b :: nodes, ∃ c ∈ bs, p = headerToPayload c := by
    intro p listed
    rcases List.mem_cons.mp listed with rfl | listed
    · exact ⟨b, member, rfl⟩
    · exact view.among p listed
  refine ⟨linked_freeListInsert view.linked (placed.spread among) fresh, among,
    fun c memberC => ?_⟩
  rw [header, freeListInsert_frame view.linked (placed.outside among memberC)]
  exact view.agrees c memberC

end View

end DBSos.Heap
