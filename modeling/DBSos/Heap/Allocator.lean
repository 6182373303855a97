import DBSos.Lib.Tiling
import DBSos.Lib.LinkedList

/-!
# The kernel heap

`heap.rs` works in place on the memory of the heap region. Every access is aligned to 8
bytes, so the memory is a map from addresses to words of 64 bits: a block starts with one
word of header, and the payload of a free block starts with the two words of its list node.
How many of the pages that a growing heap asks for are really found and mapped is left open.
-/

namespace DBSos

namespace Heap

def pageSize : Nat := 4096

/-- `HEAP_BASE`. -/
def heapBase : Nat := 0x100000000000

/-- `HEAP_MAX_SIZE`. -/
def heapMaxSize : Nat := 256 * 1024 * 1024

def minAlign : Nat := 16

def minBlock : Nat := 32

/-- `BlockHeader`. -/
structure BlockHeader where
  size : Nat
  used : Nat
  pad : Nat
  deriving DecidableEq, Repr

namespace BlockHeader

/-- `size_of::<BlockHeader>()`: a `u32` and two `u16`. -/
def bytes : Nat := 8

/-- The header in a word of memory. -/
def ofWord (word : Nat) : BlockHeader :=
  ⟨word % 2 ^ 32, word / 2 ^ 32 % 2 ^ 16, word / 2 ^ 48 % 2 ^ 16⟩

/-- The word of a header, each field cut to its type. -/
def toWord (header : BlockHeader) : Nat :=
  header.size % 2 ^ 32 + header.used % 2 ^ 16 * 2 ^ 32 + header.pad % 2 ^ 16 * 2 ^ 48

@[simp] theorem ofWord_toWord (header : BlockHeader) :
    ofWord header.toWord =
      ⟨header.size % 2 ^ 32, header.used % 2 ^ 16, header.pad % 2 ^ 16⟩ := by
  simp only [ofWord, toWord, mk.injEq]
  omega

end BlockHeader

/-- `align_up`. -/
def alignUp (n : Nat) : Nat := (n + minAlign - 1) / minAlign * minAlign

/-- `block_total`. -/
def blockTotal (size : Nat) : Nat := alignUp size + BlockHeader.bytes

/-- `payload_to_header`. -/
def payloadToHeader (ptr : Nat) : Nat := ptr - BlockHeader.bytes

/-- `header_to_payload`. -/
def headerToPayload (hdr : Nat) : Nat := hdr + BlockHeader.bytes

end Heap

/-- The heap's globals and its memory; the null pointer is 0. -/
structure Heap where
  ready : Bool
  start : Nat
  stop : Nat
  freeList : Nat
  word : Nat → Nat

namespace Heap

/-- Write one word. -/
def setWord (h : Heap) (address value : Nat) : Heap :=
  { h with word := Function.update h.word address value }

/-- The header at an address. -/
def header (h : Heap) (hdr : Nat) : BlockHeader := .ofWord (h.word hdr)

/-- Write the header at an address. -/
def setHeader (h : Heap) (hdr : Nat) (value : BlockHeader) : Heap := h.setWord hdr value.toWord

/-- `block_total` of the size in a header. -/
def total (h : Heap) (hdr : Nat) : Nat := blockTotal (h.header hdr).size

/-- `block_next`. -/
def blockNext (h : Heap) (hdr : Nat) : Nat := hdr + h.total hdr

/-- The `next` pointer of a node. -/
def next (h : Heap) (node : Nat) : Nat := h.word node

/-- The `prev` pointer of a node. -/
def prev (h : Heap) (node : Nat) : Nat := h.word (node + 8)

def setNext (h : Heap) (node value : Nat) : Heap := h.setWord node value

def setPrev (h : Heap) (node value : Nat) : Heap := h.setWord (node + 8) value

/-- `free_list_remove`. -/
def freeListRemove (h : Heap) (node : Nat) : Heap :=
  if node = 0 then h
  else
    let h :=
      if h.prev node ≠ 0 then h.setNext (h.prev node) (h.next node)
      else { h with freeList := h.next node }
    if h.next node ≠ 0 then h.setPrev (h.next node) (h.prev node) else h

/-- `free_list_insert`. -/
def freeListInsert (h : Heap) (node : Nat) : Heap :=
  let h := (h.setPrev node 0).setNext node h.freeList
  let h := if h.freeList ≠ 0 then h.setPrev h.freeList node else h
  { h with freeList := node }

/-- The walk along the free list, to the first node that passes a test. The fuel is the
length of the heap region, which no list of nodes in it exceeds. -/
def walk (h : Heap) (test : Nat → Bool) : Nat → Nat → Option Nat
  | 0, _ => none
  | fuel + 1, node =>
    if node = 0 then none
    else if test node then some node
    else walk h test fuel (h.next node)

def scan (h : Heap) (test : Nat → Bool) : Option Nat :=
  h.walk test (h.stop - h.start) h.freeList

/-- How many pages `grow_heap` asks for. -/
def growPages (h : Heap) (minPages : Nat) : Nat :=
  let currentSize := h.stop - heapBase
  let pages := max (max minPages (currentSize / pageSize / 4)) 4
  if currentSize + pages * pageSize > heapMaxSize then (heapMaxSize - currentSize) / pageSize
  else pages

/-- `grow_heap`, where `palloc` and `map_page` serve the first `granted` pages. -/
def growHeap (h : Heap) (minPages granted : Nat) : Bool × Heap :=
  let allocated := min (h.growPages minPages) granted
  if allocated = 0 then (false, h)
  else
    let newEnd := h.stop + allocated * pageSize
    let growStart := h.stop
    let grown :=
      if growStart + blockTotal 0 ≤ newEnd then
        let payloadSize := newEnd - growStart - BlockHeader.bytes
        if payloadSize ≥ minBlock then
          (h.setHeader growStart ⟨payloadSize, 0, 0⟩).freeListInsert (headerToPayload growStart)
        else h
      else h
    (true, { grown with stop := newEnd })

/-- `init`, where `palloc` serves the first `granted` pages; what the memory held before is
left open. -/
def init (word : Nat → Nat) (heapPages granted : Nat) : Heap :=
  let base := heapBase + min heapPages granted * pageSize
  let payload := base - heapBase - BlockHeader.bytes
  let h : Heap := ⟨false, heapBase, base, 0, word⟩
  { (h.setHeader heapBase ⟨payload, 0, 0⟩).freeListInsert (headerToPayload heapBase) with
    ready := true }

/-- The first free block that `kmalloc` finds large enough. -/
def fit (h : Heap) (size : Nat) : Option Nat :=
  h.scan fun node => h.total (payloadToHeader node) ≥ blockTotal size

/-- What `kmalloc` does with the block that it found. -/
def take (h : Heap) (size node : Nat) : Heap :=
  let total := blockTotal size
  let hdr := payloadToHeader node
  let blkTotal := h.total hdr
  let h := h.freeListRemove node
  let remaining := blkTotal - total
  let h :=
    if remaining ≥ blockTotal 0 + minBlock then
      let newHdr := hdr + total
      let h := h.setHeader newHdr ⟨remaining - BlockHeader.bytes, 0, 0⟩
      let h := h.setHeader hdr { h.header hdr with size := size }
      h.freeListInsert (headerToPayload newHdr)
    else h
  h.setHeader hdr { h.header hdr with used := 1 }

/-- The `pages_needed` of a request. -/
def pagesNeeded (size : Nat) : Nat := (blockTotal size + pageSize - 1) / pageSize

/-- The search of `kmalloc`, which grows the heap and starts again until a block is found or
no page is left; each growth gets the next number of pages. -/
def search (h : Heap) (size : Nat) (granted : List Nat) : Nat × Heap :=
  match h.fit size, granted with
  | some node, _ => (headerToPayload (payloadToHeader node), h.take size node)
  | none, [] => (0, h)
  | none, pages :: later =>
    let grown := h.growHeap (pagesNeeded size) pages
    if !grown.1 then (0, grown.2) else search grown.2 size later

/-- `kmalloc`. -/
def kmalloc (h : Heap) (size : Nat) (granted : List Nat) : Nat × Heap :=
  if size = 0 then (0, h)
  else if !h.ready then (0, h)
  else h.search size granted

/-- The part of `kfree` that takes in the block behind. -/
def mergeNext (h : Heap) (hdr : Nat) : Heap :=
  let next := h.blockNext hdr
  if next < h.stop ∧ (h.header next).used = 0 then
    let h := h.freeListRemove (headerToPayload next)
    let combined := h.total hdr + h.total next
    h.setHeader hdr { h.header hdr with size := combined - BlockHeader.bytes }
  else h

/-- The part of `kfree` that lets the block in front take this one in. -/
def mergePrev (h : Heap) (hdr : Nat) : Heap :=
  let found := h.scan fun node =>
    let front := payloadToHeader node
    h.blockNext front = hdr ∧ (h.header front).used = 0 ∧ front ≠ hdr
  match found with
  | none => h
  | some node =>
    let front := payloadToHeader node
    let h := (h.freeListRemove (headerToPayload hdr)).freeListRemove (headerToPayload front)
    let combined := h.total front + h.total hdr
    let h := h.setHeader front { h.header front with size := combined - BlockHeader.bytes }
    h.freeListInsert (headerToPayload front)

/-- `kfree`. -/
def kfree (h : Heap) (ptr : Nat) : Heap :=
  if ptr = 0 then h
  else if !h.ready then h
  else
    let hdr := payloadToHeader ptr
    if (h.header hdr).used = 0 then h
    else if hdr < h.start ∨ h.stop ≤ hdr then h
    else
      let h := h.setHeader hdr { h.header hdr with used := 0 }
      let h := h.freeListInsert ptr
      (h.mergeNext hdr).mergePrev hdr

end Heap

end DBSos
