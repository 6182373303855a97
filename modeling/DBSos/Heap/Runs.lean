import DBSos.Heap.Merging
import DBSos.Lib.Trace

/-!
# The heap in use

A run allocates, writes into what it holds and frees what it holds. How many pages each
growth gets is chosen anew at every request.
-/

namespace DBSos.Heap

open DBSos.Lib

inductive Call where
  | kmalloc (size : Nat) (granted : List Nat)
  | kfree (ptr : Nat)
  | store (ptr offset value : Nat)

/-- The heap and the size asked for at each live pointer. -/
structure Use where
  heap : Heap
  live : Nat → Option Nat

namespace Use

/-- The caller asks for 1 byte up to 256 MiB, frees live pointers and writes words of what it
holds. -/
def Allowed (u : Use) : Call → Prop
  | .kmalloc size _ => 1 ≤ size ∧ size ≤ heapMaxSize
  | .kfree ptr => (u.live ptr).isSome
  | .store ptr offset _ => ∃ size ∈ u.live ptr, 8 * offset < size

instance (u : Use) (call : Call) : Decidable (u.Allowed call) := by
  cases call <;> unfold Allowed <;> infer_instance

/-- The heap and the live pointers behind a call. -/
def apply (u : Use) : Call → Use
  | .kmalloc size granted =>
    let served := u.heap.kmalloc size granted
    ⟨served.2, if served.1 = 0 then u.live else Function.update u.live served.1 (some size)⟩
  | .kfree ptr => ⟨u.heap.kfree ptr, Function.update u.live ptr none⟩
  | .store ptr offset value => ⟨u.heap.setWord (ptr + 8 * offset) value, u.live⟩

def step (u : Use) (call : Call) : Option Use :=
  if u.Allowed call then some (u.apply call) else none

def Steps (u : Use) (call : Call) (next : Use) : Prop := u.step call = some next

end Use

/-- The heap that `init` leaves, with nothing live. -/
def boot (word : Nat → Nat) (heapPages granted : Nat) : Use :=
  ⟨init word heapPages granted, fun _ => none⟩

/-- `init` gets at least one page and no more than the limit of the heap. -/
structure Bootable (heapPages granted : Nat) : Prop where
  asked : 0 < heapPages
  bounded : heapPages * pageSize ≤ heapMaxSize
  granted : 0 < granted

section Boot

variable {word : Nat → Nat} {heapPages granted : Nat}

/-- How many bytes `init` maps. -/
def bootBytes (heapPages granted : Nat) : Nat := min heapPages granted * pageSize

theorem Bootable.bytes (bootable : Bootable heapPages granted) :
    pageSize ≤ bootBytes heapPages granted ∧ bootBytes heapPages granted ≤ heapMaxSize ∧
      bootBytes heapPages granted % 16 = 0 := by
  obtain ⟨asked, bounded, got⟩ := bootable
  simp only [bootBytes, pageSize, heapMaxSize] at *
  omega

/-- The size in the first header is no multiple of 16: rounded up, it claims 8 bytes more than
there are. -/
theorem Bootable.total (bootable : Bootable heapPages granted) :
    blockTotal (bootBytes heapPages granted - BlockHeader.bytes) =
      bootBytes heapPages granted + 8 := by
  obtain ⟨least, -, rounded⟩ := bootable.bytes
  simp only [blockTotal, alignUp, minAlign, BlockHeader.bytes, pageSize] at *
  omega

/-- The first header and the first node. -/
theorem view_init (word : Nat → Nat) (bootable : Bootable heapPages granted) :
    View (init word heapPages granted) [heapBase] [headerToPayload heapBase]
      (fun _ => ⟨bootBytes heapPages granted - BlockHeader.bytes, 0, 0⟩) := by
  obtain ⟨-, most, -⟩ := bootable.bytes
  have placed : Placed [heapBase] := by
    constructor
    · intro b member
      rw [List.mem_singleton.mp member]
      decide
    · intro b memberB c memberC different
      rw [List.mem_singleton.mp memberB, List.mem_singleton.mp memberC] at different
      exact absurd rfl different
  have member : heapBase ∈ [heapBase] := List.mem_singleton.mpr rfl
  have fits : BlockHeader.Fits ⟨bootBytes heapPages granted - BlockHeader.bytes, 0, 0⟩ := by
    refine ⟨Nat.lt_of_le_of_lt ((Nat.sub_le _ _).trans most) ?_, ?_, ?_⟩
    · decide
    · exact Nat.two_pow_pos 16
    · exact Nat.two_pow_pos 16
  let empty : Heap := ⟨false, heapBase, heapBase + bootBytes heapPages granted, 0, word⟩
  have start : View empty [heapBase] [] empty.header :=
    ⟨LinkedList.linked_nil _, nofun, fun _ _ => rfl⟩
  have listed := (start.setHeader placed member fits).insert placed member List.not_mem_nil
  have sized : heapBase + min heapPages granted * pageSize - heapBase - BlockHeader.bytes =
      bootBytes heapPages granted - BlockHeader.bytes := by
    rw [Nat.add_sub_cancel_left]
    rfl
  unfold init
  dsimp only
  rw [sized]
  refine ⟨listed.linked, listed.among, fun b among => (listed.agrees b among).trans ?_⟩
  rw [List.mem_singleton.mp among, Function.update_self]

/-- Right after boot the heap is one free block. -/
theorem fitted_init (bootable : Bootable heapPages granted) :
    Fitted (init word heapPages granted) [] heapBase [headerToPayload heapBase] := by
  obtain ⟨least, -, -⟩ := bootable.bytes
  have view := view_init word bootable
  have agrees : (init word heapPages granted).header heapBase =
      ⟨bootBytes heapPages granted - BlockHeader.bytes, 0, 0⟩ :=
    view.agrees heapBase (List.mem_singleton.mpr rfl)
  have stop : (init word heapPages granted).stop = heapBase + bootBytes heapPages granted := rfl
  have start : (init word heapPages granted).start = heapBase := rfl
  refine ⟨rfl, view.linked, ⟨Nat.succ_pos _, rfl, nofun, ?_, ?_, List.nodup_singleton _,
    fun p => ?_⟩, nofun⟩
  · rw [stop]
    unfold pageSize at least
    omega
  · rw [stop, agrees, bootable.total]
    omega
  · rw [List.mem_singleton]
    constructor
    · rintro rfl
      exact ⟨heapBase, List.mem_singleton.mpr rfl, by rw [agrees], rfl⟩
    · rintro ⟨b, member, -, rfl⟩
      rw [List.mem_singleton.mp member]

end Boot

section Regions

/-- A block reaches up to another one behind it. -/
def Touching (h : Heap) (b c : Nat) : Prop := b < c ∧ c ≤ h.blockNext b

instance (h : Heap) (b c : Nat) : Decidable (h.Touching b c) := inferInstanceAs (Decidable (_ ∧ _))

/-- Free memory without a gap: listed blocks of which each reaches up to the next. -/
inductive FreeRegion (h : Heap) : Nat → Nat → Prop where
  | block {b : Nat} (listed : h.Listed (headerToPayload b)) : FreeRegion h b (h.blockNext b)
  | behind {b c stop : Nat} (listed : h.Listed (headerToPayload b)) (touching : h.Touching b c)
      (region : FreeRegion h c stop) : FreeRegion h b stop

/-- No two free blocks touch, and a request fails or grows the heap only where no free region is
large enough. -/
structure Coalesced (h : Heap) : Prop where
  apart : ∀ b c, h.Listed (headerToPayload b) → h.Listed (headerToPayload c) → ¬ h.Touching b c
  enough : ∀ size granted, 1 ≤ size →
    ((h.kmalloc size granted).1 = 0 ∨ (h.kmalloc size granted).2.stop ≠ h.stop) →
      ∀ start stop, h.FreeRegion start stop → stop - start < blockTotal size

variable {h : Heap} {front nodes : List Nat} {last size : Nat} {granted : List Nat}

theorem FreeRegion.listed {start stop : Nat} (region : h.FreeRegion start stop) :
    h.Listed (headerToPayload start) := by
  cases region with
  | block listed => exact listed
  | behind listed => exact listed

/-- A request that finds a block neither fails nor grows the heap. -/
theorem fit_none_of_failed (ready : h.ready = true) (sized : 1 ≤ size)
    (failed : (h.kmalloc size granted).1 = 0 ∨ (h.kmalloc size granted).2.stop ≠ h.stop) :
    h.fit size = none := by
  cases found : h.fit size with
  | none => rfl
  | some node =>
    have served : h.kmalloc size granted =
        (headerToPayload (payloadToHeader node), h.take size node) := by
      rw [kmalloc, if_neg (Nat.one_le_iff_ne_zero.mp sized), ready]
      unfold search
      rw [found]
      rfl
    rw [served] at failed
    rcases failed with null | moved
    · exact absurd null (Nat.succ_ne_zero _)
    · exact absurd (sameBounds_take h size node).stop moved

/-- In a fitted heap no two free blocks touch. -/
theorem Fitted.coalesced (fitted : Fitted h front last nodes) : h.Coalesced := by
  have shape := fitted.shape
  have apart (b c : Nat) (listedB : h.Listed (headerToPayload b))
      (listedC : h.Listed (headerToPayload c)) : ¬ h.Touching b c := by
    rintro ⟨behind, reaches⟩
    obtain ⟨b', memberB, freeB, sameB⟩ := (shape.free _).mp (fitted.listed_iff.mp listedB)
    obtain ⟨c', memberC, freeC, sameC⟩ := (shape.free _).mp (fitted.listed_iff.mp listedC)
    obtain rfl := headerToPayload_inj.mp sameB
    obtain rfl := headerToPayload_inj.mp sameC
    have frontB : b ∈ front := by
      refine (List.mem_cons.mp memberB).resolve_left ?_
      rintro rfl
      rcases List.mem_cons.mp memberC with rfl | earlier
      · omega
      · have before := (shape.tiles.bounds earlier).2
        omega
    have next : c = h.blockNext b := by
      rcases List.mem_cons.mp memberC with rfl | earlier
      · exact Nat.le_antisymm reaches (shape.tiles.bounds frontB).2
      · rcases shape.tiles.apart frontB earlier (Nat.ne_of_lt behind) with before | before
        · exact Nat.le_antisymm reaches before
        · omega
    rw [next] at freeC
    exact fitted.separate b frontB freeB freeC
  refine ⟨apart, fun size granted sized failed start stop region => ?_⟩
  have missing := fit_none_of_failed fitted.ready sized failed
  have single : stop = h.blockNext start := by
    cases region with
    | block => rfl
    | behind listed touching later => exact absurd touching (apart _ _ listed later.listed)
  have small := fitted.fit_none missing (fitted.listed_iff.mp region.listed)
  rw [payloadToHeader_headerToPayload] at small
  rw [single, blockNext, Nat.add_sub_cancel_left]
  exact small

end Regions

section Runs

/-- The call cuts up and merges the last block only, and the heap does not grow. -/
def Clean (u : Use) : Call → Prop
  | .kmalloc size granted => u.heap.CleanMalloc size granted
  | .kfree ptr => u.heap.CleanFree ptr
  | .store _ _ _ => True

/-- The heap is fitted, and live pointers name blocks in use that are large enough. -/
def Orderly (u : Use) : Prop :=
  ∃ front last nodes, Fitted u.heap front last nodes ∧
    ∀ ptr, ∀ size ∈ u.live ptr, ∃ b ∈ last :: front, ptr = headerToPayload b ∧
      (u.heap.header b).used ≠ 0 ∧ blockTotal size ≤ u.heap.total b

variable {u next : Use} {call : Call}

/-- Writing into a block in use leaves headers and nodes alone. -/
theorem Fitted.store {h : Heap} {front nodes : List Nat} {last b : Nat}
    (fitted : Fitted h front last nodes) (address value : Nat) (member : b ∈ last :: front)
    (used : (h.header b).used ≠ 0) (behind : headerToPayload b ≤ address)
    (inside : address < h.blockNext b) :
    Fitted (h.setWord address value) front last nodes ∧
      ∀ c ∈ last :: front, (h.setWord address value).header c = h.header c := by
  have shape := fitted.shape
  have clear (c : Nat) (memberC : c ∈ last :: front) (different : c ≠ b) :
      c + 24 ≤ b ∨ h.blockNext b ≤ c := shape.clear member memberC different
  have word (x : Nat) (apart : x ≠ address) : (h.setWord address value).word x = h.word x :=
    Function.update_of_ne apart ..
  have kept (c : Nat) (memberC : c ∈ last :: front) :
      (h.setWord address value).header c = h.header c := by
    refine congrArg BlockHeader.ofWord (word c ?_)
    unfold headerToPayload BlockHeader.bytes at behind
    by_cases same : c = b
    · omega
    · have := clear c memberC same
      omega
  have view : View (h.setWord address value) (last :: front) nodes h.header := by
    refine ⟨fitted.linked.frame rfl fun p listed => ?_, fitted.view.among, kept⟩
    obtain ⟨c, memberC, free, rfl⟩ := (shape.free p).mp listed
    have different : c ≠ b := fun same => used (same ▸ free)
    have away := clear c memberC different
    unfold headerToPayload BlockHeader.bytes at behind ⊢
    have next : (h.setWord address value).word (c + 8) = h.word (c + 8) := word _ (by omega)
    have prev : (h.setWord address value).word (c + 8 + 8) = h.word (c + 8 + 8) :=
      word _ (by omega)
    change (⟨pointer ((h.setWord address value).word (c + 8)),
      pointer ((h.setWord address value).word (c + 8 + 8))⟩ : Node Nat) = _
    rw [next, prev]
    rfl
  exact ⟨fitted.of_view ⟨rfl, rfl, rfl⟩ view (fun _ => id) shape fitted.separate, kept⟩

/-- A clean call keeps the heap in order. -/
theorem Orderly.step (orderly : Orderly u) (clean : Clean u call) (stepped : u.Steps call next) :
    Orderly next := by
  obtain ⟨front, last, nodes, fitted, live⟩ := orderly
  unfold Use.Steps Use.step at stepped
  split_ifs at stepped with allowed
  obtain rfl := Option.some.inj stepped
  cases call with
  | kmalloc size granted =>
    obtain ⟨sized, bounded⟩ := allowed
    have small : size < 2 ^ 32 := Nat.lt_of_le_of_lt bounded (by decide)
    rcases fitted.kmalloc_cases sized small clean with
      failed | ⟨b, front', last', nodes', ptr, fitted', served⟩
    · refine ⟨front, last, nodes, ?_, ?_⟩
      · simp only [Use.apply, failed]
        exact fitted
      · simp only [Use.apply, failed, if_true]
        exact live
    · refine ⟨front', last', nodes', fitted', fun p n holds => ?_⟩
      have nonzero : headerToPayload b ≠ 0 := Nat.succ_ne_zero _
      simp only [Use.apply, ptr, if_neg nonzero] at holds ⊢
      by_cases fresh : p = headerToPayload b
      · subst fresh
        rw [Function.update_self] at holds
        obtain rfl := Option.some.inj holds
        exact ⟨b, served.member', rfl, served.used, served.large⟩
      · rw [Function.update_of_ne fresh] at holds
        obtain ⟨c, member, rfl, used, large⟩ := live p n holds
        have different : c ≠ b := fun same => fresh (congrArg headerToPayload same)
        obtain ⟨member', same⟩ := served.others c member different
        refine ⟨c, member', rfl, by rwa [same], ?_⟩
        rw [total, same]
        exact large
  | kfree ptr =>
    obtain ⟨n, holds⟩ := Option.isSome_iff_exists.mp allowed
    obtain ⟨b, member, rfl, used, -⟩ := live ptr n holds
    obtain ⟨front', last', nodes', fitted', released⟩ := fitted.kfree member used clean
    refine ⟨front', last', nodes', fitted', fun p m holds' => ?_⟩
    simp only [Use.apply] at holds' ⊢
    by_cases freed : p = headerToPayload b
    · rw [freed, Function.update_self] at holds'
      cases holds'
    · rw [Function.update_of_ne freed] at holds'
      obtain ⟨c, memberC, rfl, usedC, large⟩ := live p m holds'
      have different : c ≠ b := fun same => freed (congrArg headerToPayload same)
      obtain ⟨member', same⟩ := released.others c memberC usedC different
      refine ⟨c, member', rfl, by rwa [same], ?_⟩
      rw [total, same]
      exact large
  | store ptr offset value =>
    obtain ⟨n, holds, inside⟩ := allowed
    obtain ⟨b, member, rfl, used, large⟩ := live ptr n holds
    have rounded := le_alignUp n
    obtain ⟨fitted', kept⟩ := fitted.store (headerToPayload b + 8 * offset) value
      member used (Nat.le_add_right _ _) (by
        simp only [blockNext, headerToPayload, blockTotal, BlockHeader.bytes] at *
        omega)
    refine ⟨front, last, nodes, fitted', fun p m holds' => ?_⟩
    obtain ⟨c, memberC, rfl, usedC, largeC⟩ := live p m holds'
    have same := kept c memberC
    refine ⟨c, memberC, rfl, ?_, ?_⟩
    · change ((u.heap.setWord _ _).header c).used ≠ 0
      rwa [same]
    · change _ ≤ (u.heap.setWord _ _).total c
      rw [total, same]
      exact largeC

theorem orderly_boot {word : Nat → Nat} {heapPages granted : Nat}
    (bootable : Bootable heapPages granted) : Orderly (boot word heapPages granted) :=
  ⟨[], heapBase, _, fitted_init bootable, nofun⟩

/-- In a run of clean calls the free blocks stay apart. -/
theorem coalesced_throughout {word : Nat → Nat} {heapPages granted : Nat}
    (bootable : Bootable heapPages granted) {taken : List (Transition Use Call)} {final : Use}
    (trace : Trace Use.Steps (boot word heapPages granted) taken final)
    (clean : Guarded Clean taken) :
    Throughout (fun u => u.heap.Coalesced) (boot word heapPages granted) taken := by
  have coalesced (u : Use) (orderly : Orderly u) : u.heap.Coalesced := by
    obtain ⟨front, last, nodes, fitted, -⟩ := orderly
    exact fitted.coalesced
  obtain ⟨initial, reached⟩ := trace.throughout_of_guarded Orderly (orderly_boot bootable)
    (fun _ _ _ orderly meets stepped => orderly.step meets stepped) clean
  exact ⟨coalesced _ initial, fun transition member => coalesced _ (reached transition member)⟩

theorem bootable_boot : Bootable 4096 4096 := ⟨by decide, by decide, by decide⟩

/-- The first request is served from the heap of 16 MiB that the kernel boots with. -/
theorem coalesced_throughout_firstKmalloc :
    Throughout (fun u => u.heap.Coalesced) (boot (fun _ => 0) 4096 4096)
      [⟨boot (fun _ => 0) 4096 4096, Call.kmalloc 16 [],
        (boot (fun _ => 0) 4096 4096).apply (.kmalloc 16 [])⟩] := by
  have served : Use.Steps (boot (fun _ => 0) 4096 4096) (.kmalloc 16 [])
      ((boot (fun _ => 0) 4096 4096).apply (.kmalloc 16 [])) := if_pos (by decide)
  have clean : (init (fun _ => 0) 4096 4096).CleanMalloc 16 [] := by decide +kernel
  refine coalesced_throughout bootable_boot (Trace.nil.snoc served) fun transition member => ?_
  rw [List.mem_singleton.mp member]
  exact clean

/-- Three neighbours are freed in order: the first two are merged, and the size of the merged
block leads past the third one. -/
theorem kfree_leaves_neighbours :
    ∃ taken final, Trace Use.Steps (boot (fun _ => 0) 4096 4096) taken final ∧
      ¬ final.heap.Coalesced := by
  obtain ⟨⟨taken, final⟩, recorded, first, second, both⟩ :
      ∃ run ∈ record Use.step (boot (fun _ => 0) 4096 4096)
          [.kmalloc 16 [], .kmalloc 16 [], .kmalloc 16 [], .kfree (heapBase + 8),
            .kfree (heapBase + 32), .kfree (heapBase + 56)],
        run.2.heap.Listed (headerToPayload heapBase) ∧
        run.2.heap.Listed (headerToPayload (heapBase + 48)) ∧
        run.2.heap.Touching heapBase (heapBase + 48) := by
    decide +kernel
  exact ⟨taken, final, trace_of_record recorded,
    fun coalesced => coalesced.apart _ _ first second both⟩

end Runs

section Soundness

/-- What the heap is meant to keep: the blocks tile it, the list is that of the free blocks,
and the payloads of live pointers are apart, aligned and large enough. -/
structure Sound (u : Use) : Prop where
  blocks : ∃ bs nodes, Tiles u.heap.total u.heap.stop u.heap.start bs ∧
    u.heap.list.Linked nodes ∧
    (∀ p, p ∈ nodes ↔ ∃ b ∈ bs, (u.heap.header b).used = 0 ∧ p = headerToPayload b) ∧
    ∀ ptr, ∀ size ∈ u.live ptr, ∃ b ∈ bs, ptr = headerToPayload b ∧
      size + BlockHeader.bytes ≤ u.heap.total b
  apart : ∀ p q, ∀ n ∈ u.live p, ∀ m ∈ u.live q, p ≠ q → p + n ≤ q ∨ q + m ≤ p
  aligned : ∀ ptr, (u.live ptr).isSome → ptr % minAlign = 0

/-- The last block of a fitted heap claims more than the heap has, so nothing tiles it. -/
theorem Orderly.not_sound {u : Use} (orderly : Orderly u) : ¬ Sound u := by
  intro sound
  obtain ⟨front, last, nodes, fitted, -⟩ := orderly
  obtain ⟨bs, -, tiles, -⟩ := sound.blocks
  have room := fitted.shape.room
  have crosses := fitted.shape.crosses
  obtain ⟨rest, tail⟩ := tiles.of_shorter fitted.shape.tiles (by omega)
  cases rest with
  | nil =>
    have ended : last = u.heap.stop := tail
    omega
  | cons b others =>
    obtain ⟨rfl, later⟩ := tail
    have bound : b + u.heap.total b ≤ u.heap.stop := later.start_le
    exact absurd bound (Nat.not_le_of_lt crosses)

/-- No run keeps the heap sound: its first state is not, and as long as the calls are clean no
other one is. -/
theorem never_sound {word : Nat → Nat} {heapPages granted : Nat}
    (bootable : Bootable heapPages granted) {taken : List (Transition Use Call)} {final : Use}
    (trace : Trace Use.Steps (boot word heapPages granted) taken final) :
    ¬ Throughout Sound (boot word heapPages granted) taken ∧
      (Guarded Clean taken → Throughout (fun u => ¬ Sound u) (boot word heapPages granted) taken)
    := by
  have orderly : Orderly (boot word heapPages granted) := orderly_boot bootable
  have initial := orderly.not_sound
  refine ⟨fun sound => initial sound.1, fun clean => ?_⟩
  obtain ⟨-, reached⟩ := trace.throughout_of_guarded Orderly (orderly_boot bootable)
    (fun _ _ _ orderly meets stepped => orderly.step meets stepped) clean
  exact ⟨initial, fun transition member => (reached transition member).not_sound⟩

/-- The heap of 16 MiB that the kernel boots with, before the first call. -/
theorem never_sound_boot :
    ¬ Throughout Sound (boot (fun _ => 0) 4096 4096) ([] : List (Transition Use Call)) ∧
      (Guarded Clean ([] : List (Transition Use Call)) →
        Throughout (fun u => ¬ Sound u) (boot (fun _ => 0) 4096 4096)
          ([] : List (Transition Use Call))) :=
  never_sound bootable_boot Trace.nil

/-- Blocks of 100 and 64 bytes are allocated, the first is freed and its room given out again in
pieces of 16, 16 and 80 bytes: the last piece lies over the start of the 64 bytes. -/
theorem kmalloc_overlaps_live :
    ∃ taken final, Trace Use.Steps (boot (fun _ => 0) 4096 4096) taken final ∧
      ¬ Sound final := by
  obtain ⟨⟨taken, final⟩, recorded, first, second⟩ :
      ∃ run ∈ record Use.step (boot (fun _ => 0) 4096 4096)
          [.kmalloc 100 [], .kmalloc 64 [], .kfree (heapBase + 8), .kmalloc 16 [], .kmalloc 16 [],
            .kmalloc 80 []],
        run.2.live (heapBase + 56) = some 80 ∧
        run.2.live (heapBase + 128) = some 64 := by
    decide +kernel
  refine ⟨taken, final, trace_of_record recorded, fun sound => ?_⟩
  rcases sound.apart _ _ 80 first 64 second (by decide) with before | before
  · exact absurd before (by decide)
  · exact absurd before (by decide)

end Soundness

end DBSos.Heap
