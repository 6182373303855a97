import DBSos.Elf.Safety

/-!
# What a loaded program reads

The bytes of a segment's pages, in the new address space, once the load has succeeded. A
page that is mapped keeps its bytes as long as no later page is mapped over it: what is
filled later are later pages.
-/

namespace DBSos.Elf

open DBSos.Lib DBSos.Lib.Audit

variable {α β : Type} {env : Env} {file : List UInt8} {m m' m'' : Machine}

/-- The byte at an address of a segment: file data, then zeros. -/
def segmentByte (file : List UInt8) (ph : Elf64Phdr) (addr : Nat) : UInt8 :=
  if addr - ph.vaddr < ph.filesz then bytesOf file (ph.offset + (addr - ph.vaddr)) else 0

/-- The pages of a segment. -/
def Elf64Phdr.Has (ph : Elf64Phdr) (page : Nat) : Prop :=
  ph.firstPage ≤ page ∧ page < ph.firstPage + ph.pages

/-- A segment that starts on a page, ends in the user half and has room for its data. -/
structure Placed (ph : Elf64Phdr) : Prop where
  aligned : pageSize ∣ ph.vaddr
  userHalf : ph.memsz = 0 ∨ ph.vaddr + ph.memsz ≤ userEnd
  room : ph.filesz ≤ ph.pages * pageSize

/-- No page belongs to two segments. -/
def Apart (a b : Elf64Phdr) : Prop := ∀ page, ¬ (a.Has page ∧ b.Has page)

/-- All pages of a segment read as its bytes. -/
def Shown (file : List UInt8) (ph : Elf64Phdr) (m : Machine) : Prop :=
  ∀ addr, ph.Has (addr / pageSize) → m.read addr = some (segmentByte file ph addr)

theorem Placed.narrow {ph : Elf64Phdr} (placed : Placed ph) {page : Nat} (has : ph.Has page) :
    page < 2 ^ 36 := by
  obtain ⟨k, start⟩ := placed.aligned
  have above := has.1
  have below := has.2
  have half := placed.userHalf
  simp only [Elf64Phdr.pages, Elf64Phdr.firstPage, pageSize, userEnd] at start above below half
  omega

theorem Placed.memsz_le {ph : Elf64Phdr} (placed : Placed ph) :
    ph.memsz ≤ ph.pages * pageSize := by
  obtain ⟨k, start⟩ := placed.aligned
  simp only [Elf64Phdr.pages, pageSize] at start ⊢
  omega

theorem slot_eq {addr : Nat} (narrow : addr / pageSize < 2 ^ 36) : slot addr = addr / pageSize :=
  Nat.mod_eq_of_lt narrow

/-- What a mapped page holds is among the pages granted. -/
def Bounded (m : Machine) : Prop := ∀ i entry, m.space i = some entry → entry.page < m.pages

/-- Later states keep the pages granted and, but for some of them, the entries. -/
structure Keeps (touched : Nat → Prop) (m m' : Machine) : Prop where
  space : ∀ page, ¬ touched page → m'.space page = m.space page
  mem : ∀ i < m.pages * pageSize, m'.mem i = m.mem i
  pages : m.pages ≤ m'.pages
  bounded : Bounded m → Bounded m'

namespace Keeps

variable {touched : Nat → Prop}

theorem refl (m : Machine) : Keeps touched m m where
  space _ _ := rfl
  mem _ _ := rfl
  pages := Nat.le_refl _
  bounded := id

theorem trans (first : Keeps touched m m') (second : Keeps touched m' m'') :
    Keeps touched m m'' where
  space page untouched := (second.space page untouched).trans (first.space page untouched)
  mem i below := by
    have later := Nat.lt_of_lt_of_le below (Nat.mul_le_mul_right pageSize first.pages)
    exact (second.mem i later).trans (first.mem i below)
  pages := first.pages.trans second.pages
  bounded := second.bounded ∘ first.bounded

theorem mono {wider : Nat → Prop} (allowed : ∀ page, touched page → wider page)
    (keeps : Keeps touched m m') : Keeps wider m m' :=
  { keeps with space := fun page untouched => keeps.space page (untouched ∘ allowed page) }

/-- New entries hold pages that are granted. -/
theorem of_entries (mem : ∀ i < m.pages * pageSize, m'.mem i = m.mem i)
    (pages : m.pages ≤ m'.pages) (entries : ∀ page, m'.space page = m.space page ∨
      touched page ∧ ∃ entry, m'.space page = some entry ∧ entry.page < m'.pages) :
    Keeps touched m m' where
  space page untouched := (entries page).resolve_right (untouched ·.1)
  mem := mem
  pages := pages
  bounded bounded page entry found := by
    rcases entries page with same | ⟨-, other, new, below⟩
    · rw [same] at found
      exact Nat.lt_of_lt_of_le (bounded page entry found) pages
    · rw [new] at found
      cases found
      exact below

theorem read (keeps : Keeps touched m m') (bounded : Bounded m) {addr : Nat}
    (untouched : ¬ touched (slot addr)) : m'.read addr = m.read addr := by
  rw [Machine.read, Machine.read, keeps.space _ untouched]
  cases found : m.space (slot addr) with
  | none => rfl
  | some entry =>
    have inside := bounded _ entry found
    rw [Option.map_some, Option.map_some, keeps.mem]
    simp only [pageSize] at inside ⊢
    omega

theorem shown (keeps : Keeps touched m m') (bounded : Bounded m) {ph : Elf64Phdr}
    (placed : Placed ph) (apart : ∀ page, touched page → ¬ ph.Has page)
    (shown : Shown file ph m) : Shown file ph m' := by
  intro addr has
  rw [keeps.read bounded fun isTouched => apart _ isTouched ?_]
  · exact shown addr has
  · rwa [slot_eq (placed.narrow has)]

end Keeps

/-! ## Steps -/

theorem ends_add64 {a b : Nat} {post : Nat → Machine → Prop} (holds : post (a + b) m) :
    Ends (add64 a b) m post := ends_ite (fun _ => ends_pure holds) fun _ => ends_bind nofun

theorem ends_sub64 {a b : Nat} {post : Nat → Machine → Prop} (holds : post (a - b) m) :
    Ends (sub64 a b) m post := ends_ite (fun _ => ends_pure holds) fun _ => ends_bind nofun

theorem ends_pallocN {n : Nat} {post : Option Nat → Machine → Prop}
    (granted : post (some m.pages) (m.take n))
    (refused : post none { m with allocs := m.allocs + 1 }) : Ends (pallocN env n) m post :=
  ends_bind <| ends_get <| ends_bind <| ends_modify <|
    ends_ite (fun _ => ends_bind <| ends_modify <| ends_pure granted) fun _ => ends_pure refused

theorem ends_pallocOr {n : Nat} {message : String} {post : Nat → Machine → Prop}
    (granted : post m.pages (m.take n)) : Ends (pallocOr env n message) m post :=
  ends_bind <| ends_pallocN (ends_pure granted) ends_stop

theorem ends_fetch {off len : Nat} {post : List UInt8 → Machine → Prop}
    (holds : post ((bytesOf file).slice off len) m) : Ends (fetch file off len) m post :=
  ends_bind <| ends_ensure <| ends_pure holds

theorem ends_fill {first count off : Nat} {bytes : List UInt8} {post : Unit → Machine → Prop}
    (holds : post () { m with mem := m.mem.put (first * pageSize + off) bytes }) :
    Ends (fill first count off bytes) m post := ends_bind <| ends_ensure <| ends_modify holds

/-- The machine behind a page that has been mapped. -/
def Machine.map (m : Machine) (page virt : Nat) (flags : BitVec 64) : Machine :=
  { m with
    maps := m.maps + 1
    space := Function.update m.space (slot virt) (some ⟨page, flags⟩) }

section Fields

variable (page virt n : Nat) (flags : BitVec 64)

@[simp] theorem Machine.map_space : (m.map page virt flags).space =
    Function.update m.space (slot virt) (some ⟨page, flags⟩) := rfl

@[simp] theorem Machine.map_mem : (m.map page virt flags).mem = m.mem := rfl

@[simp] theorem Machine.map_pages : (m.map page virt flags).pages = m.pages := rfl

@[simp] theorem Machine.take_space : (m.take n).space = m.space := rfl

@[simp] theorem Machine.take_mem : (m.take n).mem = m.mem := rfl

@[simp] theorem Machine.take_pages : (m.take n).pages = m.pages + n := rfl

end Fields

theorem ends_mapPage {page virt : Nat} {flags : BitVec 64} {post : Bool → Machine → Prop}
    (mapped : post true (m.map page virt flags))
    (failed : post false { m with maps := m.maps + 1 }) :
    Ends (mapPage env page virt flags) m post :=
  ends_bind <| ends_ensure <| ends_bind <| ends_get <| ends_bind <| ends_modify <|
    ends_ite (fun _ => ends_bind <| ends_modify <| ends_pure mapped) fun _ => ends_pure failed

/-- A run of pages is mapped to a run of virtual pages. -/
theorem ends_mapRun {first virt count : Nat} {flags : BitVec 64} {message : String}
    (narrow : virt / pageSize + count ≤ 2 ^ 36) :
    Ends (mapRun env first virt flags message count) m fun _ m' =>
      m'.mem = m.mem ∧ m'.pages = m.pages ∧ ∀ page, m'.space page =
        if virt / pageSize ≤ page ∧ page < virt / pageSize + count then
          some ⟨first + (page - virt / pageSize), flags⟩
        else m.space page := by
  induction count with
  | zero =>
    refine ends_pure ⟨rfl, rfl, fun page => ?_⟩
    rw [if_neg (by omega)]
  | succ count ih =>
    refine ends_bind (ends_mono (ih (by omega)) fun _ m' earlier => ?_)
    obtain ⟨mem, pages, space⟩ := earlier
    refine ends_bind <| ends_mapPage (ends_pure ⟨mem, pages, fun page => ?_⟩) ends_stop
    have place : slot (virt + count * pageSize) = virt / pageSize + count := by
      simp only [slot, pageSize] at narrow ⊢
      omega
    rw [Machine.map_space, place, Function.update_apply, space]
    by_cases last : page = virt / pageSize + count
    · subst last
      rw [if_pos rfl, if_pos (by omega), Nat.add_sub_cancel_left]
    · rw [if_neg last]
      exact if_congr (by omega) rfl rfl

theorem slice_getElem {buf : Buffer} {off len i : Nat} (inside : i < (buf.slice off len).length) :
    (buf.slice off len)[i] = buf (off + i) := by simp [Buffer.slice]

theorem put_slice (buf data : Buffer) (off from' len i : Nat) :
    buf.put off (data.slice from' len) i =
      if off ≤ i ∧ i < off + len then data (from' + (i - off)) else buf i := by
  by_cases inside : off ≤ i ∧ i < off + len
  · obtain ⟨k, rfl⟩ := Nat.exists_eq_add_of_le inside.1
    have within : k < (data.slice from' len).length := by
      rw [Buffer.length_slice]
      omega
    rw [if_pos inside, Buffer.put_inside buf off within, slice_getElem, Nat.add_sub_cancel_left]
  · rw [if_neg inside, Buffer.put_outside buf (by rw [Buffer.length_slice]; omega)]

theorem put_zeros (buf : Buffer) (off len i : Nat) :
    buf.put off (List.replicate len 0) i = if off ≤ i ∧ i < off + len then 0 else buf i := by
  by_cases inside : off ≤ i ∧ i < off + len
  · obtain ⟨k, rfl⟩ := Nat.exists_eq_add_of_le inside.1
    have within : k < (List.replicate len (0 : UInt8)).length := by
      rw [List.length_replicate]
      omega
    rw [if_pos inside, Buffer.put_inside buf off within, List.getElem_replicate]
  · rw [if_neg inside, Buffer.put_outside buf (by rw [List.length_replicate]; omega)]

/-- The first pages of a segment have been granted in a row, filled and mapped. -/
structure Filled (file : List UInt8) (ph : Elf64Phdr) (flags : BitVec 64) (count : Nat)
    (m m' : Machine) : Prop where
  pages : m'.pages = m.pages + count
  mem : ∀ i < m.pages * pageSize, m'.mem i = m.mem i
  bytes : ∀ i < count * pageSize,
    m'.mem (m.pages * pageSize + i) = segmentByte file ph (ph.vaddr + i)
  space : ∀ page, m'.space page =
    if ph.firstPage ≤ page ∧ page < ph.firstPage + count then
      some ⟨m.pages + (page - ph.firstPage), flags⟩
    else m.space page

namespace Filled

variable {ph : Elf64Phdr} {flags : BitVec 64}

theorem shown (filled : Filled file ph flags ph.pages m m') (placed : Placed ph) :
    Shown file ph m' := by
  intro addr has
  have start : ph.vaddr = ph.firstPage * pageSize := (Nat.div_mul_cancel placed.aligned).symm
  have above : ph.vaddr ≤ addr := by
    have page := has.1
    simp only [pageSize] at page start ⊢
    omega
  have inside : addr - ph.vaddr < ph.pages * pageSize := by
    have below := has.2
    simp only [pageSize] at below start ⊢
    omega
  have place : (m.pages + (addr / pageSize - ph.firstPage)) * pageSize + addr % pageSize =
      m.pages * pageSize + (addr - ph.vaddr) := by
    have page := has.1
    simp only [pageSize] at page start ⊢
    omega
  rw [Machine.read, slot_eq (placed.narrow has), filled.space, if_pos ⟨has.1, has.2⟩, Option.map_some]
  dsimp only
  rw [place, filled.bytes _ inside, Nat.add_sub_cancel' above]

theorem keeps (filled : Filled file ph flags ph.pages m m') : Keeps ph.Has m m' where
  space page untouched := (filled.space page).trans (if_neg untouched)
  mem := filled.mem
  pages := by
    rw [filled.pages]
    exact Nat.le_add_right _ _
  bounded bounded page entry found := by
    rw [filled.space] at found
    rw [filled.pages]
    split_ifs at found with inside
    · cases found
      dsimp only
      omega
    · exact Nat.lt_add_right _ (bounded page entry found)

end Filled

/-- Loading segments apart from each other, one after another. -/
theorem ends_segments {body : β → Elf64Phdr → Load β} {flags : Elf64Phdr → BitVec 64}
    {isLoaded learned : Elf64Phdr → Prop} [DecidablePred isLoaded] (list : List Elf64Phdr)
    (each : ∀ ph ∈ list, isLoaded ph → Placed ph ∧ ∀ acc m,
      Ends (body acc ph) m fun _ m' => Filled file ph (flags ph) ph.pages m m' ∧ learned ph)
    (skipped : ∀ ph, ¬ isLoaded ph → ∀ acc, body acc ph = pure acc)
    (apart : (list.filter isLoaded).Pairwise Apart) (acc : β) (bounded : Bounded m) :
    Ends (list.foldlM body acc) m fun _ m' =>
      Keeps (fun page => ∃ ph ∈ list.filter isLoaded, ph.Has page) m m' ∧
      ∀ ph ∈ list.filter isLoaded, Shown file ph m' ∧ learned ph := by
  induction list generalizing acc m with
  | nil => exact ends_pure ⟨.refl m, nofun⟩
  | cons ph rest ih =>
    obtain ⟨first, others⟩ := List.forall_mem_cons.mp each
    rw [List.foldlM_cons]
    by_cases loaded : isLoaded ph
    · rw [List.filter_cons_of_pos (by simpa using loaded)] at apart ⊢
      obtain ⟨fromFirst, later⟩ := List.pairwise_cons.mp apart
      obtain ⟨placed, fills⟩ := first loaded
      refine ends_bind (ends_mono (fills acc m) fun acc m' ⟨filled, known⟩ => ?_)
      have still := filled.keeps.bounded bounded
      refine ends_mono (ih others later acc still) fun _ m'' ⟨keeps, rests⟩ =>
        ⟨?_, List.forall_mem_cons.mpr ⟨⟨?_, known⟩, rests⟩⟩
      · refine (filled.keeps.mono fun page has => ?_).trans
          (keeps.mono fun page ⟨other, member, has⟩ => ?_)
        · exact ⟨ph, .head _, has⟩
        · exact ⟨other, .tail _ member, has⟩
      · exact keeps.shown still placed
          (fun page ⟨other, member, has⟩ own => fromFirst other member page ⟨own, has⟩)
          (filled.shown placed)
    · rw [List.filter_cons_of_neg (by simpa using loaded)] at apart ⊢
      rw [skipped ph loaded acc]
      exact ends_bind (ends_pure (ih others apart acc bounded))

namespace Native

theorem ends_copyPage {ph : Elf64Phdr} {page rel : Nat} :
    Ends (copyPage file ph page rel) m fun _ m' => m'.pages = m.pages ∧ m'.space = m.space ∧
      ∀ i, m'.mem i =
        if page * pageSize ≤ i ∧ i < page * pageSize + min (ph.filesz - rel) pageSize then
          bytesOf file (ph.offset + rel + (i - page * pageSize))
        else m.mem i := by
  refine ends_ite (fun more => ends_bind <| ends_fetch <| ends_fill ⟨rfl, rfl, fun i => ?_⟩)
    fun none => ends_pure ⟨rfl, rfl, fun i => ?_⟩
  · dsimp only
    rw [Nat.add_zero, put_slice]
  · rw [if_neg]
    simp only [pageSize]
    omega

theorem ends_zeroRest {ph : Elf64Phdr} {page rel : Nat} :
    Ends (zeroRest ph page rel) m fun _ m' => m'.pages = m.pages ∧ m'.space = m.space ∧
      ∀ i, m'.mem i =
        if page * pageSize + (max rel ph.filesz - rel) ≤ i ∧
            i < page * pageSize + (min (rel + pageSize) ph.memsz - rel) then 0
        else m.mem i := by
  have low : (if ph.filesz ≤ rel then rel else ph.filesz) = max rel ph.filesz := by
    split_ifs <;> omega
  unfold zeroRest
  simp only [low]
  refine ends_ite (fun more => ends_fill ⟨rfl, rfl, fun i => ?_⟩)
    fun none => ends_pure ⟨rfl, rfl, fun i => ?_⟩
  · refine (put_zeros m.mem _ _ i).trans (if_congr ?_ rfl rfl)
    simp only [pageSize]
    omega
  · rw [if_neg]
    simp only [pageSize]
    omega

/-- A segment whose data or zeros end with its last page. -/
structure FillsPages (ph : Elf64Phdr) : Prop extends Placed ph where
  full : ph.filesz = ph.pages * pageSize ∨ ph.memsz = ph.pages * pageSize

/-- The copy and the zeros of one page, together. -/
theorem page_bytes {buf data : Buffer} {off filesz memsz rel top start i : Nat}
    (full : filesz = top ∨ memsz = top) (next : rel + pageSize ≤ top) :
    (if start + (max rel filesz - rel) ≤ i ∧ i < start + (min (rel + pageSize) memsz - rel) then 0
      else if start ≤ i ∧ i < start + min (filesz - rel) pageSize then
        data (off + rel + (i - start))
      else buf i) =
    if start ≤ i ∧ i < start + pageSize then
      if rel + (i - start) < filesz then data (off + (rel + (i - start))) else 0
    else buf i := by
  simp only [pageSize] at next ⊢
  rw [Nat.add_assoc off]
  split_ifs <;> first | rfl | omega

/-- One page is granted, filled with the bytes of the segment and mapped. -/
theorem ends_loadPage {ph : Elf64Phdr} (fills : FillsPages ph) {p : Nat} (inside : p < ph.pages) :
    Ends (loadPage env file ph p) m fun _ m' => m'.pages = m.pages + 1 ∧
      (∀ page, m'.space page =
        if page = ph.firstPage + p then some ⟨m.pages, flagsOf ph⟩ else m.space page) ∧
      ∀ i, m'.mem i =
        if m.pages * pageSize ≤ i ∧ i < m.pages * pageSize + pageSize then
          segmentByte file ph (ph.vaddr + (p * pageSize + (i - m.pages * pageSize)))
        else m.mem i := by
  have rel : pageDown ph.vaddr + p * 0x1000 - ph.vaddr = p * 0x1000 := by
    obtain ⟨k, start⟩ := fills.aligned
    simp only [pageDown, pageSize] at start ⊢
    omega
  have place : slot (pageDown ph.vaddr + p * 0x1000) = ph.firstPage + p := by
    have narrow := fills.narrow ⟨Nat.le_add_right _ p, Nat.add_lt_add_left inside _⟩
    simp only [slot, pageDown, Elf64Phdr.firstPage, pageSize] at narrow ⊢
    omega
  refine ends_bind <| ends_pallocOr <| ends_bind <| ends_mapPage ?_ ends_stop
  refine ends_bind <| ends_sub64 <| ends_bind <| ends_mono ends_copyPage fun _ m1 copied => ?_
  refine ends_mono ends_zeroRest fun _ m2 zeroed => ?_
  obtain ⟨pages1, space1, mem1⟩ := copied
  obtain ⟨pages2, space2, mem2⟩ := zeroed
  refine ⟨?_, fun page => ?_, fun i => ?_⟩
  · rw [pages2, pages1, Machine.map_pages, Machine.take_pages]
  · rw [space2, space1, Machine.map_space, Machine.take_space, place, Function.update_apply]
  · have next : p * pageSize + pageSize ≤ ph.pages * pageSize := by
      rw [← Nat.succ_mul]
      exact Nat.mul_le_mul_right pageSize inside
    rw [mem2, mem1, rel, segmentByte, Nat.add_sub_cancel_left, Machine.map_mem, Machine.take_mem]
    exact page_bytes fills.full next

theorem ends_loadPages {ph : Elf64Phdr} (fills : FillsPages ph) {count : Nat}
    (inside : count ≤ ph.pages) :
    Ends (loadPages env file ph count) m fun _ m' =>
      Filled file ph (flagsOf ph) count m m' := by
  induction count with
  | zero =>
    refine ends_pure ⟨rfl, fun _ _ => rfl, fun i below => ?_, fun page => ?_⟩
    · omega
    · rw [if_neg (by omega)]
  | succ count ih =>
    refine ends_bind (ends_mono (ih (by omega)) fun _ m1 earlier => ?_)
    refine ends_mono (ends_loadPage fills (by omega)) fun _ m2 last => ?_
    obtain ⟨pages, space, mem⟩ := last
    rw [earlier.pages] at pages space mem
    constructor
    · rw [pages, Nat.add_assoc]
    · intro i below
      rw [mem, if_neg, earlier.mem i below]
      simp only [pageSize] at below ⊢
      omega
    · intro i below
      rw [mem]
      rw [Nat.succ_mul] at below
      rw [Nat.add_mul m.pages]
      by_cases last : count * pageSize ≤ i
      · rw [if_pos ⟨Nat.add_le_add_left last _, by omega⟩]
        congr 2
        omega
      · rw [if_neg fun own => last (Nat.le_of_add_le_add_left own.1)]
        exact earlier.bytes i (Nat.lt_of_not_le last)
    · intro page
      rw [space, earlier.space]
      by_cases here : page = ph.firstPage + count
      · subst here
        rw [if_pos rfl, if_pos (by omega), Nat.add_sub_cancel_left]
      · rw [if_neg here]
        exact if_congr (by omega) rfl rfl

theorem ends_loadSegment {ph : Elf64Phdr} (fills : FillsPages ph) (isLoad : ph.type = ptLoad) :
    Ends (loadSegment env file ph) m fun _ m' => Filled file ph (flagsOf ph) ph.pages m m' ∧
      ph.offset + ph.filesz ≤ file.length := by
  unfold loadSegment
  rw [if_neg (not_not.mpr isLoad)]
  refine ends_ite (fun _ => ends_stop) fun inFile => ends_ite (fun _ => ends_stop) fun _ => ?_
  refine ends_bind <| ends_add64 <| ends_bind <| ends_add64 ?_
  rw [span_eq]
  exact ends_mono (ends_loadPages fills (Nat.le_refl _)) fun _ _ filled => ⟨filled, by omega⟩

/-- The segments of the file fill their pages, and share none. -/
structure Laid (file : List UInt8) : Prop where
  fill : ∀ ph ∈ loads file, FillsPages ph
  apart : (loads file).Pairwise Apart

theorem ends_allocFrame : Ends (allocFrame env) m fun frame m' =>
    m'.space = m.space ∧ frame.stack < m'.pages := by
  refine ends_bind <| ends_pallocN (ends_bind <| ends_pallocN (ends_bind <| ends_pallocN
    (ends_bind <| ends_pallocN (ends_pure ⟨rfl, ?_⟩) ?_) ?_) ?_) ends_stop
  · simp only [Machine.take_pages]
    omega
  all_goals
    dsimp only
    repeat refine ends_bind (ends_modify ?_)
    exact ends_stop

theorem ends_loadSegments (laid : Laid file) (bounded : Bounded m) :
    Ends ((programHeaders file).foldlM (fun _ ph => loadSegment env file ph) ()) m fun _ m' =>
      ∀ ph ∈ loads file, Shown file ph m' ∧ ph.offset + ph.filesz ≤ file.length := by
  have each : ∀ ph ∈ programHeaders file, ph.type = ptLoad → Placed ph ∧ ∀ (_ : Unit) m,
      Ends (loadSegment env file ph) m fun _ m' =>
        Filled file ph (flagsOf ph) ph.pages m m' ∧ ph.offset + ph.filesz ≤ file.length := by
    intro ph member isLoad
    have fills := laid.fill ph (List.mem_filter.mpr ⟨member, decide_eq_true isLoad⟩)
    exact ⟨fills.toPlaced, fun _ m => ends_loadSegment fills isLoad⟩
  have skipped : ∀ ph : Elf64Phdr, ¬ ph.type = ptLoad → ∀ acc : Unit,
      loadSegment env file ph = pure acc := fun ph skip _ => if_pos skip
  exact ends_mono (ends_segments (programHeaders file) each skipped laid.apart () bounded)
    fun _ _ loaded => loaded.2

theorem ends_loadInto {frame : Frame} (laid : Laid file) (bounded : Bounded m)
    (granted : frame.stack < m.pages) : Ends (loadInto env file frame) m fun _ m' =>
      ∀ ph ∈ loads file, Shown file ph m' ∧ ph.offset + ph.filesz ≤ file.length := by
  refine ends_bind <| ends_bind <| ends_pallocOr <| ends_ite (fun _ => ends_pure ?_)
    fun _ => ends_stop
  refine ends_bind <| ends_mapPage (ends_bind ?_) ends_stop
  refine ends_mono (ends_loadSegments laid fun i entry found => ?_) fun _ m' loaded => ?_
  · rw [Machine.map_space, Function.update_apply] at found
    rw [Machine.map_pages, Machine.take_pages]
    split_ifs at found
    · cases found
      exact Nat.lt_succ_of_lt granted
    · exact Nat.lt_succ_of_lt (bounded i entry found)
  · unfold spawnUser
    cases env.spawned with
    | none => exact ends_stop
    | some id => exact ends_pure loaded

theorem ends_loadAndSpawn (laid : Laid file) : Ends (loadAndSpawn env file) env.start fun _ m' =>
    ∀ ph ∈ loads file, Shown file ph m' ∧ ph.offset + ph.filesz ≤ file.length := by
  unfold loadAndSpawn
  cases rejects file with
  | some message => exact ends_stop
  | none =>
    refine ends_bind (ends_mono ends_allocFrame fun frame m' ⟨space, granted⟩ => ?_)
    refine ends_loadInto laid (fun i entry found => ?_) granted
    rw [space] at found
    cases found

end Native

namespace Linux

/-- The data of a segment is copied from the start of its pages on. -/
theorem ends_copyData {ph : Elf64Phdr} {first count left written : Nat}
    (enough : ph.filesz ≤ written + left * 0x1000)
    (page : written < ph.filesz → written % 0x1000 = 0) :
    Ends (copyData file ph first count left written) m fun _ m' => m'.pages = m.pages ∧
      m'.space = m.space ∧ ∀ i, m'.mem i =
        if first * pageSize + written ≤ i ∧ i < first * pageSize + ph.filesz then
          bytesOf file (ph.offset + (i - first * pageSize))
        else m.mem i := by
  induction left generalizing written m with
  | zero =>
    refine ends_pure ⟨rfl, rfl, fun i => ?_⟩
    rw [if_neg (by omega)]
  | succ left ih =>
    refine ends_ite (fun more => ?_) fun none => ends_pure ⟨rfl, rfl, fun i => ?_⟩
    · have aligned := page more
      have next : written + min (ph.filesz - written) (0x1000 - written % 0x1000) =
          min ph.filesz (written + 0x1000) := by omega
      refine ends_bind <| ends_fetch <| ends_bind <| ends_fill ?_
      rw [Buffer.length_slice, next]
      refine ends_mono (ih (by omega) (by omega)) fun _ m' copied => ?_
      obtain ⟨pages, space, mem⟩ := copied
      refine ⟨pages, space, fun i => ?_⟩
      rw [mem]
      dsimp only
      rw [put_slice]
      generalize first * pageSize = start
      split_ifs <;> first | rfl | omega | (congr 1; omega)
    · rw [if_neg (by omega)]

theorem ends_copySegment {ph : Elf64Phdr} {first count : Nat}
    (inFile : ph.offset + ph.filesz ≤ file.length) :
    Ends (copySegment file ph first count) m fun _ m' => m'.pages = m.pages ∧
      m'.space = m.space ∧ ∀ i, m'.mem i =
        if first * pageSize ≤ i ∧ i < first * pageSize + ph.filesz then
          bytesOf file (ph.offset + (i - first * pageSize))
        else m.mem i := by
  refine ends_bind <| ends_add64 <| ends_ite (fun _ => ?_) fun outside => absurd inFile outside
  refine ends_mono (@ends_copyData file m ph first count ((ph.filesz + 0xFFF) / 0x1000) 0 (by omega)
    fun _ => rfl) fun _ m' ⟨pages, space, mem⟩ => ⟨pages, space, fun i => ?_⟩
  rw [mem, Nat.add_zero]

/-- Zeros, and the data copied over them. -/
theorem copied_bytes {buf data : Buffer} {start off filesz len i : Nat} (room : filesz ≤ len) :
    (if start ≤ i ∧ i < start + filesz then data (off + (i - start))
      else buf.put (start + 0) (List.replicate len 0) i) =
    if start ≤ i ∧ i < start + len then
      if i - start < filesz then data (off + (i - start)) else 0
    else buf i := by
  rw [put_zeros]
  split_ifs <;> first | rfl | omega

theorem ends_loadSegment {ph : Elf64Phdr} {acc : Loaded} (isLoaded : Loads ph)
    (placed : Placed ph) (inFile : ph.offset + ph.filesz ≤ file.length) :
    Ends (loadSegment env file acc ph) m fun _ m' =>
      Filled file ph (flagsOf ph) ph.pages m m' := by
  have some := pages_pos isLoaded.2
  have start : pageDown ph.vaddr / pageSize = ph.firstPage := by
    simp only [pageDown, Elf64Phdr.firstPage, pageSize]
    omega
  have narrow : pageDown ph.vaddr / pageSize + ph.pages ≤ 2 ^ 36 := by
    rw [start]
    have last : ph.firstPage + (ph.pages - 1) < 2 ^ 36 := placed.narrow ⟨by omega, by omega⟩
    omega
  rw [loadSegment, if_neg (not_not.mpr isLoaded.1), if_neg isLoaded.2]
  refine ends_bind <| ends_add64 <| ends_bind <| ends_add64 ?_
  rw [span_eq, if_neg (by omega)]
  refine ends_bind <| ends_pallocOr <| ends_bind <| ends_fill <| ends_bind ?_
  refine ends_mono (ends_copySegment inFile) fun _ m1 copied => ends_bind ?_
  obtain ⟨pages1, space1, mem1⟩ := copied
  refine ends_mono (ends_mapRun narrow) fun _ m2 mapped => ends_pure ?_
  obtain ⟨mem2, pages2, space2⟩ := mapped
  rw [start] at space2
  have mem (i : Nat) : m2.mem i =
      if m.pages * pageSize ≤ i ∧ i < m.pages * pageSize + ph.pages * pageSize then
        segmentByte file ph (ph.vaddr + (i - m.pages * pageSize))
      else m.mem i := by
    rw [mem2, mem1, segmentByte, Nat.add_sub_cancel_left]
    exact copied_bytes placed.room
  constructor
  · rw [pages2, pages1, Machine.take_pages]
  · intro i below
    rw [mem, if_neg fun own => Nat.not_lt.mpr own.1 below]
  · intro i below
    rw [mem, if_pos ⟨Nat.le_add_right _ _, Nat.add_lt_add_left below _⟩, Nat.add_sub_cancel_left]
  · intro page
    rw [space2, space1, Machine.take_space]

/-- The first page of the stack. -/
def stackBottom (seed : BitVec 64) : Nat :=
  (linuxStackTop - aslrNext seed * 0x1000 - stackPages * 0x1000) / pageSize

theorem ends_loadStack : Ends (loadStack env) m fun _ m' =>
    Keeps (fun page => stackBottom env.seed ≤ page ∧ page < stackBottom env.seed + stackPages)
      m m' := by
  have narrow : (linuxStackTop - aslrNext env.seed * 0x1000 - stackPages * 0x1000) / pageSize +
      stackPages ≤ 2 ^ 36 := by
    simp only [linuxStackTop, stackPages, pageSize]
    omega
  refine ends_bind <| ends_pallocOr <| ends_bind <| ends_fill <| ends_bind <| ends_sub64 ?_
  refine ends_bind <| ends_sub64 <| ends_bind ?_
  refine ends_mono (ends_mapRun narrow) fun _ m' mapped => ends_pure ?_
  obtain ⟨mem, pages, space⟩ := mapped
  refine .of_entries (fun i below => ?_) ?_ fun page => ?_
  · have outside := Nat.lt_add_right 0 below
    rw [mem]
    exact Buffer.put_outside _ (.inl outside)
  · rw [pages]
    exact Nat.le_add_right _ _
  · rw [space]
    by_cases own : stackBottom env.seed ≤ page ∧ page < stackBottom env.seed + stackPages
    · refine .inr ⟨own, _, if_pos own, ?_⟩
      rw [pages, Machine.take_pages]
      dsimp only
      have below := own.2
      unfold stackBottom at below
      omega
    · exact .inl (if_neg own)

/-- A page is granted, filled and mapped, unless that fails. -/
theorem keeps_page {virt : Nat} {flags : BitVec 64} {mem : Buffer}
    (kept : ∀ i < m.pages * pageSize, mem i = m.mem i) :
    Keeps (· = slot virt) m ({ m.take 1 with mem := mem }.map m.pages virt flags) := by
  refine .of_entries kept (Nat.le_succ _) fun page => ?_
  by_cases own : page = slot virt
  · subst own
    exact .inr ⟨rfl, _, Function.update_self .., Nat.lt_succ_self _⟩
  · exact .inl (Function.update_of_ne own ..)

theorem keeps_unmapped {touched : Nat → Prop} {mem : Buffer} {allocs maps pages : Nat}
    {held : List Nat} (kept : ∀ i < m.pages * pageSize, mem i = m.mem i)
    (more : m.pages ≤ pages) : Keeps touched m ⟨allocs, maps, pages, held, mem, m.space⟩ :=
  .of_entries kept more fun _ => .inl rfl

/-- What is written into a new page leaves those granted before. -/
theorem put_new {bytes zeros : List UInt8} {i : Nat} (below : i < m.pages * pageSize) :
    (m.mem.put (m.pages * pageSize + 0) zeros).put (m.pages * pageSize + 0) bytes i = m.mem i := by
  have outside := Nat.lt_add_right 0 below
  rw [Buffer.put_outside _ (.inl outside), Buffer.put_outside _ (.inl outside)]

/-- The interpreter's path is copied. -/
def Copied (file : List UInt8) (interp : Option (Nat × Nat)) : Prop :=
  ∃ path ∈ interp, (0 < path.2 ∧ path.2 < 256) ∧ path.1 + path.2 ≤ file.length

theorem ends_loadInterp {interp : Option (Nat × Nat)} :
    Ends (loadInterp env file interp) m fun _ m' =>
      Keeps (fun page => Copied file interp ∧ page = slot interpVirt) m m' := by
  rcases interp with - | ⟨offset, filesz⟩
  · exact ends_pure (.refl m)
  refine ends_ite (fun short => ?_) fun _ => ends_pure (.refl m)
  refine ends_bind <| ends_add64 <| ends_ite (fun inFile => ?_) fun _ => ends_pure (.refl m)
  have copied : Copied file (some (offset, filesz)) := ⟨_, rfl, short, inFile⟩
  refine ends_bind <| ends_pallocN ?_ <| ends_pure <|
    keeps_unmapped (fun _ _ => rfl) (Nat.le_refl _)
  refine ends_bind <| ends_fill <| ends_bind <| ends_fetch <| ends_bind <| ends_fill <| ends_bind ?_
  refine ends_mapPage ?_ ?_
  · exact ends_pure ((keeps_page fun i => put_new).mono fun page own => ⟨copied, own⟩)
  · exact ends_pure (keeps_unmapped (fun i => put_new) (Nat.le_succ _))

theorem ends_loadPhdrs {phoff phnum : Nat} : Ends (loadPhdrs env file phoff phnum) m fun _ m' =>
    Keeps (· = slot phdrVirt) m m' := by
  refine ends_bind <| ends_pallocN ?_ <| ends_pure <|
    keeps_unmapped (fun _ _ => rfl) (Nat.le_refl _)
  refine ends_bind <| ends_fill <| ends_ite (fun _ => ?_) fun _ => ends_bind nofun
  refine ends_bind <| ends_fetch <| ends_bind <| ends_fill <| ends_bind ?_
  refine ends_mapPage ?_ ?_
  · exact ends_pure (keeps_page fun i => put_new)
  · exact ends_pure (keeps_unmapped (fun i => put_new) (Nat.le_succ _))

theorem ends_walkHeaders {body : β → Elf64Phdr → Load β} {phoff phentsize left i : Nat} {acc : β}
    {post : β → Machine → Prop}
    (holds : Ends ((headersFrom file phoff phentsize left i).foldlM body acc) m post) :
    Ends (walkHeaders file phoff phentsize body left i acc) m post := by
  induction left generalizing i acc m with
  | zero => exact holds
  | succ left ih =>
    rw [headersFrom] at holds
    refine ends_bind <| ends_add64 <| ends_bind <| ends_add64 ?_
    split_ifs at holds ⊢
    · exact holds
    · rw [List.foldlM_cons] at holds
      exact ends_bind (ends_mono (ends_of_bind holds) fun acc m' rest => ih rest)

/-- The segments of the file. -/
def loads (file : List UInt8) : List Elf64Phdr :=
  (headers file).filter fun ph => ph.type = ptLoad

/-- The pages that are mapped behind those of the segments. -/
def Behind (seed : BitVec 64) (file : List UInt8) (page : Nat) : Prop :=
  (stackBottom seed ≤ page ∧ page < stackBottom seed + stackPages) ∨
    (Copied file (lastInterp (headers file)) ∧ page = slot interpVirt) ∨ page = slot phdrVirt

/-- The segments of the file are placed with their data, and share no page among them or
with what is mapped behind them. -/
structure Laid (seed : BitVec 64) (file : List UInt8) : Prop where
  empty : ∀ ph ∈ loads file, ph.memsz = 0 → ph.filesz = 0
  placed : ∀ ph ∈ loads file, ph.memsz ≠ 0 → Placed ph ∧ ph.offset + ph.filesz ≤ file.length
  apart : ((headers file).filter Loads).Pairwise Apart
  clear : ∀ ph ∈ loads file, ph.memsz ≠ 0 → ∀ page, Behind seed file page → ¬ ph.Has page

theorem ends_loadSegments (laid : Laid env.seed file) (bounded : Bounded m) :
    Ends ((headers file).foldlM (loadSegment env file) ⟨0, none⟩) m fun _ m' => Bounded m' ∧
      ∀ ph ∈ loads file, ph.memsz ≠ 0 →
        Shown file ph m' ∧ ph.offset + ph.filesz ≤ file.length := by
  have each : ∀ ph ∈ headers file, Loads ph → Placed ph ∧ ∀ acc m,
      Ends (loadSegment env file acc ph) m fun _ m' =>
        Filled file ph (flagsOf ph) ph.pages m m' ∧ ph.offset + ph.filesz ≤ file.length := by
    intro ph member isLoaded
    obtain ⟨placed, inFile⟩ := laid.placed ph
      (List.mem_filter.mpr ⟨member, decide_eq_true isLoaded.1⟩) isLoaded.2
    exact ⟨placed, fun _ m => ends_mono (ends_loadSegment isLoaded placed inFile)
      fun _ _ filled => ⟨filled, inFile⟩⟩
  have skipped : ∀ ph, ¬ Loads ph → ∀ acc, loadSegment env file acc ph = pure acc := by
    intro ph skip acc
    by_cases isLoad : ph.type = ptLoad
    · have empty : ph.memsz = 0 := by_contra fun some => skip ⟨isLoad, some⟩
      rw [loadSegment, if_neg (not_not.mpr isLoad), if_pos empty]
    · exact if_pos isLoad
  refine ends_mono (ends_segments (headers file) each skipped laid.apart ⟨0, none⟩ bounded)
    fun _ m' both => ⟨both.1.bounded bounded, fun ph member some => both.2 ph ?_⟩
  obtain ⟨met, isLoad⟩ := List.mem_filter.mp member
  exact List.mem_filter.mpr ⟨met, decide_eq_true ⟨of_decide_eq_true isLoad, some⟩⟩

theorem ends_loadInto {pml4 : Nat} (laid : Laid env.seed file) (bounded : Bounded m) :
    Ends (loadInto env file (Elf64Ehdr.parse file) (lastInterp (headers file)) pml4) m fun _ m' =>
      ∀ ph ∈ loads file, ph.memsz ≠ 0 →
        Shown file ph m' ∧ ph.offset + ph.filesz ≤ file.length := by
  refine ends_bind <| ends_walkHeaders ?_
  refine ends_mono (ends_loadSegments laid bounded) fun _ m1 ⟨bounded1, shown⟩ => ends_bind ?_
  refine ends_mono ends_loadStack fun _ m2 stack => ends_bind ?_
  refine ends_mono ends_loadInterp fun _ m3 interp => ends_bind <| ends_add64 <| ends_bind ?_
  refine ends_mono ends_loadPhdrs fun _ m4 phdrs => ends_pure fun ph member some => ?_
  have keeps : Keeps (Behind env.seed file) m1 m4 :=
    ((stack.mono fun _ => .inl).trans (interp.mono fun _ own => .inr (.inl own))).trans
      (phdrs.mono fun _ own => .inr (.inr own))
  obtain ⟨before, inFile⟩ := shown ph member some
  exact ⟨keeps.shown bounded1 (laid.placed ph member some).1 (laid.clear ph member some) before,
    inFile⟩

/-- The first loop changes nothing. -/
theorem ends_findInterp (list : List Elf64Phdr) (acc : Option (Nat × Nat)) :
    Ends (list.foldlM findInterp acc) m fun interp m' => m' = m ∧ interp = list.foldl
      (fun acc ph => if ph.type = ptInterp then some (ph.offset, ph.filesz) else acc) acc := by
  induction list generalizing acc with
  | nil => exact ends_pure ⟨rfl, rfl⟩
  | cons ph rest ih =>
    rw [List.foldlM_cons]
    exact ends_bind (ends_pure (ih _))

theorem ends_loadLinuxElf (laid : Laid env.seed file) :
    Ends (loadLinuxElf env file) env.start fun _ m' => ∀ ph ∈ loads file, ph.memsz ≠ 0 →
      Shown file ph m' ∧ ph.offset + ph.filesz ≤ file.length := by
  unfold loadLinuxElf
  cases rejects file with
  | some message => exact ends_stop
  | none =>
    refine ends_bind <| ends_walkHeaders ?_
    refine ends_mono (ends_findInterp _ none) fun interp m' ⟨same, found⟩ => ?_
    subst same found
    exact ends_bind <| ends_pallocOr <| ends_loadInto laid fun i entry mapped => by cases mapped

end Linux

/-! ## The loaded program -/

/-- A segment reads as its data, then zeros. -/
structure Shows (file : List UInt8) (ph : Elf64Phdr) (m : Machine) : Prop where
  data : ∀ i < ph.filesz,
    ∃ byte, file[ph.offset + i]? = some byte ∧ m.read (ph.vaddr + i) = some byte
  zeros : ∀ i, ph.filesz ≤ i → i < ph.memsz → m.read (ph.vaddr + i) = some 0

/-- The file is accepted with certain old contents of the pages. -/
def Accepts (load : Env → List UInt8 → Load α) (env : Env) (file : List UInt8) (old : Buffer)
    (m : Machine) : Prop :=
  ∃ a, (load { env with old := old } file { env with old := old }.start).result = .ok a ∧
    (load { env with old := old } file { env with old := old }.start).state = m

/-- The segments of an accepted file are shown, and what their pages read as does not
depend on the old contents. -/
def Presents (load : Env → List UInt8 → Load α) (env : Env) (file : List UInt8)
    (segments : List Elf64Phdr) : Prop :=
  ∀ old m, Accepts load env file old m → ∀ ph ∈ segments, Shows file ph m ∧
    ∀ old' m', Accepts load env file old' m' →
      ∀ addr, ph.memsz ≠ 0 → ph.Has (addr / pageSize) → m'.read addr = m.read addr

theorem Shown.shows {ph : Elf64Phdr} (shown : Shown file ph m) (placed : Placed ph)
    (inFile : ph.offset + ph.filesz ≤ file.length) : Shows file ph m := by
  have has (i : Nat) (inside : i < ph.pages * pageSize) : ph.Has ((ph.vaddr + i) / pageSize) := by
    obtain ⟨k, start⟩ := placed.aligned
    simp only [Elf64Phdr.Has, Elf64Phdr.firstPage, start] at inside ⊢
    rw [Nat.mul_add_div (by decide), Nat.mul_div_cancel_left k (by decide)]
    refine ⟨Nat.le_add_right _ _, Nat.add_lt_add_left (Nat.div_lt_of_lt_mul ?_) k⟩
    rwa [Nat.mul_comm]
  constructor
  · intro i inside
    have here : ph.offset + i < file.length := by omega
    refine ⟨file[ph.offset + i], List.getElem?_eq_getElem here, ?_⟩
    rw [shown _ (has i (Nat.lt_of_lt_of_le inside placed.room)), segmentByte,
      Nat.add_sub_cancel_left, if_pos inside]
    simp [bytesOf, List.getElem?_eq_getElem here]
  · intro i behind inside
    rw [shown _ (has i (Nat.lt_of_lt_of_le inside placed.memsz_le)), segmentByte,
      Nat.add_sub_cancel_left, if_neg (by omega)]

theorem presents_of_ends {load : Env → List UInt8 → Load α} {segments : List Elf64Phdr}
    (empty : ∀ ph ∈ segments, ph.memsz = 0 → ph.filesz = 0)
    (placed : ∀ ph ∈ segments, ph.memsz ≠ 0 → Placed ph)
    (ends : ∀ old, Ends (load { env with old := old } file) { env with old := old }.start
      fun _ m' => ∀ ph ∈ segments, ph.memsz ≠ 0 →
        Shown file ph m' ∧ ph.offset + ph.filesz ≤ file.length) :
    Presents load env file segments := by
  rintro old m ⟨a, result, rfl⟩ ph member
  have shown := ends old a result ph member
  refine ⟨?_, ?_⟩
  · by_cases some : ph.memsz = 0
    · have none := empty ph member some
      exact ⟨fun i inside => by omega, fun i _ inside => by omega⟩
    · exact (shown some).1.shows (placed ph member some) (shown some).2
  · rintro old' m' ⟨a', result', rfl⟩ addr some has
    rw [(ends old' a' result' ph member some).1 addr has, (shown some).1 addr has]

section Samples

/-- A program with one segment at 0x400000, whose data is the first byte of the file. -/
def oneSegment (memsz : List UInt8) : List UInt8 :=
  headerBytes 1 ++ [1, 0, 0, 0, 5, 0, 0, 0] ++ List.replicate 8 0 ++ [0, 0, 0x40, 0, 0, 0, 0, 0] ++
    List.replicate 8 0 ++ [1, 0, 0, 0, 0, 0, 0, 0] ++ memsz ++ List.replicate 8 0

end Samples

end DBSos.Elf
