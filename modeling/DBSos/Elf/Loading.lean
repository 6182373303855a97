import DBSos.Lib.Audit
import DBSos.Lib.Buffer
import DBSos.Vm.PageTable

/-!
# Loading a program

What the two ELF loaders share: the headers in the file, and the calls to the allocator
and to the page tables, whose outcomes an `Env` gives in the order of the calls. The
pages that a load is granted lie one behind another in a memory of their own, with their
old contents; `Fault` is what a load must not do, and a checked operation or an index
that fails is a panic besides.
-/

namespace DBSos.Elf

open DBSos.Lib

abbrev pageSize : Nat := 0x1000

/-- The first address behind the user half. -/
def userEnd : Nat := 2 ^ 47

/-- The bytes of a file. -/
def bytesOf (file : List UInt8) : Buffer := fun i => file.getD i 0

/-- `Elf64Ehdr`, with the fields that a loader reads. -/
structure Elf64Ehdr where
  ident : List UInt8
  type : Nat
  machine : Nat
  entry : Nat
  phoff : Nat
  phentsize : Nat
  phnum : Nat

/-- The header at the start of a file. -/
def Elf64Ehdr.parse (file : List UInt8) : Elf64Ehdr where
  ident := (bytesOf file).slice 0 16
  type := (bytesOf file).number 16 2
  machine := (bytesOf file).number 18 2
  entry := (bytesOf file).number 24 8
  phoff := (bytesOf file).number 32 8
  phentsize := (bytesOf file).number 54 2
  phnum := (bytesOf file).number 56 2

/-- `Elf64Phdr`, with the fields that a loader reads. -/
structure Elf64Phdr where
  type : Nat
  flags : BitVec 32
  offset : Nat
  vaddr : Nat
  filesz : Nat
  memsz : Nat
deriving DecidableEq

/-- The program header at an offset. -/
def Elf64Phdr.parse (file : List UInt8) (off : Nat) : Elf64Phdr where
  type := (bytesOf file).number off 4
  flags := BitVec.ofNat 32 ((bytesOf file).number (off + 4) 4)
  offset := (bytesOf file).number (off + 8) 8
  vaddr := (bytesOf file).number (off + 16) 8
  filesz := (bytesOf file).number (off + 32) 8
  memsz := (bytesOf file).number (off + 40) 8

def ptLoad : Nat := 1
def ptInterp : Nat := 3
def pfX : BitVec 32 := 1#32
def pfW : BitVec 32 := 2#32

/-- The entry of an address in the page tables, which see 48 bits of it. -/
def slot (addr : Nat) : Nat := addr / pageSize % 2 ^ 36

/-- The multiple of the page size at or below an address. -/
def pageDown (addr : Nat) : Nat := addr / pageSize * pageSize

namespace Elf64Phdr

variable (ph : Elf64Phdr)

/-- The first page of a segment. -/
def firstPage : Nat := ph.vaddr / pageSize

/-- The number of pages that a segment reaches into. -/
def pages : Nat := (ph.vaddr + ph.memsz + 0xFFF) / pageSize - ph.vaddr / pageSize

end Elf64Phdr

/-! ## Effects -/

/-- The outcomes of the calls of one load, in order, and what it finds. -/
structure Env where
  /-- Whether the allocator grants the pages of a call. -/
  granted : Nat → Bool
  /-- Whether a `map_page` succeeds. -/
  mapped : Nat → Bool
  /-- Whether `identity_map_2mb` succeeds in `prepare_user_pml4`. -/
  identity : Bool
  /-- Whether `spawn_user` starts the task. -/
  spawned : Option Nat
  /-- The old contents of the pages. -/
  old : Buffer
  /-- `ASLR_SEED`. -/
  seed : BitVec 64

/-- The entry of a page in an address space. -/
structure Mapping where
  page : Nat
  flags : BitVec 64

/-- The calls made, the pages granted and those not returned, the memory of these pages
and the entries of the new address space. The page tables below its root are not counted. -/
structure Machine where
  allocs : Nat
  maps : Nat
  pages : Nat
  held : List Nat
  mem : Buffer
  space : Nat → Option Mapping

/-- What a load must not do. -/
inductive Fault where
  /-- A byte outside the file is read. -/
  | outOfFile
  /-- A byte outside the pages that are being filled is written. -/
  | outOfPages
  /-- The arithmetic on addresses wraps around. -/
  | wrapped
  /-- An address outside the user half is mapped. -/
  | kernelHalf
deriving DecidableEq

/-- Why a load stops: with a message, or in a panic. -/
inductive Stop where
  | failed (message : String)
  | panicked
deriving DecidableEq

abbrev Load := Audit Machine Fault Stop

/-- Before the first call. -/
def Env.start (env : Env) : Machine where
  allocs := 0
  maps := 0
  pages := 0
  held := []
  mem := env.old
  space _ := none

/-- The byte at an address of the new address space. -/
def Machine.read (m : Machine) (addr : Nat) : Option UInt8 :=
  (m.space (slot addr)).map fun entry => m.mem (entry.page * pageSize + addr % pageSize)

open Audit

variable {α : Type}

/-- A panic, for something that a load must not do. -/
def panic (fault : Fault) : Load α := do
  report fault
  stop .panicked

/-- The return with an error. -/
def fail (message : String) : Load α := stop (.failed message)

/-- A sum of 64 bits. -/
def add64 (a b : Nat) : Load Nat := if a + b < 2 ^ 64 then pure (a + b) else panic .wrapped

/-- A difference of 64 bits. -/
def sub64 (a b : Nat) : Load Nat := if b ≤ a then pure (a - b) else panic .wrapped

/-- `palloc_n`: the first of `n` adjacent pages. -/
def pallocN (env : Env) (n : Nat) : Load (Option Nat) := do
  let m ← get
  modify fun m => { m with allocs := m.allocs + 1 }
  if env.granted m.allocs then
    modify fun m =>
      { m with pages := m.pages + n, held := m.held ++ List.range' m.pages n }
    pure (some m.pages)
  else pure none

/-- `palloc`. -/
def palloc (env : Env) : Load (Option Nat) := pallocN env 1

/-- The pages of a call that must not fail. -/
def pallocOr (env : Env) (n : Nat) (message : String) : Load Nat := do
  match ← pallocN env n with
  | some first => pure first
  | none => fail message

/-- `pfree`. -/
def pfree (page : Nat) : Load Unit := modify fun m => { m with held := m.held.erase page }

/-- Bytes of the file. -/
def fetch (file : List UInt8) (off len : Nat) : Load (List UInt8) := do
  ensure (off + len ≤ file.length) .outOfFile
  pure ((bytesOf file).slice off len)

/-- Bytes are written into `count` pages from `first` on, at an offset. -/
def fill (first count off : Nat) (bytes : List UInt8) : Load Unit := do
  ensure (off + bytes.length ≤ count * pageSize) .outOfPages
  modify fun m => { m with mem := m.mem.put (first * pageSize + off) bytes }

/-- `map_page`; `false` is an error. -/
def mapPage (env : Env) (page virt : Nat) (flags : BitVec 64) : Load Bool := do
  ensure (virt < userEnd) .kernelHalf
  let m ← get
  modify fun m => { m with maps := m.maps + 1 }
  if env.mapped m.maps then
    modify fun m =>
      { m with space := Function.update m.space (slot virt) (some ⟨page, flags⟩) }
    pure true
  else pure false

/-- Adjacent pages are mapped in order, up to the first that fails. -/
def mapRun (env : Env) (first virt : Nat) (flags : BitVec 64) (message : String) :
    (count : Nat) → Load Unit
  | 0 => pure ()
  | count + 1 => do
    mapRun env first virt flags message count
    if ← mapPage env (first + count) (virt + count * pageSize) flags then pure ()
    else fail message

/-! ## Without a fault -/

section Clean

variable {env : Env} {m : Machine} {post : α → Machine → Prop}

@[simp] theorem clean_panic {fault : Fault} : ¬ Clean (panic fault : Load α) m post := by
  rintro ⟨reported, -⟩
  cases reported

@[simp] theorem clean_fail {message : String} : ¬ Clean (fail message : Load α) m post := clean_stop

@[simp] theorem clean_add64 {a b : Nat} {post : Nat → Machine → Prop} :
    Clean (add64 a b) m post ↔ a + b < 2 ^ 64 ∧ post (a + b) m := by
  unfold add64
  split_ifs with fits
  · simp only [clean_pure, fits, true_and]
  · simp only [clean_panic, fits, false_and]

@[simp] theorem clean_sub64 {a b : Nat} {post : Nat → Machine → Prop} :
    Clean (sub64 a b) m post ↔ b ≤ a ∧ post (a - b) m := by
  unfold sub64
  split_ifs with fits
  · simp only [clean_pure, fits, true_and]
  · simp only [clean_panic, fits, false_and]

/-- The machine behind a call that is granted. -/
def Machine.take (m : Machine) (n : Nat) : Machine :=
  { m with
    allocs := m.allocs + 1
    pages := m.pages + n
    held := m.held ++ List.range' m.pages n }

theorem palloc_granted (granted : env.granted m.allocs = true) :
    palloc env m = ⟨[], .ok (some m.pages), m.take 1⟩ := by
  have run : palloc env m = (if env.granted m.allocs = true then _ else _ : Load (Option Nat))
    { m with allocs := m.allocs + 1 } := rfl
  rw [run, if_pos granted]
  rfl

theorem palloc_refused (refused : ¬ env.granted m.allocs = true) :
    palloc env m = ⟨[], .ok none, { m with allocs := m.allocs + 1 }⟩ := by
  have run : palloc env m = (if env.granted m.allocs = true then _ else _ : Load (Option Nat))
    { m with allocs := m.allocs + 1 } := rfl
  rw [run, if_neg refused]
  rfl

theorem pallocOr_granted {n : Nat} {message : String} (granted : env.granted m.allocs = true) :
    pallocOr env n message m = ⟨[], .ok m.pages, m.take n⟩ := by
  have run : pallocN env n m = ⟨[], .ok (some m.pages), m.take n⟩ := by
    have unfolded : pallocN env n m = (if env.granted m.allocs = true then _ else _ :
      Load (Option Nat)) { m with allocs := m.allocs + 1 } := rfl
    rw [unfolded, if_pos granted]
    rfl
  rw [pallocOr, bind_of_ok run]
  rfl

theorem pallocOr_refused {n : Nat} {message : String} (refused : ¬ env.granted m.allocs = true) :
    pallocOr env n message m =
      ⟨[], .error (.failed message), { m with allocs := m.allocs + 1 }⟩ := by
  have run : pallocN env n m = ⟨[], .ok none, { m with allocs := m.allocs + 1 }⟩ := by
    have unfolded : pallocN env n m = (if env.granted m.allocs = true then _ else _ :
      Load (Option Nat)) { m with allocs := m.allocs + 1 } := rfl
    rw [unfolded, if_neg refused]
    rfl
  rw [pallocOr, bind_of_ok run]
  rfl

@[simp] theorem clean_pallocN {n : Nat} {post : Option Nat → Machine → Prop} :
    Clean (pallocN env n) m post ↔
      if env.granted m.allocs then post (some m.pages) (m.take n)
      else post none { m with allocs := m.allocs + 1 } := by
  simp only [pallocN, clean_bind, clean_get, clean_modify, clean_ite, clean_pure]
  rfl

@[simp] theorem clean_pallocOr {n : Nat} {message : String} {post : Nat → Machine → Prop} :
    Clean (pallocOr env n message) m post ↔
      env.granted m.allocs = true ∧ post m.pages (m.take n) := by
  simp only [pallocOr, clean_bind, clean_pallocN]
  split_ifs with granted <;> simp [granted]

@[simp] theorem clean_fetch {file : List UInt8} {off len : Nat}
    {post : List UInt8 → Machine → Prop} :
    Clean (fetch file off len) m post ↔
      off + len ≤ file.length ∧ post ((bytesOf file).slice off len) m := by
  simp [fetch]

@[simp] theorem clean_fill {first count off : Nat} {bytes : List UInt8}
    {post : Unit → Machine → Prop} :
    Clean (fill first count off bytes) m post ↔ off + bytes.length ≤ count * pageSize ∧
      post () { m with mem := m.mem.put (first * pageSize + off) bytes } := by
  simp [fill]

@[simp] theorem clean_mapPage {page virt : Nat} {flags : BitVec 64} {post : Bool → Machine → Prop} :
    Clean (mapPage env page virt flags) m post ↔ virt < userEnd ∧
      if env.mapped m.maps then
        post true
          { m with
            maps := m.maps + 1
            space := Function.update m.space (slot virt) (some ⟨page, flags⟩) }
      else post false { m with maps := m.maps + 1 } := by
  simp only [mapPage, clean_bind, clean_ensure, clean_get, clean_modify, clean_ite, clean_pure]

theorem forall_lt_add {a b : Nat} {p : Nat → Prop} :
    (∀ j < a + b, p j) ↔ (∀ j < a, p j) ∧ ∀ j < b, p (a + j) := by
  constructor
  · exact fun all => ⟨fun j below => all j (by omega), fun j below => all _ (by omega)⟩
  · rintro ⟨first, second⟩ j below
    by_cases early : j < a
    · exact first j early
    · have later := second (j - a) (by omega)
      rwa [Nat.add_sub_cancel' (by omega)] at later

/-- Pages that are mapped in a run: what counts behind it is the number of calls. -/
theorem clean_mapRun {first virt count : Nat} {flags : BitVec 64} {message : String}
    {calls : Nat → Nat → Prop} :
    Clean (mapRun env first virt flags message count) m (fun _ m => calls m.allocs m.maps) ↔
      (∀ j < count, virt + j * pageSize < userEnd) ∧
        (∀ j < count, env.mapped (m.maps + j) = true) ∧ calls m.allocs (m.maps + count) := by
  induction count generalizing calls with
  | zero => simp [mapRun]
  | succ count ih =>
    have last (allocs maps : Nat) :
        (virt + count * pageSize < userEnd ∧
          if env.mapped maps then calls allocs (maps + 1) else False) ↔
        virt + count * pageSize < userEnd ∧ env.mapped maps = true ∧ calls allocs (maps + 1) := by
      split_ifs with mapped <;> simp [mapped]
    simp only [mapRun, clean_bind, clean_mapPage, clean_ite, clean_pure, clean_fail, if_true,
      Bool.false_eq_true, if_false, Nat.forall_lt_succ_right]
    rw [@ih fun allocs maps => virt + count * pageSize < userEnd ∧
      if env.mapped maps then calls allocs (maps + 1) else False, last]
    tauto

end Clean

end DBSos.Elf
