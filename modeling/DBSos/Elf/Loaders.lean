import DBSos.Elf.Loading

/-!
# The native loader

`load_and_spawn` takes the file through the VFS and maps every segment page by page,
each from a page of its own. The descriptor tables that it writes into two of its pages
are left out. The messages are those it prints.
-/

namespace DBSos.Elf.Native

open DBSos.Vm

/-- `USER_STACK_VIRT`. -/
def userStackVirt : Nat := 0x7FFFFFF000

/-- The file data of one page of a segment. -/
def copyPage (file : List UInt8) (ph : Elf64Phdr) (page rel : Nat) : Load Unit :=
  if rel < ph.filesz then do
    let bytes ← fetch file (ph.offset + rel) (min (ph.filesz - rel) 0x1000)
    fill page 1 0 bytes
  else pure ()

/-- The zeros of one page, from the end of the data to the end of the segment. -/
def zeroRest (ph : Elf64Phdr) (page rel : Nat) : Load Unit :=
  let zLo := if ph.filesz ≤ rel then rel else ph.filesz
  let zHi := min (rel + 0x1000) ph.memsz
  if zLo < zHi then fill page 1 (zLo - rel) (List.replicate (zHi - zLo) 0) else pure ()

/-- The flags of a segment's pages. -/
def flagsOf (ph : Elf64Phdr) : BitVec 64 :=
  if ph.flags &&& pfW ≠ 0 then pteUser ||| pteWritable else pteUser

/-- One turn of the loop over the pages of a segment. -/
def loadPage (env : Env) (file : List UInt8) (ph : Elf64Phdr) (p : Nat) : Load Unit := do
  let page ← pallocOr env 1 "[ELF] page alloc failed\r\n"
  let pageVirt := pageDown ph.vaddr + p * 0x1000
  if ← mapPage env page pageVirt (flagsOf ph) then do
    let rel ← sub64 pageVirt ph.vaddr
    copyPage file ph page rel
    zeroRest ph page rel
  else fail "[ELF] map failed\r\n"

/-- The first `count` pages of a segment. -/
def loadPages (env : Env) (file : List UInt8) (ph : Elf64Phdr) : (count : Nat) → Load Unit
  | 0 => pure ()
  | count + 1 => do
    loadPages env file ph count
    loadPage env file ph count

/-- One turn of the loop over the program headers. -/
def loadSegment (env : Env) (file : List UInt8) (ph : Elf64Phdr) : Load Unit :=
  if ph.type ≠ ptLoad then pure ()
  else if 2 ^ 64 ≤ ph.offset + ph.filesz ∨ file.length < ph.offset + ph.filesz then
    fail "[ELF] seg out of file\r\n"
  else if 64 * 1024 * 1024 < ph.memsz then fail "[ELF] seg too big\r\n"
  else do
    let top ← add64 ph.vaddr ph.memsz
    let segEnd ← add64 top 0xFFF
    loadPages env file ph ((pageDown segEnd - pageDown ph.vaddr) / 0x1000)

/-- The program headers of a file. -/
def programHeaders (file : List UInt8) : List Elf64Phdr :=
  let ehdr := Elf64Ehdr.parse file
  (List.range ehdr.phnum).map fun i => Elf64Phdr.parse file (ehdr.phoff + i * ehdr.phentsize)

/-- The tests before the first allocation: the message where one fails. -/
def rejects (file : List UInt8) : Option String :=
  let ehdr := Elf64Ehdr.parse file
  if file.length < 64 ∨ 512 * 1024 < file.length then some "[ELF] bad size\r\n"
  else if ehdr.ident.take 6 ≠ [0x7F, 0x45, 0x4C, 0x46, 2, 1] then
    some "[ELF] bad magic/class/endian\r\n"
  else if ehdr.machine ≠ 62 ∨ ehdr.type ≠ 2 ∧ ehdr.type ≠ 3 then
    some "[ELF] not x86_64 exe/dyn\r\n"
  else if ehdr.phentsize ≠ 56 ∨ ehdr.phnum = 0 ∨ 32 < ehdr.phnum then some "[ELF] bad phnum\r\n"
  else if file.length < ehdr.phoff + ehdr.phnum * ehdr.phentsize then
    some "[ELF] phdr out of file\r\n"
  else none

/-- The first pages of a load. -/
structure Frame where
  code : Nat
  stack : Nat
  gdt : Nat
  tss : Nat

/-- The first four allocations; one that fails returns those before it. -/
def allocFrame (env : Env) : Load Frame := do
  match ← palloc env with
  | none => fail "[ELF] alloc failed\r\n"
  | some code =>
    match ← palloc env with
    | none => do
      pfree code
      fail ""
    | some stack =>
      match ← palloc env with
      | none => do
        pfree code
        pfree stack
        fail ""
      | some gdt =>
        match ← palloc env with
        | none => do
          pfree code
          pfree stack
          pfree gdt
          fail ""
        | some tss => pure ⟨code, stack, gdt, tss⟩

/-- `prepare_user_pml4`: the root of the tables, and the identity map. -/
def prepareUserPml4 (env : Env) : Load Nat := do
  let pml4 ← pallocOr env 1 "[ELF] pml4 failed\r\n"
  if env.identity then pure pml4 else fail "[ELF] pml4 failed\r\n"

/-- `spawn_user`: the new task's id. -/
def spawnUser (env : Env) : Load Nat :=
  match env.spawned with
  | some id => pure id
  | none => fail "[ELF] spawn failed\r\n"

/-- The load behind the first allocations. -/
def loadInto (env : Env) (file : List UInt8) (frame : Frame) : Load Nat := do
  let _ ← prepareUserPml4 env
  if ← mapPage env frame.stack userStackVirt (pteWritable ||| pteUser) then do
    (programHeaders file).foldlM (fun _ ph => loadSegment env file ph) ()
    spawnUser env
  else fail "[ELF] stack map failed\r\n"

/-- `load_and_spawn`, from the file on. -/
def loadAndSpawn (env : Env) (file : List UInt8) : Load Nat := do
  match rejects file with
  | some message => fail message
  | none => do
    let frame ← allocFrame env
    loadInto env file frame

end DBSos.Elf.Native

/-!
## The Linux loader

`load_linux_elf` takes all pages of a segment at once and maps them behind the copy. It
meets the program headers twice, up to the first that is not in the file. Next to the
segments it maps a stack at a random place, the interpreter's path and the program
headers.
-/

namespace DBSos.Elf.Linux

open DBSos.Vm

def pteNx : BitVec 64 := 1#64 <<< 63

def linuxMmapBase : Nat := 0x400000
def linuxStackTop : Nat := 0x7FFFFFF0
def interpVirt : Nat := 0x7FFF0000
def phdrVirt : Nat := 0x7FFE0000

/-- The pages of the stack. -/
def stackPages : Nat := 16

/-- The new `ASLR_SEED` of `aslr_next`. -/
def aslrSeed (seed : BitVec 64) : BitVec 64 :=
  let seed := seed ^^^ (seed <<< 13)
  let seed := seed ^^^ (seed >>> 7)
  seed ^^^ (seed <<< 17)

/-- `aslr_next`. -/
def aslrNext (seed : BitVec 64) : Nat := (aslrSeed seed).toNat % 2 ^ 28

/-- `randomize_stack_top`. -/
def randomizeStackTop (seed : BitVec 64) : Load Nat := sub64 linuxStackTop (aslrNext seed * 0x1000)

/-- `randomize_mmap_base`. -/
def randomizeMmapBase (seed : BitVec 64) : Nat := linuxMmapBase + aslrNext seed * 0x1000

/-- `LinuxProgram`; pages stand for physical addresses. -/
structure Program where
  entry : Nat
  pml4 : Nat
  codePhys : Option Nat
  stackPhys : Nat
  brk : Nat
  mmapBase : Nat
  phdrVaddr : Nat
  interpVaddr : Nat
  interpSize : Nat
  stackSize : Nat
  stackTop : Nat

/-- A loop over the program headers, up to the first that is not in the file. -/
def walkHeaders {β : Type} (file : List UInt8) (phoff phentsize : Nat)
    (body : β → Elf64Phdr → Load β) : (left i : Nat) → β → Load β
  | 0, _, acc => pure acc
  | left + 1, i, acc => do
    let off ← add64 phoff (i * phentsize)
    let stop ← add64 off 56
    if file.length < stop then pure acc
    else do
      let acc ← body acc (Elf64Phdr.parse file off)
      walkHeaders file phoff phentsize body left (i + 1) acc

/-- What the loop over the segments keeps: `max_vaddr` and `first_code_phys`. -/
structure Loaded where
  maxVaddr : Nat
  firstCode : Option Nat

/-- The loop that copies a segment's data, page by page from the start of its pages. -/
def copyData (file : List UInt8) (ph : Elf64Phdr) (first count : Nat) :
    (left written : Nat) → Load Unit
  | 0, _ => pure ()
  | left + 1, written =>
    if written < ph.filesz then do
      let bytes ← fetch file (ph.offset + written)
        (min (ph.filesz - written) (0x1000 - written % 0x1000))
      fill first count written bytes
      copyData file ph first count left (written + bytes.length)
    else pure ()

/-- The data is copied if all of it is in the file. -/
def copySegment (file : List UInt8) (ph : Elf64Phdr) (first count : Nat) : Load Unit := do
  let fileEnd ← add64 ph.offset ph.filesz
  if fileEnd ≤ file.length then copyData file ph first count ((ph.filesz + 0xFFF) / 0x1000) 0
  else pure ()

/-- The flags of a segment's pages. -/
def flagsOf (ph : Elf64Phdr) : BitVec 64 :=
  if ph.flags &&& pfX = 0 then pteUser ||| pteWritable ||| pteNx else pteUser ||| pteWritable

/-- One turn of the loop over the segments. -/
def loadSegment (env : Env) (file : List UInt8) (acc : Loaded) (ph : Elf64Phdr) : Load Loaded :=
  if ph.type ≠ ptLoad then pure acc
  else if ph.memsz = 0 then pure acc
  else do
    let top ← add64 ph.vaddr ph.memsz
    let endPage ← add64 top 0xFFF
    let pages := (pageDown endPage - pageDown ph.vaddr) / 0x1000
    if pages = 0 then pure acc
    else do
      let first ← pallocOr env pages "Out of memory loading ELF segment"
      fill first pages 0 (List.replicate (pages * 0x1000) 0)
      copySegment file ph first pages
      mapRun env first (pageDown ph.vaddr) (flagsOf ph) "Failed to map ELF page" pages
      pure {
        maxVaddr := max acc.maxVaddr top
        firstCode := if acc.firstCode = none ∧ ph.flags &&& pfX ≠ 0 then some first
          else acc.firstCode }

/-- The stack: its first page and its top. -/
def loadStack (env : Env) : Load (Nat × Nat) := do
  let stack ← pallocOr env stackPages "Failed to allocate stack"
  fill stack stackPages 0 (List.replicate (stackPages * 0x1000) 0)
  let top ← randomizeStackTop env.seed
  let bottom ← sub64 top (stackPages * 0x1000)
  mapRun env stack bottom (pteWritable ||| pteUser) "Failed to map stack page" stackPages
  pure (stack, top)

/-- The interpreter's path gets a page: its address and size. -/
def loadInterp (env : Env) (file : List UInt8) (interp : Option (Nat × Nat)) : Load (Nat × Nat) :=
  match interp with
  | none => pure (0, 0)
  | some (offset, filesz) =>
    if 0 < filesz ∧ filesz < 256 then do
      let stop ← add64 offset filesz
      if stop ≤ file.length then do
        match ← palloc env with
        | none => pure (0, 0)
        | some page => do
          fill page 1 0 (List.replicate 0x1000 0)
          let bytes ← fetch file offset filesz
          fill page 1 0 bytes
          if ← mapPage env page interpVirt (pteUser ||| pteWritable) then
            pure (interpVirt, filesz)
          else pure (interpVirt, 0)
      else pure (0, 0)
    else pure (0, 0)

/-- The program headers get a page: its address. -/
def loadPhdrs (env : Env) (file : List UInt8) (phoff phnum : Nat) : Load Nat := do
  match ← palloc env with
  | none => pure 0
  | some page => do
    fill page 1 0 (List.replicate 0x1000 0)
    -- The slice panics where the headers start behind the file.
    if phoff ≤ file.length then do
      let bytes ← fetch file phoff (min (phnum * 56) 0x1000)
      fill page 1 0 bytes
      let _ ← mapPage env page phdrVirt (pteUser ||| pteWritable)
      pure phdrVirt
    else panic .outOfFile

/-- The tests before the first header: the message where one fails. -/
def rejects (file : List UInt8) : Option String :=
  let ehdr := Elf64Ehdr.parse file
  if file.length < 64 then some "ELF too small"
  else if ehdr.ident.take 4 ≠ [0x7F, 0x45, 0x4C, 0x46] then some "Bad ELF magic"
  else if (ehdr.ident.drop 4).take 1 ≠ [2] then some "Not 64-bit"
  else if (ehdr.ident.drop 5).take 1 ≠ [1] then some "Not little-endian"
  else if ehdr.type ≠ 2 ∧ ehdr.type ≠ 3 then some "Not EXEC or DYN"
  else if ehdr.machine ≠ 62 then some "Not x86_64"
  else if ehdr.phnum = 0 ∨ ehdr.phentsize ≠ 56 then some "Bad program headers"
  else none

/-- The load behind the first loop. -/
def loadInto (env : Env) (file : List UInt8) (ehdr : Elf64Ehdr) (interp : Option (Nat × Nat))
    (pml4 : Nat) : Load Program := do
  let loaded ← walkHeaders file ehdr.phoff ehdr.phentsize (loadSegment env file) ehdr.phnum 0
    ⟨0, none⟩
  let stack ← loadStack env
  let interp ← loadInterp env file interp
  let brk ← add64 loaded.maxVaddr 0xFFF
  let phdrVaddr ← loadPhdrs env file ehdr.phoff ehdr.phnum
  pure {
    entry := ehdr.entry
    pml4 := pml4
    codePhys := loaded.firstCode
    stackPhys := stack.1
    brk := pageDown brk
    mmapBase := randomizeMmapBase (aslrSeed env.seed)
    phdrVaddr := phdrVaddr
    interpVaddr := interp.1
    interpSize := interp.2
    stackSize := stackPages * 0x1000
    stackTop := stack.2 }

/-- The first loop keeps the last `PT_INTERP`. -/
def findInterp (acc : Option (Nat × Nat)) (ph : Elf64Phdr) : Load (Option (Nat × Nat)) :=
  pure (if ph.type = ptInterp then some (ph.offset, ph.filesz) else acc)

/-- `load_linux_elf`. -/
def loadLinuxElf (env : Env) (file : List UInt8) : Load Program := do
  match rejects file with
  | some message => fail message
  | none => do
    let ehdr := Elf64Ehdr.parse file
    let interp ← walkHeaders file ehdr.phoff ehdr.phentsize findInterp ehdr.phnum 0 none
    let pml4 ← pallocOr env 1 "Failed to create address space"
    loadInto env file ehdr interp pml4

end DBSos.Elf.Linux
