import DBSos.Fat.Table

/-!
# Reading and writing along a chain

A file's bytes lie in the sectors of its clusters, in the order of the chain. Both
loops start inside the cluster that the offset falls into and give up after 100000
clusters; the write takes new clusters where the chain ends.
-/

namespace DBSos.Fat

open Sector (within)

/-- The cycle protection of the loops. -/
def maxRounds : Nat := 100000

/-- The sectors of a cluster that hold the bytes from `intra` up to `lastByte`. -/
def sectorsOf (bps intra lastByte : Nat) : List Nat :=
  List.range' (intra / bps) ((lastByte + bps - 1) / bps - intra / bps)

/-- What a loop over the sectors of one cluster leaves; `stopped` when a sector could
not be read, which ends the whole call. -/
structure Progress (α : Type) where
  state : α
  stopped : Bool

/-- The inner loop of `read_chain`; `out` is what has been read so far. -/
def readSectors (bpb : Bpb) (disk : Disk) (lba intra lastByte len : Nat) :
    List Nat → List UInt8 → Option (Progress (List UInt8))
  | [], out => some ⟨out, false⟩
  | s :: rest, out =>
    match disk.read (lba + s) with
    | none => some ⟨out, true⟩
    | some sec => do
      let bps := bpb.bytesPerSector
      let secStart := if s = intra / bps then intra % bps else 0
      let take := min (min (lastByte - s * bps) (bps - secStart)) (len - out.length)
      if take = 0 then some ⟨out, false⟩
      else
        within secStart take
        let out := out ++ (List.range take).map fun i => sec (secStart + i)
        if len ≤ out.length then some ⟨out, false⟩
        else readSectors bpb disk lba intra lastByte len rest out

/-- The main loop of `read_chain`. -/
def readClusters (bpb : Bpb) (disk : Disk) (len : Nat) :
    (left cluster intra : Nat) → List UInt8 → Option (List UInt8)
  | 0, _, _, out => some out
  | left + 1, cluster, intra, out =>
    if len ≤ out.length then some out
    else if fatIsEoc bpb cluster ∨ cluster < 2 then some out
    else do
      let lba ← clusterToLba bpb cluster
      let clusterSz := bpb.bytesPerSector * bpb.sectorsPerCluster
      let lastByte := intra + min (len - out.length) (clusterSz - intra)
      let read ← readSectors bpb disk lba intra lastByte len
        (sectorsOf bpb.bytesPerSector intra lastByte) out
      if read.stopped ∨ len ≤ read.state.length then some read.state
      else readClusters bpb disk len left (← fatReadEntry bpb disk cluster) 0 read.state

/-- The clusters that `read_chain` skips; `none` inside for a chain that ends before
the offset. -/
def skipClusters (bpb : Bpb) (disk : Disk) : (left skip cluster : Nat) → Option (Option Nat)
  | _, 0, cluster => some (some cluster)
  | left, skip + 1, cluster =>
    if fatIsEoc bpb cluster ∨ cluster < 2 then some none
    else do
      let next ← fatReadEntry bpb disk cluster
      match left with
      | 0 => some none
      | left + 1 => skipClusters bpb disk left skip next

/-- `read_chain` into a buffer of `len` bytes: the bytes that it fills. -/
def readChain (bpb : Bpb) (disk : Disk) (firstCluster offset len : Nat) : Option (List UInt8) :=
  let clusterSz := bpb.bytesPerSector * bpb.sectorsPerCluster
  if len = 0 ∨ firstCluster < 2 ∨ clusterSz = 0 then some []
  else do
    match ← skipClusters bpb disk maxRounds (offset / clusterSz) firstCluster with
    | none => some []
    | some cluster => readClusters bpb disk len maxRounds cluster (offset % clusterSz) []

/-- Allocation inside `write_chain`: a new last cluster behind `cluster`, or 0. -/
def extendChain (bpb : Bpb) (disk : Disk) (cluster : Nat) : Option (Nat × Disk) := do
  let nc ← allocCluster bpb disk
  if nc = 0 then some (0, disk)
  else
    let (_, disk) ← fatWriteEntry bpb disk nc (fatEoc bpb)
    let (_, disk) ← fatWriteEntry bpb disk cluster nc
    some (nc, disk)

/-- The step of `write_chain` to the next cluster, with allocation at the end of the
chain; 0 when there is no space. -/
def nextCluster (bpb : Bpb) (disk : Disk) (cluster : Nat) : Option (Nat × Disk) := do
  let next ← fatReadEntry bpb disk cluster
  if fatIsEoc bpb next ∨ next < 2 then extendChain bpb disk cluster
  else some (next, disk)

/-- The inner loop of `write_chain`; `done` counts the bytes of `data` written. -/
def writeSectors (bpb : Bpb) (lba intra lastByte : Nat) (data : List UInt8) :
    List Nat → Disk × Nat → Option (Progress (Disk × Nat))
  | [], state => some ⟨state, false⟩
  | s :: rest, (disk, done) =>
    match disk.read (lba + s) with
    | none => some ⟨(disk, done), true⟩
    | some sec => do
      let bps := bpb.bytesPerSector
      let rangeStart := max intra (s * bps)
      let rangeEnd := min lastByte (s * bps + bps)
      if rangeEnd ≤ rangeStart then writeSectors bpb lba intra lastByte data rest (disk, done)
      else
        let take := min (rangeEnd - rangeStart) (data.length - done)
        let secPos := rangeStart - s * bps
        within secPos take
        let disk := (disk.write (lba + s) (sec.put secPos ((data.drop done).take take))).2
        if data.length ≤ done + take then some ⟨(disk, done + take), false⟩
        else writeSectors bpb lba intra lastByte data rest (disk, done + take)

/-- The main loop of `write_chain`. -/
def writeClusters (bpb : Bpb) (data : List UInt8) :
    (left cluster intra : Nat) → Disk × Nat → Option (Disk × Nat)
  | 0, _, _, state => some state
  | left + 1, cluster, intra, (disk, done) =>
    if data.length ≤ done then some (disk, done)
    else if cluster < 2 then some (disk, done)
    else do
      let (cluster, disk) ←
        if fatIsEoc bpb cluster then extendChain bpb disk cluster else some (cluster, disk)
      if cluster = 0 then some (disk, done)
      else
        let lba ← clusterToLba bpb cluster
        let clusterSz := bpb.bytesPerSector * bpb.sectorsPerCluster
        let lastByte := intra + min (data.length - done) (clusterSz - intra)
        let written ← writeSectors bpb lba intra lastByte data
          (sectorsOf bpb.bytesPerSector intra lastByte) (disk, done)
        if written.stopped ∨ data.length ≤ written.state.2 then some written.state
        else
          let (next, disk) ← nextCluster bpb written.state.1 cluster
          if next = 0 then some (disk, written.state.2)
          else writeClusters bpb data left next 0 (disk, written.state.2)

/-- The clusters that `write_chain` skips, taken where the chain is too short; 0 when
there is no space. -/
def reachCluster (bpb : Bpb) : (left skip cluster : Nat) → Disk → Option (Nat × Disk)
  | _, 0, cluster, disk => some (cluster, disk)
  | 0, _ + 1, _, disk => some (0, disk)
  | left + 1, skip + 1, cluster, disk => do
    let (next, disk) ← nextCluster bpb disk cluster
    if next = 0 then some (0, disk) else reachCluster bpb left skip next disk

/-- `write_chain`: how many bytes were written. -/
def writeChain (bpb : Bpb) (disk : Disk) (firstCluster offset : Nat) (data : List UInt8) :
    Option (Nat × Disk) :=
  let clusterSz := bpb.bytesPerSector * bpb.sectorsPerCluster
  if data = [] ∨ firstCluster < 2 ∨ clusterSz = 0 then some (0, disk)
  else do
    let (cluster, disk) ← reachCluster bpb maxRounds (offset / clusterSz) firstCluster disk
    if cluster = 0 then some (0, disk)
    else
      let (disk, done) ← writeClusters bpb data maxRounds cluster (offset % clusterSz) (disk, 0)
      some (done, disk)

end DBSos.Fat
