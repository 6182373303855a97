import DBSos.Fat.Table

/-!
# Where the search for a free cluster ends

`alloc_cluster` tries every number below a bound that depends on the kind of table alone.
On a volume with fewer clusters it goes on behind the last one, and takes whatever there
reads as zero.
-/

namespace DBSos.Fat

variable {bpb : Bpb} {disk : Disk} {left cl result : Nat}

/-- The search passes this number: its entry can be read and is not zero. -/
def Taken (bpb : Bpb) (disk : Disk) (cluster : Nat) : Prop :=
  ∃ value, fatReadEntry bpb disk cluster = some value ∧ value ≠ 0

/-- The entry of this number reads as free. -/
def ReadsFree (bpb : Bpb) (disk : Disk) (cluster : Nat) : Prop :=
  fatReadEntry bpb disk cluster = some 0

theorem Taken.not_free {cluster : Nat} (taken : Taken bpb disk cluster) :
    ¬ ReadsFree bpb disk cluster := by
  obtain ⟨value, read, nonzero⟩ := taken
  intro free
  exact nonzero (Option.some.inj (read.symm.trans free))

theorem allocFrom_taken (taken : Taken bpb disk cl) :
    allocFrom bpb disk (left + 1) cl = allocFrom bpb disk left (cl + 1) := by
  obtain ⟨value, read, nonzero⟩ := taken
  rw [allocFrom, read]
  exact if_neg nonzero

theorem allocFrom_free (free : ReadsFree bpb disk cl) :
    allocFrom bpb disk (left + 1) cl = some cl := by
  rw [allocFrom, show fatReadEntry bpb disk cl = some 0 from free]
  rfl

/-- The search returns the first number that reads as free, 0 when all are taken, and
nothing when an entry leaves its buffer first. -/
theorem allocFrom_cases (bpb : Bpb) (disk : Disk) (left cl : Nat) :
    (∀ n, cl ≤ n → n < cl + left → Taken bpb disk n) ∧ allocFrom bpb disk left cl = some 0 ∨
    ∃ n, cl ≤ n ∧ n < cl + left ∧ (∀ m, cl ≤ m → m < n → Taken bpb disk m) ∧
      (ReadsFree bpb disk n ∧ allocFrom bpb disk left cl = some n ∨
        fatReadEntry bpb disk n = none ∧ allocFrom bpb disk left cl = none) := by
  induction left generalizing cl with
  | zero => exact .inl ⟨fun n above below => by omega, rfl⟩
  | succ left ih =>
    cases read : fatReadEntry bpb disk cl with
    | none =>
      refine .inr ⟨cl, le_rfl, by omega, fun m above below => by omega, .inr ⟨read, ?_⟩⟩
      rw [allocFrom, read]
      rfl
    | some value =>
      by_cases zero : value = 0
      · have free : ReadsFree bpb disk cl := read.trans (congrArg some zero)
        exact .inr ⟨cl, le_rfl, by omega, fun m above below => by omega,
          .inl ⟨free, allocFrom_free free⟩⟩
      · have taken : Taken bpb disk cl := ⟨value, read, zero⟩
        have passed : ∀ {m}, cl ≤ m → (cl + 1 ≤ m → Taken bpb disk m) → Taken bpb disk m := by
          intro m above later
          rcases Nat.eq_or_lt_of_le above with rfl | behind
          · exact taken
          · exact later behind
        rw [allocFrom_taken taken]
        rcases ih (cl + 1) with ⟨all, none⟩ | ⟨n, above, below, before, found⟩
        · exact .inl ⟨fun n above below => passed above fun behind => all n behind (by omega), none⟩
        · exact .inr ⟨n, by omega, by omega,
            fun m above below => passed above fun behind => before m behind below, found⟩

/-- The sectors of the data area. -/
def InDataArea (bpb : Bpb) (lba : Nat) : Prop :=
  bpb.dataStart ≤ lba ∧ lba < bpb.dataStart + bpb.totalClusters * bpb.sectorsPerCluster

/-- The entry of a cluster starts in a sector of the first table. -/
def InTable (bpb : Bpb) (cluster : Nat) : Prop :=
  bpb.fatType.entryOffset cluster / bpb.bytesPerSector < fatSectors bpb

/-- `alloc_cluster` returns 0, or a free cluster of the volume whose sectors lie in the data
area and whose entry lies in the table. -/
def AllocatesInside (bpb : Bpb) (disk : Disk) : Prop :=
  ∃ c, allocCluster bpb disk = some c ∧
    (c = 0 ∨ InVolume bpb c ∧ ReadsFree bpb disk c ∧ InTable bpb c ∧
      ∃ lba, clusterToLba bpb c = some lba ∧ ∀ s < bpb.sectorsPerCluster, InDataArea bpb (lba + s))

/-- A cluster that the search may stop at. -/
def Takeable (bpb : Bpb) (disk : Disk) (cluster : Nat) : Prop :=
  InVolume bpb cluster ∧ cluster < bpb.fatType.allocMax ∧ InTable bpb cluster ∧
    ReadsFree bpb disk cluster

/-- Either some cluster of the volume with its entry in the table is free and no entry in
front of it leaves its buffer; or no number below the bound is free, and no entry leaves
its buffer. -/
def StaysInside (bpb : Bpb) (disk : Disk) : Prop :=
  (∃ c, Takeable bpb disk c ∧ ∀ m, 2 ≤ m → m < c → fatReadEntry bpb disk m ≠ none) ∨
    ∀ n, 2 ≤ n → n < bpb.fatType.allocMax → Taken bpb disk n

/-- The sectors of a cluster of the volume are in its data area. -/
theorem clusterToLba_inside {c : Nat} (inside : InVolume bpb c) :
    ∃ lba, clusterToLba bpb c = some lba ∧ ∀ s < bpb.sectorsPerCluster, InDataArea bpb (lba + s) := by
  refine ⟨_, if_neg (Nat.not_lt.mpr inside.1), fun s below => ⟨by omega, ?_⟩⟩
  have next : (c - 2 + 1) * bpb.sectorsPerCluster ≤ bpb.totalClusters * bpb.sectorsPerCluster :=
    Nat.mul_le_mul_right _ (by have := inside.1; have := inside.2; omega)
  rw [Nat.succ_mul] at next
  omega

/-- Entries lie in the order of their clusters. -/
theorem InTable.of_le {m n : Nat} (inTable : InTable bpb n) (less : m ≤ n) : InTable bpb m := by
  refine (Nat.div_le_div_right ?_).trans_lt inTable
  cases bpb.fatType <;> simp only [FatType.entryOffset] <;> omega

/-- The boot sector of a volume of five sectors: itself, one table of one sector, a root of
sixteen entries and two clusters of one sector. -/
def bootSector : Sector := fun i =>
  match i with
  | 12 => 2
  | 13 => 1
  | 14 => 1
  | 16 => 1
  | 17 => 16
  | 19 => 5
  | 22 => 1
  | _ => 0

/-- Both clusters are in use; the rest of the table is zero. -/
def fullTable : Sector := fun i => if i < 6 then 0xFF else 0

/-- The volume on a disk of sixteen sectors. -/
def fullDisk : Disk where
  sectors lba := if lba = 0 then bootSector else if lba = 1 then fullTable else Sector.zero
  readable lba := lba < 16
  writable lba := lba < 16

end DBSos.Fat
