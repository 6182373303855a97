import DBSos.Fat.Chain

/-!
# The bytes of a cluster

The inner loops of `read_chain` and `write_chain` go through the sectors of one cluster.
Together they read or replace the bytes between two positions of it.
-/

namespace DBSos.Fat

open Sector (within)

variable {bpb : Bpb} {disk : Disk} {lba intra lastByte s m : Nat}

/-- A byte of consecutive sectors. -/
def byteAt (disk : Disk) (lba x : Nat) : UInt8 := disk.sectors (lba + x / 512) (x % 512)

/-- The bytes from `start` to `stop` of consecutive sectors replaced. -/
def overwrite (disk : Disk) (lba start stop : Nat) (byte : Nat → UInt8) : Disk :=
  { disk with
    sectors := fun l j =>
      if lba ≤ l ∧ j < 512 ∧ start ≤ (l - lba) * 512 + j ∧ (l - lba) * 512 + j < stop then
        byte ((l - lba) * 512 + j)
      else disk.sectors l j }

/-- How far the loops have got at the start of a sector. -/
def reachedAt (intra lastByte s : Nat) : Nat := min lastByte (max intra (s * 512))

/-- Where the range of a sector ends, the next one goes on. -/
theorem reachedAt_succ (lastByte : Nat) (start : intra / 512 ≤ s) :
    reachedAt intra lastByte (s + 1) = min lastByte (s * 512 + 512) := by
  unfold reachedAt
  omega

/-- Behind the last sector all is done. -/
theorem reachedAt_end (stop : (lastByte + 511) / 512 ≤ s) : reachedAt intra lastByte s = lastByte := by
  unfold reachedAt
  omega

/-- The position in a sector where its range starts. -/
theorem reachedAt_sub (start : intra / 512 ≤ s) (more : s < (lastByte + 511) / 512)
    (some : intra < lastByte) :
    reachedAt intra lastByte s = s * 512 + (if s = intra / 512 then intra % 512 else 0) := by
  unfold reachedAt
  split_ifs <;> omega

theorem reachedAt_lt (more : s < (lastByte + 511) / 512) (some : intra < lastByte) :
    reachedAt intra lastByte s < lastByte := by
  unfold reachedAt
  omega

/-- What a round takes of a sector from `first` on. The bound of the range leaves `first` out of
account, so the range has to end with a sector or with the room. -/
theorem sectorTake {first room : Nat} (inSector : first < 512) (before : s * 512 + first < lastByte)
    (fits : lastByte - (s * 512 + first) ≤ room)
    (whole : lastByte % 512 = 0 ∨ room ≤ lastByte - (s * 512 + first)) :
    min (min (lastByte - s * 512) (512 - first)) room =
      min lastByte (s * 512 + 512) - (s * 512 + first) := by
  rcases whole with ends | exactly
  · have full : s * 512 + 512 ≤ lastByte := by omega
    omega
  · omega

/-- A slice of one sector as bytes of consecutive sectors. -/
theorem sectorBytes (disk : Disk) (lba s : Nat) {first count : Nat} (fits : first + count ≤ 512) :
    (List.range count).map (fun i => disk.sectors (lba + s) (first + i)) =
      (List.range' (s * 512 + first) count).map (byteAt disk lba) := by
  rw [List.range'_eq_map_range, List.map_map]
  refine List.map_congr_left fun i below => ?_
  rw [List.mem_range] at below
  have sector : (s * 512 + first + i) / 512 = s := by omega
  have position : (s * 512 + first + i) % 512 = first + i := by omega
  rw [Function.comp_apply, byteAt, sector, position]

theorem range'_split {start middle stop : Nat} (first : start ≤ middle) (second : middle ≤ stop) :
    List.range' start (middle - start) ++ List.range' middle (stop - middle) =
      List.range' start (stop - start) := by
  obtain ⟨a, rfl⟩ := Nat.exists_eq_add_of_le first
  obtain ⟨b, rfl⟩ := Nat.exists_eq_add_of_le second
  rw [Nat.add_sub_cancel_left, Nat.add_sub_cancel_left, Nat.add_assoc, Nat.add_sub_cancel_left,
    List.range'_append_1]

/-! ## Reading -/

/-- The inner loop of `read_chain` appends the bytes up to `lastByte`. -/
theorem readSectors_eq (sectorSize : bpb.bytesPerSector = 512) (len : Nat) (out : List UInt8)
    (readable : ∀ t, s ≤ t → t < s + m → disk.readable (lba + t) = true)
    (start : intra / 512 ≤ s) (some : intra < lastByte) (stop : s + m = (lastByte + 511) / 512)
    (fits : out.length + (lastByte - reachedAt intra lastByte s) ≤ len)
    (whole : lastByte % 512 = 0 ∨ len ≤ out.length + (lastByte - reachedAt intra lastByte s)) :
    readSectors bpb disk lba intra lastByte len (List.range' s m) out =
      .some ⟨out ++ (List.range' (reachedAt intra lastByte s)
        (lastByte - reachedAt intra lastByte s)).map (byteAt disk lba), false⟩ := by
  induction m generalizing s out with
  | zero =>
    rw [reachedAt_end (by omega), Nat.sub_self]
    simp [readSectors]
  | succ m ih =>
    have more : s < (lastByte + 511) / 512 := by omega
    have before := reachedAt_lt more some
    have next := reachedAt_succ lastByte start
    have here := reachedAt_sub start more some
    generalize secStart : (if s = intra / 512 then intra % 512 else 0) = first at here
    have inSector : first < 512 := by
      rw [← secStart]
      split_ifs <;> omega
    have take : min (min (lastByte - s * 512) (512 - first)) (len - out.length) =
        reachedAt intra lastByte (s + 1) - reachedAt intra lastByte s := by
      rw [next, here]
      rw [here] at before fits whole
      exact sectorTake inSector before (by omega) (by omega)
    have grows : reachedAt intra lastByte s < reachedAt intra lastByte (s + 1) ∧
        reachedAt intra lastByte (s + 1) ≤ lastByte := by omega
    have taken := @sectorBytes disk lba s first
      (reachedAt intra lastByte (s + 1) - reachedAt intra lastByte s) (by omega)
    have inBuffer : first +
        (reachedAt intra lastByte (s + 1) - reachedAt intra lastByte s) ≤ 512 := by omega
    rw [← here] at taken
    have all := range'_split grows.1.le grows.2
    rw [List.range'_succ, readSectors, Disk.read, if_pos (readable s le_rfl (by omega))]
    dsimp only
    rw [sectorSize, secStart, take, if_neg (Nat.sub_ne_zero_of_lt grows.1), within,
      if_pos inBuffer]
    simp only [Option.bind_eq_bind, Option.bind_some]
    rw [taken, ← all, List.map_append, ← List.append_assoc]
    generalize grown : out ++ (List.range' (reachedAt intra lastByte s)
      (reachedAt intra lastByte (s + 1) - reachedAt intra lastByte s)).map (byteAt disk lba) = out'
    have length : out'.length = out.length +
        (reachedAt intra lastByte (s + 1) - reachedAt intra lastByte s) := by
      simp [← grown]
    clear take next here inBuffer taken all
    by_cases full : len ≤ out'.length
    · -- nothing is left to read
      rw [if_pos full, show lastByte - reachedAt intra lastByte (s + 1) = 0 by omega]
      simp
    · rw [if_neg full]
      exact ih out' (fun t above below => readable t (by omega) (by omega))
        (by omega) (by omega) (by omega) (by omega)

/-! ## Writing -/

section Overwrite

variable {start middle stop : Nat} {byte : Nat → UInt8}

theorem overwrite_empty (disk : Disk) (lba start : Nat) (byte : Nat → UInt8) :
    overwrite disk lba start start byte = disk := by
  unfold overwrite
  congr 1
  funext l j
  rw [if_neg (by omega)]

theorem overwrite_trans (disk : Disk) (lba : Nat) (byte : Nat → UInt8) (first : start ≤ middle)
    (second : middle ≤ stop) :
    overwrite (overwrite disk lba start middle byte) lba middle stop byte =
      overwrite disk lba start stop byte := by
  unfold overwrite
  congr 1
  funext l j
  dsimp only
  split_ifs
  · rfl
  · omega
  · rfl
  · omega
  · omega
  · rfl

/-- One sector written back with a slice replaced. -/
theorem write_put {p : Nat} {bytes : List UInt8} (writable : disk.writable (lba + s) = true)
    (fits : p + bytes.length ≤ 512)
    (slice : ∀ i < bytes.length, bytes[i]? = some (byte (s * 512 + p + i))) :
    (disk.write (lba + s) ((disk.sectors (lba + s)).put p bytes)).2 =
      overwrite disk lba (s * 512 + p) (s * 512 + p + bytes.length) byte := by
  rw [Disk.write, if_pos writable]
  unfold overwrite
  dsimp only
  congr 1
  funext l j
  by_cases here : l = lba + s
  · subst here
    rw [Function.update_self, Nat.add_sub_cancel_left]
    by_cases inside : p ≤ j ∧ j < p + bytes.length
    · obtain ⟨i, rfl⟩ := Nat.exists_eq_add_of_le inside.1
      have below : i < bytes.length := by omega
      have isByte := slice i below
      rw [List.getElem?_eq_getElem below] at isByte
      rw [Sector.put_inside _ below, if_pos (by omega), Option.some.inj isByte, Nat.add_assoc]
    · rw [Sector.put_outside _ (by omega), if_neg (by omega)]
  · rw [Function.update_of_ne here, if_neg (by omega)]

end Overwrite

/-- The inner loop of `write_chain` replaces the bytes up to `lastByte`. -/
theorem writeSectors_eq (sectorSize : bpb.bytesPerSector = 512) {data : List UInt8} {done : Nat}
    {byte : Nat → UInt8}
    (readable : ∀ t, s ≤ t → t < s + m → disk.readable (lba + t) = true)
    (writable : ∀ t, s ≤ t → t < s + m → disk.writable (lba + t) = true)
    (start : intra / 512 ≤ s) (some : intra < lastByte) (stop : s + m = (lastByte + 511) / 512)
    (slice : ∀ i, reachedAt intra lastByte s + i < lastByte →
      data[done + i]? = .some (byte (reachedAt intra lastByte s + i))) :
    writeSectors bpb lba intra lastByte data (List.range' s m) (disk, done) =
      .some ⟨(overwrite disk lba (reachedAt intra lastByte s) lastByte byte,
        done + (lastByte - reachedAt intra lastByte s)), false⟩ := by
  induction m generalizing s disk done with
  | zero =>
    rw [reachedAt_end (by omega), Nat.sub_self, overwrite_empty]
    rfl
  | succ m ih =>
    have more : s < (lastByte + 511) / 512 := by omega
    have before := reachedAt_lt more some
    have next := reachedAt_succ lastByte start
    have here := reachedAt_sub start more some
    generalize secStart : (if s = intra / 512 then intra % 512 else 0) = first at here
    have inSector : first < 512 := by
      rw [← secStart]
      split_ifs <;> omega
    have rangeStart : max intra (s * 512) = reachedAt intra lastByte s := by
      unfold reachedAt at before ⊢
      omega
    have rangeEnd : min lastByte (s * 512 + 512) = reachedAt intra lastByte (s + 1) := next.symm
    -- as many bytes of the data are left as the range has
    have enough : done + (lastByte - reachedAt intra lastByte s) ≤ data.length := by
      have last := slice (lastByte - reachedAt intra lastByte s - 1) (by omega)
      have bound := (List.getElem?_eq_some_iff.mp last).1
      omega
    have grows : reachedAt intra lastByte s < reachedAt intra lastByte (s + 1) ∧
        reachedAt intra lastByte (s + 1) ≤ lastByte := by omega
    have inBuffer : first +
        (reachedAt intra lastByte (s + 1) - reachedAt intra lastByte s) ≤ 512 := by omega
    have position : reachedAt intra lastByte s - s * 512 = first := by omega
    clear next
    have take : min (reachedAt intra lastByte (s + 1) - reachedAt intra lastByte s)
        (data.length - done) =
          reachedAt intra lastByte (s + 1) - reachedAt intra lastByte s := by omega
    generalize isPart : (data.drop done).take
      (reachedAt intra lastByte (s + 1) - reachedAt intra lastByte s) = part
    have length : part.length =
        reachedAt intra lastByte (s + 1) - reachedAt intra lastByte s := by
      rw [← isPart, List.length_take, List.length_drop, take]
    have written : (disk.write (lba + s) ((disk.sectors (lba + s)).put first part)).2 =
        overwrite disk lba (reachedAt intra lastByte s) (reachedAt intra lastByte (s + 1)) byte := by
      rw [write_put (writable s le_rfl (by omega)) (length ▸ inBuffer) fun i below => ?_]
      · rw [← here, length]
        congr 1
        omega
      · rw [← isPart, List.getElem?_take_of_lt (by omega), List.getElem?_drop, slice i (by omega),
          here]
    rw [List.range'_succ, writeSectors, Disk.read, if_pos (readable s le_rfl (by omega))]
    dsimp only
    rw [sectorSize, rangeStart, rangeEnd, if_neg (Nat.not_le_of_lt grows.1), take, position, within,
      if_pos inBuffer]
    simp only [Option.bind_eq_bind, Option.bind_some]
    rw [isPart, written]
    clear take rangeStart rangeEnd position here inBuffer
    by_cases full : data.length ≤ done +
        (reachedAt intra lastByte (s + 1) - reachedAt intra lastByte s)
    · rw [if_pos full, show reachedAt intra lastByte (s + 1) = lastByte by omega]
    · rw [if_neg full]
      refine (@ih (overwrite disk lba (reachedAt intra lastByte s)
        (reachedAt intra lastByte (s + 1)) byte) (s + 1) _
        (fun t above below => readable t (by omega) (by omega))
        (fun t above below => writable t (by omega) (by omega)) (by omega) (by omega)
        fun i below => ?_).trans ?_
      · have isByte := slice (reachedAt intra lastByte (s + 1) - reachedAt intra lastByte s + i)
          (by omega)
        rw [← Nat.add_assoc, ← Nat.add_assoc] at isByte
        rw [isByte, show reachedAt intra lastByte s +
          (reachedAt intra lastByte (s + 1) - reachedAt intra lastByte s) =
            reachedAt intra lastByte (s + 1) by omega]
      · rw [overwrite_trans _ _ _ grows.1.le grows.2,
          show done + (reachedAt intra lastByte (s + 1) - reachedAt intra lastByte s) +
            (lastByte - reachedAt intra lastByte (s + 1)) =
              done + (lastByte - reachedAt intra lastByte s) by omega]

end DBSos.Fat
