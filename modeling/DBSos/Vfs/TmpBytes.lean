import DBSos.Lib.Trace
import DBSos.Lib.Writes
import DBSos.Vfs.Tmpfs

/-!
# The bytes of a file in RAM

`Recorded` is the file system with the writes that each file has taken since it was
created or truncated. The buffer of a file is not cleared, so what a write skips shows
what was in the memory before.
-/

namespace DBSos.Vfs

open DBSos.Lib

/-- A call of the driver, or the allocator's next block. -/
inductive TmpCall where
  | openPath (path : Path) (flags : Flags)
  | close (handle : BitVec 64)
  | read (handle : BitVec 64) (count : Nat) (offset : BitVec 64)
  | write (handle : BitVec 64) (bytes : List UInt8) (offset : BitVec 64)
  | stat (path : Path)
  | unlink (path : Path)
  | kmalloc (block : Option (Nat → UInt8))

namespace Tmpfs

variable {t t' : Tmpfs} {i : TmpSlot} {file : TmpFile} {path name : Path} {flags : Flags}

def withHeap (t : Tmpfs) (block : Option (Nat → UInt8)) : Tmpfs where
  files := t.files
  handles := t.handles
  heap := block
  bound := t.bound

def call (t : Tmpfs) : TmpCall → Tmpfs
  | .openPath path flags => (t.openPath path flags).2
  | .close handle => t.close handle
  | .read _ _ _ | .stat _ => t
  | .write handle bytes offset => (t.write handle bytes offset).2
  | .unlink path => (t.unlink path).2
  | .kmalloc block => t.withHeap block

/-- The file behind a handle. -/
def fileAt (t : Tmpfs) (handle : BitVec 64) : Option (TmpSlot × TmpFile) :=
  (toSlot handle).bind t.fileOf

/-- The name is one that `tmp_open` looks up. -/
def Looks (name : Path) : Prop := name ≠ [] ∧ name.length ≤ maxName

instance (name : Path) : Decidable (Looks name) := inferInstanceAs (Decidable (_ ∧ _))

/-- `tmp_open` truncates the file in this slot. -/
def Truncates (t : Tmpfs) (path : Path) (flags : Flags) (i : TmpSlot) : Prop :=
  Looks (norm path) ∧ flags &&& oTrunc ≠ 0 ∧ (t.find (norm path)).map Prod.fst = some i

instance (t : Tmpfs) (path : Path) (flags : Flags) (i : TmpSlot) :
    Decidable (t.Truncates path flags i) := inferInstanceAs (Decidable (_ ∧ _ ∧ _))

/-- A file behind `tmp_open` is one from before, truncated if the flags say so, or new
and empty. -/
theorem openPath_file (used : (t.openPath path flags).2.files i = some file) :
    (t.files i = none ∧ file.size = 0) ∨
      ∃ before, t.files i = some before ∧
        file = if t.Truncates path flags i then before.truncate else before := by
  unfold openPath at used
  dsimp only at used
  have unchanged : (¬ Looks (norm path) ∨ t.find (norm path) = none) → t.files i = some file →
      ∃ before, t.files i = some before ∧
        file = if t.Truncates path flags i then before.truncate else before := by
    intro quiet same
    refine ⟨file, same, (if_neg ?_).symm⟩
    rintro ⟨looks, -, found⟩
    rcases quiet with short | missing
    · exact short looks
    · rw [missing] at found
      cases found
  by_cases root : norm path = []
  · rw [if_pos root] at used
    exact .inr (unchanged (.inl fun looks => looks.1 root) used)
  by_cases long : maxName < (norm path).length
  · rw [if_neg root, if_pos long] at used
    exact .inr (unchanged (.inl fun looks => absurd looks.2 (Nat.not_le.mpr long)) used)
  rw [if_neg root, if_neg long] at used
  have looks : Looks (norm path) := ⟨root, Nat.le_of_not_lt long⟩
  cases found : t.find (norm path) with
  | some pair =>
    obtain ⟨j, before⟩ := pair
    obtain ⟨-, isUsed, -⟩ := find_sound found
    -- whether or not a handle is left, the table gets the file as truncated or not
    have files : t.files i = some file ∧ i ≠ j ∨ i = j ∧
        file = if flags &&& oTrunc ≠ 0 then before.truncate else before := by
      simp only [found] at used
      cases free : t.freeHandle with
      | none | some h =>
        simp only [free, setFile, bind] at used
        by_cases here : i = j
        · subst here
          rw [Function.update_self] at used
          exact .inr ⟨rfl, (Option.some.inj used).symm⟩
        · rw [Function.update_of_ne here] at used
          exact .inl ⟨used, here⟩
    rcases files with ⟨same, other⟩ | ⟨rfl, isFile⟩
    · refine .inr ⟨file, same, (if_neg ?_).symm⟩
      rintro ⟨-, -, isFound⟩
      rw [found] at isFound
      exact other (Option.some.inj isFound).symm
    · refine .inr ⟨before, isUsed, ?_⟩
      have iff_ : t.Truncates path flags i ↔ flags &&& oTrunc ≠ 0 := by
        simp [Truncates, looks, found]
      rw [isFile]
      exact if_congr iff_.symm rfl rfl
  | none =>
    simp only [found] at used
    split_ifs at used with old
    · exact .inr (unchanged (.inr found) used)
    · unfold create at used
      split at used
      · rename_i slot data h isSlot isHeap isHandle
        simp only [bind] at used
        by_cases here : i = slot
        · subst here
          rw [Function.update_self] at used
          have vacant : t.files i = none := by simpa using List.find?_some isSlot
          obtain rfl := Option.some.inj used
          exact .inl ⟨vacant, rfl⟩
        · rw [Function.update_of_ne here] at used
          exact .inr (unchanged (.inr found) used)
      · exact .inr (unchanged (.inr found) used)

theorem close_files (t : Tmpfs) (handle : BitVec 64) : (t.close handle).files = t.files := by
  unfold close
  cases toSlot handle <;> rfl

theorem unlink_file (used : (t.unlink path).2.files i = some file) : t.files i = some file := by
  unfold unlink at used
  cases found : t.find (norm path) with
  | none => rwa [found] at used
  | some pair =>
    rw [found] at used
    simp only [remove] at used
    by_cases here : i = pair.1
    · rw [here, Function.update_self] at used
      cases used
    · rwa [Function.update_of_ne here] at used

/-- Sizes are found by name, whatever the bytes are. -/
theorem stat_of_alike
    (alike : ∀ j, (t'.files j).map (fun f => (f.name, f.size)) =
      (t.files j).map fun f => (f.name, f.size)) (path : Path) : t'.stat path = t.stat path := by
  have names : ∀ j, (t'.files j).map TmpFile.name = (t.files j).map TmpFile.name := fun j => by
    simpa [Function.comp_def] using congrArg (Option.map Prod.fst) (alike j)
  have sizes : ∀ j, (t'.files j).map TmpFile.size = (t.files j).map TmpFile.size := fun j => by
    simpa [Function.comp_def] using congrArg (Option.map Prod.snd) (alike j)
  have result : ∀ {s s' : Tmpfs}, (∀ j, (s'.files j).map TmpFile.name =
      (s.files j).map TmpFile.name) → ∀ {i file}, s.find (norm path) = some (i, file) →
      ∃ file', s'.files i = some file' ∧ s'.find (norm path) = some (i, file') := by
    intro s s' same i file found
    have there := find_of_names same found
    obtain ⟨-, used, -⟩ := find_sound found
    cases used' : s'.files i with
    | none =>
      have lost := same i
      rw [used, used'] at lost
      cases lost
    | some file' =>
      rw [used'] at there
      exact ⟨file', rfl, there⟩
  unfold stat
  dsimp only
  split_ifs with root
  · rfl
  cases found : t.find (norm path) with
  | some pair =>
    obtain ⟨i, file⟩ := pair
    obtain ⟨file', used', found'⟩ := result names found
    obtain ⟨-, used, -⟩ := find_sound found
    have size := sizes i
    rw [used, used'] at size
    rw [found', Option.map_some, Option.map_some,
      show file'.size = file.size from Option.some.inj size]
  | none =>
    cases found' : t'.find (norm path) with
    | none => rfl
    | some pair =>
      obtain ⟨i, file⟩ := pair
      obtain ⟨_, -, missing⟩ := result (fun j => (names j).symm) found'
      rw [found] at missing
      cases missing

/-- `tmp_write` refuses, or writes into the file behind the handle. -/
theorem write_cases (t : Tmpfs) (handle : BitVec 64) (bytes : List UInt8) (offset : BitVec 64) :
    ((t.fileAt handle = none ∨ maxFileSize < offset.toNat) ∧
        t.write handle bytes offset = (none, t)) ∨
      ∃ i file, ∃ inside : offset.toNat ≤ maxFileSize, t.fileAt handle = some (i, file) ∧
        t.write handle bytes offset = (some (TmpFile.room bytes.length offset.toNat),
          t.setFile i (file.writeAt bytes offset.toNat inside)) := by
  unfold write fileAt
  cases found : (toSlot handle).bind t.fileOf with
  | none => exact .inl ⟨.inl rfl, rfl⟩
  | some pair =>
    obtain ⟨i, file⟩ := pair
    dsimp only
    by_cases inside : offset.toNat ≤ maxFileSize
    · rw [dif_pos inside]
      exact .inr ⟨i, file, inside, rfl, rfl⟩
    · rw [dif_neg inside]
      exact .inl ⟨.inr (Nat.lt_of_not_le inside), rfl⟩

/-- What the handle of a file still reads behind a rewrite of the file. -/
theorem fileAt_setFile {handle : BitVec 64} (found : t.fileAt handle = some (i, file))
    (file' : TmpFile) : (t.setFile i file').fileAt handle = some (i, file') := by
  obtain ⟨h, isSlot, isFile⟩ := Option.bind_eq_some_iff.mp found
  obtain ⟨bound, -⟩ := fileOf_used isFile
  simp [fileAt, isSlot, fileOf, setFile, bound]

/-- `tmp_read` through a handle of a file. -/
theorem read_of_fileAt {handle offset : BitVec 64} {count : Nat}
    (found : t.fileAt handle = some (i, file)) :
    t.read handle count offset = some (file.readAt count offset.toNat) := by
  have notRoot : handle ≠ rootHandle := by
    rintro rfl
    simp [fileAt] at found
  rw [read, if_neg notRoot]
  exact congrArg (Option.map fun found => found.2.readAt count offset.toNat) found

end Tmpfs

namespace TmpFile

variable {f : TmpFile}

theorem readAt_eq (f : TmpFile) (count offset : Nat) :
    f.readAt count offset = (f.content.drop offset).take count := by
  refine List.ext_getElem? fun p => ?_
  unfold readAt content
  by_cases behind : offset ≥ f.size
  · rw [if_pos behind, List.drop_eq_nil_of_le (by simpa using behind)]
    simp
  · rw [if_neg behind, List.getElem?_map, List.getElem?_take, List.getElem?_drop, List.getElem?_map]
    by_cases inside : p < count ∧ offset + p < f.size
    · rw [if_pos inside.1, List.getElem?_range (by omega), List.getElem?_range inside.2]
      rfl
    · rw [List.getElem?_eq_none (by simp only [List.length_range]; omega)]
      split_ifs with counted
      · rw [List.getElem?_eq_none (by simp only [List.length_range]; omega)]
        rfl
      · rfl

@[simp] theorem length_content (f : TmpFile) : f.content.length = f.size := by simp [content]

end TmpFile

/-- The file system, with the writes of each file since it was last empty, the latest
first. -/
structure Recorded where
  tmpfs : Tmpfs
  log : TmpSlot → List (Nat × List UInt8)

namespace Recorded

variable {w w' : Recorded} {i : TmpSlot} {file : TmpFile} {c : TmpCall}

/-- An accepted write is recorded with the bytes that it reports as written; a truncation
and a creation start a new record. -/
def note (w : Recorded) : TmpCall → TmpSlot → List (Nat × List UInt8)
  | .openPath path flags, i =>
    if (w.tmpfs.files i).isNone ∨ w.tmpfs.Truncates path flags i then [] else w.log i
  | .write handle bytes offset, i =>
    match (w.tmpfs.write handle bytes offset).1 with
    | some n =>
      if (w.tmpfs.fileAt handle).map Prod.fst = some i then
        (offset.toNat, bytes.take n) :: w.log i
      else w.log i
    | none => w.log i
  | _, i => w.log i

def step (w : Recorded) (c : TmpCall) : Recorded := ⟨w.tmpfs.call c, w.note c⟩

def Steps (w : Recorded) (c : TmpCall) (w' : Recorded) : Prop := w.step c = w'

/-- The byte array that the file in a slot should be. -/
def bytes (w : Recorded) (i : TmpSlot) : List UInt8 := arrayOf 0 (w.log i)

/-- Reads and sizes are those of a byte array with the last byte written at each position,
and 0 where nothing was written. -/
structure Behaves (w : Recorded) : Prop where
  read : ∀ handle count offset i file, w.tmpfs.fileAt handle = some (i, file) →
    w.tmpfs.read handle count offset = some (((w.bytes i).drop offset.toNat).take count)
  stat : ∀ path i file, norm path ≠ [] → w.tmpfs.find (norm path) = some (i, file) →
    w.tmpfs.stat path =
      some ⟨BitVec.ofNat 32 (w.bytes i).length, false, BitVec.ofNat 32 i.val⟩
  bounded : ∀ i, (w.tmpfs.files i).isSome → (w.bytes i).length ≤ maxFileSize

/-- A write starts inside its file; or it stores something, and the buffer happens to be
zero where it leaves a gap. -/
def Flush (w : Recorded) : TmpCall → Prop
  | .write handle bytes offset => ∀ i file, w.tmpfs.fileAt handle = some (i, file) →
      offset.toNat ≤ maxFileSize →
      offset.toNat ≤ file.size ∨
        0 < TmpFile.room bytes.length offset.toNat ∧
          ∀ p, file.size ≤ p → p < offset.toNat → file.data p = 0
  | _ => True

/-- Before the first call. -/
def initial (block : Option (Nat → UInt8)) : Recorded := ⟨Tmpfs.empty block, fun _ => []⟩

/-- Each file holds the bytes recorded for it. -/
def Inv (w : Recorded) : Prop := ∀ i file, w.tmpfs.files i = some file → file.content = w.bytes i

theorem Inv.behaves (inv : w.Inv) : w.Behaves where
  read := by
    intro handle count offset i file found
    obtain ⟨h, -, isFile⟩ := Option.bind_eq_some_iff.mp found
    rw [Tmpfs.read_of_fileAt found, TmpFile.readAt_eq, inv i file (Tmpfs.fileOf_used isFile).2]
  stat := by
    intro path i file named found
    obtain ⟨-, used, -⟩ := Tmpfs.find_sound found
    rw [← inv i file used, TmpFile.length_content]
    simp [Tmpfs.stat, named, found]
  bounded := by
    intro i used
    obtain ⟨file, isFile⟩ := Option.isSome_iff_exists.mp used
    rw [← inv i file isFile, TmpFile.length_content]
    exact file.fits

theorem inv_initial (block : Option (Nat → UInt8)) : (initial block).Inv := nofun

/-- The record of an accepted write. -/
theorem note_write {handle offset : BitVec 64} {bytes : List UInt8} {n : Nat}
    (accepted : (w.tmpfs.write handle bytes offset).1 = some n)
    (found : w.tmpfs.fileAt handle = some (i, file)) (j : TmpSlot) :
    w.note (.write handle bytes offset) j =
      if j = i then (offset.toNat, bytes.take n) :: w.log j else w.log j := by
  simp only [note, accepted, found, Option.map_some, Option.some.injEq, eq_comm (a := i)]

/-- A written file holds the bytes recorded for it exactly when the write was flush. -/
theorem content_writeAt_iff {bytes : List UInt8} {offset : Nat} (inside : offset ≤ maxFileSize)
    (holds : file.content = w.bytes i) :
    (file.writeAt bytes offset inside).content =
        arrayOf 0 ((offset, bytes.take (TmpFile.room bytes.length offset)) :: w.log i) ↔
      offset ≤ file.size ∨ 0 < TmpFile.room bytes.length offset ∧
        ∀ p, file.size ≤ p → p < offset → file.data p = 0 := by
  have fits : TmpFile.room bytes.length offset ≤ bytes.length := Nat.min_le_left _ _
  have length : (bytes.take (TmpFile.room bytes.length offset)).length =
      TmpFile.room bytes.length offset := List.length_take_of_le fits
  have stored : ∀ p, (below : p < (bytes.take (TmpFile.room bytes.length offset)).length) →
      (file.writeAt bytes offset inside).data (offset + p) =
        (bytes.take (TmpFile.room bytes.length offset))[p] := by
    intro p below
    rw [length] at below
    simp [TmpFile.writeAt, below, below.trans_le fits]
  have kept : ∀ p, p < offset ∨
      offset + (bytes.take (TmpFile.room bytes.length offset)).length ≤ p →
      (file.writeAt bytes offset inside).data p = file.data p := by
    intro p outside
    rw [length] at outside
    simp only [TmpFile.writeAt]
    rw [if_neg (by omega)]
  have agrees := write_agrees_iff 0 holds stored kept
  rw [length] at agrees
  refine agrees.trans (or_congr_right (and_congr_left' ?_))
  rw [← List.length_pos_iff, length]

theorem Inv.step (inv : w.Inv) (flush : w.Flush c) : (w.step c).Inv := by
  intro j file used
  cases c with
  | openPath path flags =>
    rcases Tmpfs.openPath_file used with ⟨vacant, empty⟩ | ⟨before, isUsed, rfl⟩
    · have log : (w.step (.openPath path flags)).log j = [] := if_pos (.inl (by simp [vacant]))
      rw [bytes, log, TmpFile.content, empty]
      rfl
    · by_cases truncates : w.tmpfs.Truncates path flags j
      · have log : (w.step (.openPath path flags)).log j = [] := if_pos (.inr truncates)
        rw [bytes, log, if_pos truncates]
        rfl
      · have log : (w.step (.openPath path flags)).log j = w.log j :=
          if_neg (by simp [isUsed, truncates])
        rw [bytes, log, if_neg truncates]
        exact inv j before isUsed
  | close handle =>
    exact inv j file (Tmpfs.close_files w.tmpfs handle ▸ used)
  | read handle count offset => exact inv j file used
  | stat path => exact inv j file used
  | unlink path => exact inv j file (Tmpfs.unlink_file used)
  | kmalloc block => exact inv j file used
  | write handle data offset =>
    rcases w.tmpfs.write_cases handle data offset with
      ⟨-, refused⟩ | ⟨i, before, inside, found, accepted⟩
    · have log : (w.step (.write handle data offset)).log j = w.log j := by
        simp only [Recorded.step, note, refused]
      simp only [Recorded.step, Tmpfs.call, refused] at used
      rw [bytes, log]
      exact inv j file used
    · obtain ⟨h, -, isFile⟩ := Option.bind_eq_some_iff.mp found
      have holds := inv i before (Tmpfs.fileOf_used isFile).2
      simp only [Recorded.step, Tmpfs.call, accepted, Tmpfs.setFile] at used
      have log : (w.step (.write handle data offset)).log j = _ :=
        note_write (congrArg Prod.fst accepted) found j
      rw [bytes, log]
      by_cases here : j = i
      · subst here
        rw [Function.update_self] at used
        obtain rfl := Option.some.inj used
        rw [if_pos rfl]
        exact (content_writeAt_iff inside holds).mpr (flush j before found inside)
      · rw [Function.update_of_ne here] at used
        rw [if_neg here]
        exact inv j file used

/-- Behind a write that is not flush the file reads differently from its record. -/
theorem Inv.exact (inv : w.Inv) (unflushed : ¬ w.Flush c) : ¬ (w.step c).Behaves := by
  intro behaves
  cases c with
  | write handle data offset =>
    simp only [Flush, not_forall] at unflushed
    obtain ⟨i, before, found, inside, gap⟩ := unflushed
    obtain ⟨h, -, isFile⟩ := Option.bind_eq_some_iff.mp found
    have holds := inv i before (Tmpfs.fileOf_used isFile).2
    rcases w.tmpfs.write_cases handle data offset with
      ⟨missing | outside, -⟩ | ⟨i', before', inside', found', accepted⟩
    · rw [missing] at found
      cases found
    · omega
    · rw [found] at found'
      cases found'
      refine gap ((content_writeAt_iff inside holds).mp ?_)
      have there : (w.step (.write handle data offset)).tmpfs.fileAt handle =
          some (i, before.writeAt data offset.toNat inside) := by
        simp only [Recorded.step, Tmpfs.call, accepted]
        exact Tmpfs.fileAt_setFile found _
      have log : (w.step (.write handle data offset)).log i = _ :=
        note_write (congrArg Prod.fst accepted) found i
      rw [if_pos rfl] at log
      -- one read long enough for both the file and its record
      have shown := behaves.read handle
        (max (before.writeAt data offset.toNat inside).content.length
          ((w.step (.write handle data offset)).bytes i).length) 0#64 i _ there
      rw [Tmpfs.read_of_fileAt there, TmpFile.readAt_eq, BitVec.toNat_zero, List.drop_zero,
        List.drop_zero, List.take_of_length_le (le_max_left _ _),
        List.take_of_length_le (le_max_right _ _)] at shown
      rw [Option.some.inj shown, bytes, log]
  | _ => exact unflushed trivial

/-- A write without bytes leaves every size. -/
def KeepsSizes (w : Recorded) (c : TmpCall) (w' : Recorded) : Prop :=
  ∀ handle offset, c = .write handle [] offset → ∀ path, w'.tmpfs.stat path = w.tmpfs.stat path

theorem keepsSizes_of_flush (flush : w.Flush c) : w.KeepsSizes c (w.step c) := by
  rintro handle offset rfl path
  rcases w.tmpfs.write_cases handle [] offset with
    ⟨-, refused⟩ | ⟨i, file, inside, found, accepted⟩
  · simp only [Recorded.step, Tmpfs.call, refused]
  · obtain ⟨h, -, isFile⟩ := Option.bind_eq_some_iff.mp found
    have used := (Tmpfs.fileOf_used isFile).2
    have stores : TmpFile.room ([] : List UInt8).length offset.toNat = 0 := Nat.zero_min _
    have starts : offset.toNat ≤ file.size := by
      rcases flush i file found inside with starts | ⟨some, -⟩
      · exact starts
      · omega
    simp only [Recorded.step, Tmpfs.call, accepted]
    refine Tmpfs.stat_of_alike (fun j => ?_) path
    simp only [Tmpfs.setFile]
    by_cases here : j = i
    · subst here
      rw [Function.update_self, used]
      simp only [Option.map_some, TmpFile.writeAt, stores, Nat.add_zero, max_eq_left starts]
    · rw [Function.update_of_ne here]

/-- In a run of calls from an empty file system, with any memory behind the files, every
file behaves as a byte array and no write of nothing changes a size, exactly when every
write is flush. -/
theorem behaves_throughout_iff {block : Option (Nat → UInt8)}
    {taken : List (Transition Recorded TmpCall)} {final : Recorded}
    (run : Trace Steps (initial block) taken final) :
    (Throughout Behaves (initial block) taken ∧
        ∀ transition ∈ taken, KeepsSizes transition.before transition.label transition.after) ↔
      Guarded Flush taken := by
  have throughout : Throughout Behaves (initial block) taken ↔ Guarded Flush taken := by
    refine run.throughout_iff_guarded Inv (inv_initial block) (fun _ => Inv.behaves) ?_ ?_
    · rintro before label _ inv flush rfl
      exact inv.step flush
    · rintro before label _ inv unflushed rfl
      exact inv.exact unflushed
  rw [throughout]
  refine and_iff_left_of_imp fun flushed transition member => ?_
  rw [← show transition.before.step transition.label = _ from run.step_of_mem member]
  exact keepsSizes_of_flush (flushed transition member)

/-- Memory that held other data before. -/
def usedBlock : Option (Nat → UInt8) := some fun _ => 0xFF

/-- The path `/a`. -/
def pathA : Path := [slash, 0x61]

/-- A byte written at the start of a new file. -/
theorem behaves_prompt :
    ∃ taken final, Trace Steps (initial usedBlock) taken final ∧
      (Throughout Behaves (initial usedBlock) taken ∧
        ∀ transition ∈ taken, KeepsSizes transition.before transition.label transition.after) := by
  let opened := (initial usedBlock).step (.openPath pathA oCreat)
  have run : Trace Steps (initial usedBlock) _ (opened.step (.write 0#64 [65] 0#64)) :=
    .snoc (.snoc .nil rfl) rfl
  refine ⟨_, _, run, (behaves_throughout_iff run).mpr ?_⟩
  refine guarded_snoc.mpr ⟨guarded_snoc.mpr ⟨nofun, trivial⟩, ?_⟩
  exact fun _ _ _ _ => .inl (Nat.zero_le _)

/-- A byte written at position 1 of a new file: position 0 shows the old memory. -/
theorem gap_shows_memory :
    ∃ taken final, Trace Steps (initial usedBlock) taken final ∧
      final.tmpfs.read 0#64 1 0#64 = some [0xFF] ∧ ¬ Throughout Behaves (initial usedBlock) taken := by
  let opened := (initial usedBlock).step (.openPath pathA oCreat)
  let written := opened.step (.write 0#64 [65] 1#64)
  have run : Trace Steps (initial usedBlock) _ written := .snoc (.snoc .nil rfl) rfl
  have stale : written.tmpfs.read 0#64 1 0#64 = some [0xFF] := by decide +kernel
  have slot : (written.tmpfs.fileAt 0#64).map Prod.fst = some 0 := by decide +kernel
  have zeros : ((written.bytes 0).drop 0).take 1 = [0] := by decide +kernel
  refine ⟨_, _, run, stale, fun behaves => ?_⟩
  obtain ⟨⟨i, file⟩, found, rfl⟩ := Option.map_eq_some_iff.mp slot
  have shown := (run.final_of_throughout behaves).read 0#64 1 0#64 _ file found
  rw [stale] at shown
  exact absurd (shown.trans (congrArg some zeros)) (by decide)

end Recorded

end DBSos.Vfs
