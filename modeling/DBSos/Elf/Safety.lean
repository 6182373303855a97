import DBSos.Elf.Loaders

/-!
# What a load may not do

A load is safe when it commits no fault and, where it fails, has returned every page.
From the root of the new tables on nothing is ever returned: there a load is safe exactly
when it comes to its end without a fault.
-/

namespace DBSos.Elf

open DBSos.Lib DBSos.Lib.Audit

variable {α β : Type} {env : Env} {file : List UInt8} {m : Machine}

/-- No fault, and no page is held where the load fails. -/
def SafeFrom (x : Load α) (m : Machine) : Prop :=
  (x m).faults = [] ∧ ∀ message, (x m).result = .error (.failed message) → (x m).state.held = []

/-- Pages stay held, and a panic has been reported. -/
abbrev Holds (x : Load α) : Prop := Owes (fun m : Machine => m.held ≠ []) (· = .panicked) x

/-- Once pages are held for good, only the end is safe. -/
theorem safeFrom_iff_clean {x : Load α} (holds : Holds x) (held : m.held ≠ []) :
    SafeFrom x m ↔ Clean x m fun _ _ => True := by
  obtain ⟨still, reported⟩ := holds m held
  constructor
  · rintro ⟨clean, returned⟩
    refine ⟨clean, ?_⟩
    cases result : (x m).result with
    | ok a => exact ⟨a, rfl, trivial⟩
    | error stop =>
      cases stop with
      | failed message => exact absurd (returned message result) still
      | panicked => exact absurd clean (reported .panicked result rfl)
  · rintro ⟨clean, a, result, -⟩
    refine ⟨clean, fun message failed => ?_⟩
    rw [result] at failed
    cases failed

theorem safeFrom_bind_ok {x : Load α} {f : α → Load β} {a : α} {after : Machine}
    (result : x m = ⟨[], .ok a, after⟩) : SafeFrom (x >>= f) m ↔ SafeFrom (f a) after := by
  rw [SafeFrom, SafeFrom, bind_of_ok result]

theorem safeFrom_bind_error {x : Load α} {f : α → Load β} {message : String} {after : Machine}
    (result : x m = ⟨[], .error (.failed message), after⟩) (returned : after.held = []) :
    SafeFrom (x >>= f) m := by
  rw [SafeFrom, bind_of_error result]
  exact ⟨rfl, fun _ _ => returned⟩

/-! ## Pages stay held -/

theorem holds_panic {fault : Fault} : Holds (panic fault : Load α) := owes_report_stop

theorem holds_fail {message : String} : Holds (fail message : Load α) := owes_stop nofun

theorem holds_add64 (a b : Nat) : Holds (add64 a b) := owes_ite owes_pure holds_panic

theorem holds_sub64 (a b : Nat) : Holds (sub64 a b) := owes_ite owes_pure holds_panic

theorem holds_pallocN (n : Nat) : Holds (pallocN env n) :=
  owes_bind owes_get fun m => owes_bind (owes_modify fun _ held => held) fun _ => by
    refine owes_ite (owes_bind (owes_modify fun m held => ?_) fun _ => owes_pure) owes_pure
    exact List.append_ne_nil_of_left_ne_nil held _

theorem holds_pallocOr (n : Nat) (message : String) : Holds (pallocOr env n message) :=
  owes_bind (holds_pallocN n) fun
    | some _ => owes_pure
    | none => holds_fail

theorem holds_fetch (off len : Nat) : Holds (fetch file off len) :=
  owes_bind owes_ensure fun _ => owes_pure

theorem holds_fill (first count off : Nat) (bytes : List UInt8) :
    Holds (fill first count off bytes) :=
  owes_bind owes_ensure fun _ => owes_modify fun _ held => held

theorem holds_mapPage (page virt : Nat) (flags : BitVec 64) :
    Holds (mapPage env page virt flags) :=
  owes_bind owes_ensure fun _ => owes_bind owes_get fun _ =>
    owes_bind (owes_modify fun _ held => held) fun _ =>
      owes_ite (owes_bind (owes_modify fun _ held => held) fun _ => owes_pure) owes_pure

theorem holds_mapRun (first virt : Nat) (flags : BitVec 64) (message : String) (count : Nat) :
    Holds (mapRun env first virt flags message count) := by
  induction count with
  | zero => exact owes_pure
  | succ count ih =>
    exact owes_bind ih fun _ =>
      owes_bind (holds_mapPage _ _ _) fun _ => owes_ite owes_pure holds_fail

/-- The number of pages of some segments. -/
def totalPages (segments : List Elf64Phdr) : Nat := (segments.map Elf64Phdr.pages).sum

theorem totalPages_cons (ph : Elf64Phdr) (rest : List Elf64Phdr) :
    totalPages (ph :: rest) = ph.pages + totalPages rest := by
  simp [totalPages]

/-- The multiples of the page size around a segment are its pages apart. -/
theorem span_eq (ph : Elf64Phdr) :
    (pageDown (ph.vaddr + ph.memsz + 0xFFF) - pageDown ph.vaddr) / 0x1000 = ph.pages := by
  simp only [pageDown, Elf64Phdr.pages, pageSize]
  omega

namespace Native

theorem holds_loadSegment (ph : Elf64Phdr) : Holds (loadSegment env file ph) := by
  have page (p : Nat) : Holds (loadPage env file ph p) :=
    owes_bind (holds_pallocOr _ _) fun page => owes_bind (holds_mapPage _ _ _) fun _ =>
      owes_ite (owes_bind (holds_sub64 _ _) fun rel => owes_bind
        (owes_ite (owes_bind (holds_fetch _ _) fun _ => holds_fill _ _ _ _) owes_pure) fun _ =>
          owes_ite (holds_fill _ _ _ _) owes_pure) holds_fail
  have all (count : Nat) : Holds (loadPages env file ph count) := by
    induction count with
    | zero => exact owes_pure
    | succ count ih => exact owes_bind ih fun _ => page count
  exact owes_ite owes_pure (owes_ite holds_fail (owes_ite holds_fail
    (owes_bind (holds_add64 _ _) fun _ => owes_bind (holds_add64 _ _) fun _ => all _)))

theorem holds_loadInto (frame : Frame) : Holds (loadInto env file frame) := by
  refine owes_bind (owes_bind (holds_pallocOr _ _) fun _ => owes_ite owes_pure holds_fail) fun _ =>
    owes_bind (holds_mapPage _ _ _) fun _ => owes_ite (owes_bind
      (owes_foldlM (fun _ ph => holds_loadSegment ph) _ _) fun _ => ?_) holds_fail
  unfold spawnUser
  cases env.spawned with
  | none => exact holds_fail
  | some id => exact owes_pure

/-! ## The native loader -/

/-- The segments that are loaded. -/
def loads (file : List UInt8) : List Elf64Phdr :=
  (programHeaders file).filter fun ph => ph.type = ptLoad

/-- A segment whose data is in the file, that is not too big, starts on a page and ends in
the user half. -/
structure SegmentFits (file : List UInt8) (ph : Elf64Phdr) : Prop where
  inFile : ph.offset + ph.filesz ≤ file.length
  notTooBig : ph.memsz ≤ 64 * 1024 * 1024
  aligned : pageSize ∣ ph.vaddr
  userHalf : ph.memsz = 0 ∨ ph.vaddr + ph.memsz ≤ userEnd

theorem clean_copyPage {ph : Elf64Phdr} {page rel : Nat} {calls : Nat → Nat → Prop}
    (inFile : ph.offset + ph.filesz ≤ file.length) :
    Clean (copyPage file ph page rel) m (fun _ m => calls m.allocs m.maps) ↔
      calls m.allocs m.maps := by
  unfold copyPage
  simp only [clean_ite, clean_bind, clean_fetch, clean_fill, clean_pure, Buffer.length_slice,
    pageSize]
  split_ifs with some
  · constructor
    · exact fun all => all.2.2
    · exact fun counted => ⟨by omega, by omega, counted⟩
  · rfl

theorem clean_zeroRest {ph : Elf64Phdr} {page rel : Nat} {calls : Nat → Nat → Prop} :
    Clean (zeroRest ph page rel) m (fun _ m => calls m.allocs m.maps) ↔
      calls m.allocs m.maps := by
  unfold zeroRest
  simp only [clean_ite, clean_fill, clean_pure, List.length_replicate, pageSize]
  split_ifs with below some some
  · exact and_iff_right (by omega)
  · rfl
  · exact and_iff_right (by omega)
  · rfl

theorem clean_loadPage {ph : Elf64Phdr} {p : Nat} {calls : Nat → Nat → Prop}
    (inFile : ph.offset + ph.filesz ≤ file.length) :
    Clean (loadPage env file ph p) m (fun _ m => calls m.allocs m.maps) ↔
      (pageDown ph.vaddr + p * 0x1000 < userEnd ∧ ph.vaddr ≤ pageDown ph.vaddr + p * 0x1000) ∧
        env.granted m.allocs = true ∧ env.mapped m.maps = true ∧
          calls (m.allocs + 1) (m.maps + 1) := by
  simp only [loadPage, clean_bind, clean_pallocOr, clean_mapPage, clean_ite, clean_fail, if_true,
    Bool.false_eq_true, if_false, clean_sub64, clean_zeroRest, clean_copyPage inFile]
  change _ ∧ _ ∧ (if env.mapped m.maps = true then _ else _) ↔ _
  by_cases mapped : env.mapped m.maps = true
  · rw [if_pos mapped]
    simp only [Machine.take]
    tauto
  · rw [if_neg mapped]
    tauto

theorem clean_loadPages {ph : Elf64Phdr} {count : Nat} {calls : Nat → Nat → Prop}
    (inFile : ph.offset + ph.filesz ≤ file.length) :
    Clean (loadPages env file ph count) m (fun _ m => calls m.allocs m.maps) ↔
      (∀ p < count, pageDown ph.vaddr + p * 0x1000 < userEnd ∧
        ph.vaddr ≤ pageDown ph.vaddr + p * 0x1000) ∧
      (∀ p < count, env.granted (m.allocs + p) = true) ∧
      (∀ p < count, env.mapped (m.maps + p) = true) ∧
        calls (m.allocs + count) (m.maps + count) := by
  induction count generalizing calls with
  | zero => simp [loadPages]
  | succ count ih =>
    simp only [loadPages, clean_bind, clean_loadPage inFile, Nat.forall_lt_succ_right]
    rw [@ih fun allocs maps => (pageDown ph.vaddr + count * 0x1000 < userEnd ∧
      ph.vaddr ≤ pageDown ph.vaddr + count * 0x1000) ∧ env.granted allocs = true ∧
        env.mapped maps = true ∧ calls (allocs + 1) (maps + 1)]
    simp only [Nat.add_assoc]
    tauto

/-- The pages of a segment are in the user half and behind its start exactly if it is
aligned and ends there. -/
theorem pages_fit_iff {ph : Elf64Phdr} (word : ph.vaddr < 2 ^ 64)
    (notTooBig : ph.memsz ≤ 64 * 1024 * 1024) :
    (ph.vaddr + ph.memsz < 2 ^ 64 ∧ ph.vaddr + ph.memsz + 0xFFF < 2 ^ 64 ∧
      ∀ p < ph.pages, pageDown ph.vaddr + p * 0x1000 < userEnd ∧
        ph.vaddr ≤ pageDown ph.vaddr + p * 0x1000) ↔
      pageSize ∣ ph.vaddr ∧ (ph.memsz = 0 ∨ ph.vaddr + ph.memsz ≤ userEnd) := by
  simp only [Elf64Phdr.pages, pageDown, userEnd, pageSize, Nat.dvd_iff_mod_eq_zero]
  constructor
  · rintro ⟨-, whole, each⟩
    have aligned : ph.vaddr % 0x1000 = 0 := by
      by_contra unaligned
      have first := each 0 (by omega)
      omega
    refine ⟨aligned, ?_⟩
    by_cases empty : ph.memsz = 0
    · exact .inl empty
    · have last := each ((ph.vaddr + ph.memsz + 0xFFF) / 0x1000 - ph.vaddr / 0x1000 - 1) (by omega)
      exact .inr (by omega)
  · rintro ⟨aligned, empty | inside⟩
    · exact ⟨by omega, by omega, fun p below => by omega⟩
    · exact ⟨by omega, by omega, fun p below => by omega⟩

theorem clean_loadSegment {ph : Elf64Phdr} {calls : Nat → Nat → Prop} (word : ph.vaddr < 2 ^ 64)
    (short : file.length < 2 ^ 64) (isLoad : ph.type = ptLoad) :
    Clean (loadSegment env file ph) m (fun _ m => calls m.allocs m.maps) ↔
      SegmentFits file ph ∧ (∀ p < ph.pages, env.granted (m.allocs + p) = true) ∧
        (∀ p < ph.pages, env.mapped (m.maps + p) = true) ∧
          calls (m.allocs + ph.pages) (m.maps + ph.pages) := by
  unfold loadSegment
  rw [if_neg (not_not.mpr isLoad)]
  by_cases inFile : ph.offset + ph.filesz ≤ file.length
  · rw [if_neg (by omega)]
    by_cases notTooBig : ph.memsz ≤ 64 * 1024 * 1024
    · have fits : SegmentFits file ph ↔
          pageSize ∣ ph.vaddr ∧ (ph.memsz = 0 ∨ ph.vaddr + ph.memsz ≤ userEnd) :=
        ⟨fun fits => ⟨fits.aligned, fits.userHalf⟩, fun h => ⟨inFile, notTooBig, h.1, h.2⟩⟩
      rw [if_neg (by omega), fits, ← pages_fit_iff word notTooBig]
      simp only [clean_bind, clean_add64, clean_loadPages inFile, span_eq]
      tauto
    · rw [if_pos (by omega)]
      exact iff_of_false clean_fail fun all => notTooBig all.1.notTooBig
  · rw [if_pos (by omega)]
    exact iff_of_false clean_fail fun all => inFile all.1.inFile

theorem parse_vaddr_lt (file : List UInt8) (off : Nat) :
    (Elf64Phdr.parse file off).vaddr < 2 ^ 64 := Buffer.number_lt _ _ 8

/-- All segments fit, and the calls for their pages succeed. -/
structure SegmentsLoad (env : Env) (file : List UInt8) (segments : List Elf64Phdr)
    (allocs maps : Nat) : Prop where
  fit : ∀ ph ∈ segments, SegmentFits file ph
  granted : ∀ p < totalPages segments, env.granted (allocs + p) = true
  mapped : ∀ p < totalPages segments, env.mapped (maps + p) = true

theorem segmentsLoad_cons {ph : Elf64Phdr} {rest : List Elf64Phdr} {allocs maps : Nat} :
    SegmentsLoad env file (ph :: rest) allocs maps ↔
      (SegmentFits file ph ∧ (∀ p < ph.pages, env.granted (allocs + p) = true) ∧
        ∀ p < ph.pages, env.mapped (maps + p) = true) ∧
      SegmentsLoad env file rest (allocs + ph.pages) (maps + ph.pages) := by
  constructor
  · rintro ⟨fit, granted, mapped⟩
    rw [totalPages_cons, forall_lt_add] at granted mapped
    obtain ⟨first, others⟩ := List.forall_mem_cons.mp fit
    simp only [← Nat.add_assoc] at granted mapped
    exact ⟨⟨first, granted.1, mapped.1⟩, others, granted.2, mapped.2⟩
  · rintro ⟨⟨first, granted, mapped⟩, later⟩
    refine ⟨List.forall_mem_cons.mpr ⟨first, later.fit⟩, ?_, ?_⟩
    · rw [totalPages_cons, forall_lt_add]
      simp only [← Nat.add_assoc]
      exact ⟨granted, later.granted⟩
    · rw [totalPages_cons, forall_lt_add]
      simp only [← Nat.add_assoc]
      exact ⟨mapped, later.mapped⟩

theorem clean_loadSegments {calls : Nat → Nat → Prop} (list : List Elf64Phdr)
    (words : ∀ ph ∈ list, ph.vaddr < 2 ^ 64) (short : file.length < 2 ^ 64) :
    Clean (list.foldlM (fun _ ph => loadSegment env file ph) ()) m
        (fun _ m => calls m.allocs m.maps) ↔
      SegmentsLoad env file (list.filter fun ph => ph.type = ptLoad) m.allocs m.maps ∧
        calls (m.allocs + totalPages (list.filter fun ph => ph.type = ptLoad))
          (m.maps + totalPages (list.filter fun ph => ph.type = ptLoad)) := by
  induction list generalizing m with
  | nil =>
    simp only [List.foldlM_nil, clean_pure, List.filter_nil, totalPages, List.map_nil,
      List.sum_nil, Nat.add_zero]
    exact (and_iff_right ⟨by simp, by simp [totalPages], by simp [totalPages]⟩).symm
  | cons ph rest ih =>
    obtain ⟨word, words⟩ := List.forall_mem_cons.mp words
    rw [List.foldlM_cons, clean_bind]
    simp only [ih words]
    by_cases isLoad : ph.type = ptLoad
    · rw [List.filter_cons_of_pos (by simpa using isLoad), segmentsLoad_cons,
        @clean_loadSegment env file m ph (fun allocs maps =>
          SegmentsLoad env file (rest.filter fun ph => ph.type = ptLoad) allocs maps ∧
            calls (allocs + totalPages (rest.filter fun ph => ph.type = ptLoad))
              (maps + totalPages (rest.filter fun ph => ph.type = ptLoad))) word short isLoad]
      simp only [totalPages, List.map_cons, List.sum_cons, Nat.add_assoc]
      tauto
    · rw [List.filter_cons_of_neg (by simpa using isLoad),
        show loadSegment env file ph = pure () from if_pos isLoad, clean_pure]

/-- A load that starts, and needs no page or mapping that it does not get. -/
structure Succeeds (env : Env) (file : List UInt8) : Prop where
  root : env.granted 4 = true
  identity : env.identity = true
  stack : env.mapped 0 = true
  segments : SegmentsLoad env file (loads file) 5 1
  spawned : env.spawned.isSome = true

theorem programHeaders_words (file : List UInt8) :
    ∀ ph ∈ programHeaders file, ph.vaddr < 2 ^ 64 := by
  intro ph member
  obtain ⟨i, -, rfl⟩ := List.mem_map.mp member
  exact parse_vaddr_lt file _

theorem clean_loadInto {frame : Frame} (short : file.length < 2 ^ 64) (allocs : m.allocs = 4)
    (maps : m.maps = 0) :
    Clean (loadInto env file frame) m (fun _ _ => True) ↔ Succeeds env file := by
  have spawns (after : Machine) :
      Clean (spawnUser env) after (fun _ _ => True) ↔ env.spawned.isSome = true := by
    unfold spawnUser
    cases env.spawned <;> simp
  have inside : userStackVirt < userEnd := by decide
  simp only [loadInto, prepareUserPml4, clean_bind, clean_pallocOr, clean_ite, clean_pure,
    clean_fail, clean_mapPage, spawns, inside, true_and, Bool.false_eq_true, if_true, if_false]
  simp only [Machine.take, allocs, maps]
  have segments (after : Machine) (calls : after.allocs = 5 ∧ after.maps = 1) :
      Clean ((programHeaders file).foldlM (fun _ ph => loadSegment env file ph) ()) after
        (fun _ _ => env.spawned.isSome = true) ↔
        SegmentsLoad env file (loads file) 5 1 ∧ env.spawned.isSome = true := by
    rw [@clean_loadSegments env file after (fun _ _ => env.spawned.isSome = true) _
      (programHeaders_words file) short, calls.1, calls.2, loads]
  rw [segments _ ⟨rfl, rfl⟩]
  constructor
  · rintro ⟨root, both⟩
    split_ifs at both with identity stack
    · exact ⟨root, identity, stack, both.1, both.2⟩
  · intro succeeds
    refine ⟨succeeds.root, ?_⟩
    rw [if_pos succeeds.identity, if_pos succeeds.stack]
    exact ⟨succeeds.segments, succeeds.spawned⟩

/-- The frame of a load whose first four allocations are granted. -/
theorem allocFrame_granted (granted : ∀ k < 4, env.granted k = true) :
    allocFrame env env.start =
      ⟨[], .ok ⟨0, 1, 2, 3⟩,
        { env.start with allocs := 4, pages := 4, held := [0, 1, 2, 3] }⟩ := by
  unfold allocFrame
  rw [bind_of_ok (palloc_granted (granted 0 (by decide)))]
  dsimp only
  rw [bind_of_ok (palloc_granted (granted 1 (by decide)))]
  dsimp only
  rw [bind_of_ok (palloc_granted (granted 2 (by decide)))]
  dsimp only
  rw [bind_of_ok (palloc_granted (granted 3 (by decide)))]
  rfl

/-- Otherwise what was granted is returned. -/
theorem allocFrame_refused (refused : ¬ ∀ k < 4, env.granted k = true) :
    ∃ message after, allocFrame env env.start = ⟨[], .error (.failed message), after⟩ ∧
      after.held = [] := by
  unfold allocFrame
  by_cases first : env.granted 0 = true
  · rw [bind_of_ok (palloc_granted first)]
    dsimp only
    by_cases second : env.granted 1 = true
    · rw [bind_of_ok (palloc_granted second)]
      dsimp only
      by_cases third : env.granted 2 = true
      · rw [bind_of_ok (palloc_granted third)]
        dsimp only
        have fourth : ¬ env.granted 3 = true := by
          intro fourth
          refine refused fun k below => ?_
          match k, below with
          | 0, _ => exact first
          | 1, _ => exact second
          | 2, _ => exact third
          | 3, _ => exact fourth
        rw [bind_of_ok (palloc_refused fourth)]
        exact ⟨_, _, rfl, rfl⟩
      · rw [bind_of_ok (palloc_refused third)]
        exact ⟨_, _, rfl, rfl⟩
    · rw [bind_of_ok (palloc_refused second)]
      exact ⟨_, _, rfl, rfl⟩
  · rw [bind_of_ok (palloc_refused first)]
    exact ⟨_, _, rfl, rfl⟩

/-- The file is rejected, one of the first four pages is refused, or the load succeeds. -/
def Fits (env : Env) (file : List UInt8) : Prop :=
  rejects file = none → (∀ k < 4, env.granted k = true) → Succeeds env file

theorem safeFrom_loadAndSpawn_iff (env : Env) (file : List UInt8) :
    SafeFrom (loadAndSpawn env file) env.start ↔ Fits env file := by
  unfold loadAndSpawn Fits
  cases rejected : rejects file with
  | some message => exact iff_of_true ⟨rfl, fun _ _ => rfl⟩ nofun
  | none =>
    by_cases granted : ∀ k < 4, env.granted k = true
    · have short : file.length < 2 ^ 64 := by
        by_contra long
        simp only [rejects] at rejected
        rw [if_pos (.inr (by omega))] at rejected
        cases rejected
      rw [safeFrom_bind_ok (allocFrame_granted granted),
        safeFrom_iff_clean (holds_loadInto _) (List.cons_ne_nil _ _),
        clean_loadInto short rfl rfl]
      exact ⟨fun succeeds _ _ => succeeds, fun all => all rfl granted⟩
    · obtain ⟨message, after, result, returned⟩ := allocFrame_refused granted
      exact iff_of_true (safeFrom_bind_error result returned) fun _ all => absurd all granted

end Native

namespace Linux

variable {phoff phentsize : Nat}

/-- The program headers that a loop meets. -/
def headersFrom (file : List UInt8) (phoff phentsize : Nat) : (left i : Nat) → List Elf64Phdr
  | 0, _ => []
  | left + 1, i =>
    if file.length < phoff + i * phentsize + 56 then []
    else Elf64Phdr.parse file (phoff + i * phentsize) ::
      headersFrom file phoff phentsize left (i + 1)

/-- The offsets that a loop computes are words. -/
def WalkFits (file : List UInt8) (phoff phentsize : Nat) : (left i : Nat) → Prop
  | 0, _ => True
  | left + 1, i => phoff + i * phentsize + 56 < 2 ^ 64 ∧
      (phoff + i * phentsize + 56 ≤ file.length → WalkFits file phoff phentsize left (i + 1))

theorem clean_walkHeaders {body : β → Elf64Phdr → Load β} {left i : Nat} {acc : β}
    {post : β → Machine → Prop} :
    Clean (walkHeaders file phoff phentsize body left i acc) m post ↔
      WalkFits file phoff phentsize left i ∧
        Clean ((headersFrom file phoff phentsize left i).foldlM body acc) m post := by
  induction left generalizing i acc m with
  | zero => simp [walkHeaders, WalkFits, headersFrom]
  | succ left ih =>
    simp only [walkHeaders, clean_bind, clean_add64, clean_ite, clean_pure, ih,
      clean_and, WalkFits, headersFrom]
    split_ifs with outside
    · simp only [List.foldlM_nil, clean_pure]
      constructor
      · exact fun all => ⟨⟨all.2.1, fun inside => absurd inside (by omega)⟩, all.2.2⟩
      · exact fun all => ⟨by omega, all.1.1, all.2⟩
    · rw [List.foldlM_cons, clean_bind]
      constructor
      · exact fun all => ⟨⟨all.2.1, fun _ => all.2.2.1⟩, all.2.2.2⟩
      · exact fun all => ⟨by omega, all.1.1, all.1.2 (by omega), all.2⟩

theorem holds_walkHeaders {body : β → Elf64Phdr → Load β} (each : ∀ acc ph, Holds (body acc ph))
    (left i : Nat) (acc : β) : Holds (walkHeaders file phoff phentsize body left i acc) := by
  induction left generalizing i acc with
  | zero => exact owes_pure
  | succ left ih =>
    exact owes_bind (holds_add64 _ _) fun _ => owes_bind (holds_add64 _ _) fun _ =>
      owes_ite owes_pure (owes_bind (each _ _) fun acc => ih _ acc)

theorem holds_loadSegment (acc : Loaded) (ph : Elf64Phdr) : Holds (loadSegment env file acc ph) := by
  have copies (first count left written : Nat) :
      Holds (copyData file ph first count left written) := by
    induction left generalizing written with
    | zero => exact owes_pure
    | succ left ih =>
      exact owes_ite (owes_bind (holds_fetch _ _) fun _ => owes_bind (holds_fill _ _ _ _)
        fun _ => ih _) owes_pure
  refine owes_ite owes_pure (owes_ite owes_pure (owes_bind (holds_add64 _ _) fun _ =>
    owes_bind (holds_add64 _ _) fun _ => owes_ite owes_pure (owes_bind (holds_pallocOr _ _)
      fun _ => owes_bind (holds_fill _ _ _ _) fun _ => owes_bind ?_ fun _ =>
        owes_bind (holds_mapRun _ _ _ _ _) fun _ => owes_pure)))
  exact owes_bind (holds_add64 _ _) fun _ => owes_ite (copies _ _ _ _) owes_pure

theorem holds_loadStack : Holds (loadStack env) :=
  owes_bind (holds_pallocOr _ _) fun _ => owes_bind (holds_fill _ _ _ _) fun _ =>
    owes_bind (holds_sub64 _ _) fun _ => owes_bind (holds_sub64 _ _) fun _ =>
      owes_bind (holds_mapRun _ _ _ _ _) fun _ => owes_pure

theorem holds_loadInterp (interp : Option (Nat × Nat)) : Holds (loadInterp env file interp) := by
  rcases interp with - | ⟨offset, filesz⟩
  · exact owes_pure
  · refine owes_ite (owes_bind (holds_add64 _ _) fun _ => owes_ite
      (owes_bind (holds_pallocN _) fun page => ?_) owes_pure) owes_pure
    cases page with
    | none => exact owes_pure
    | some page =>
      exact owes_bind (holds_fill _ _ _ _) fun _ => owes_bind (holds_fetch _ _) fun _ =>
        owes_bind (holds_fill _ _ _ _) fun _ => owes_bind (holds_mapPage _ _ _) fun _ =>
          owes_ite owes_pure owes_pure

theorem holds_loadPhdrs (phnum : Nat) : Holds (loadPhdrs env file phoff phnum) := by
  refine owes_bind (holds_pallocN _) fun page => ?_
  cases page with
  | none => exact owes_pure
  | some page =>
    exact owes_bind (holds_fill _ _ _ _) fun _ => owes_ite (owes_bind (holds_fetch _ _)
      fun _ => owes_bind (holds_fill _ _ _ _) fun _ => owes_bind (holds_mapPage _ _ _)
        fun _ => owes_pure) holds_panic

theorem holds_loadInto (ehdr : Elf64Ehdr) (interp : Option (Nat × Nat)) (pml4 : Nat) :
    Holds (loadInto env file ehdr interp pml4) :=
  owes_bind (holds_walkHeaders holds_loadSegment _ _ _) fun _ => owes_bind holds_loadStack fun _ =>
    owes_bind (holds_loadInterp _) fun _ => owes_bind (holds_add64 _ _) fun _ =>
      owes_bind (holds_loadPhdrs _) fun _ => owes_pure

/-! ## The Linux loader -/

/-- A segment that is loaded. -/
def Loads (ph : Elf64Phdr) : Prop := ph.type = ptLoad ∧ ph.memsz ≠ 0

instance : DecidablePred Loads := fun _ => instDecidableAnd

/-- A segment that ends in the user half and whose data, if it is in the file, has room in
its pages. -/
structure SegmentFits (file : List UInt8) (ph : Elf64Phdr) : Prop where
  userHalf : ph.vaddr + ph.memsz ≤ userEnd
  word : ph.offset + ph.filesz < 2 ^ 64
  room : ph.offset + ph.filesz ≤ file.length → ph.filesz ≤ ph.pages * 0x1000

theorem pages_pos {ph : Elf64Phdr} (some : ph.memsz ≠ 0) : 0 < ph.pages := by
  simp only [Elf64Phdr.pages, pageSize]
  omega

/-- The copy of data in the file is clean exactly when it has room. -/
theorem clean_copyData {ph : Elf64Phdr} {first count left written : Nat}
    {calls : Nat → Nat → Prop} (inFile : ph.offset + ph.filesz ≤ file.length)
    (enough : ph.filesz ≤ written + left * 0x1000)
    (page : written < ph.filesz → written % 0x1000 = 0) :
    Clean (copyData file ph first count left written) m (fun _ m => calls m.allocs m.maps) ↔
      (written < ph.filesz → ph.filesz ≤ count * 0x1000) ∧ calls m.allocs m.maps := by
  induction left generalizing written m with
  | zero =>
    simp only [copyData, clean_pure]
    exact (and_iff_right fun more => by omega).symm
  | succ left ih =>
    rw [copyData, clean_ite]
    split_ifs with more
    · have aligned := page more
      have next : written + min (ph.filesz - written) (0x1000 - written % 0x1000) =
          min ph.filesz (written + 0x1000) := by omega
      simp only [clean_bind, clean_fetch, clean_fill, Buffer.length_slice, pageSize, next]
      rw [ih (by omega) (by omega)]
      constructor
      · rintro ⟨-, fits, rest, counted⟩
        exact ⟨fun _ => by omega, counted⟩
      · rintro ⟨room, counted⟩
        have room := room more
        exact ⟨by omega, by omega, fun _ => room, counted⟩
    · rw [clean_pure]
      exact (and_iff_right fun more' => absurd more' more).symm

theorem clean_copySegment {ph : Elf64Phdr} {first : Nat} {calls : Nat → Nat → Prop} :
    Clean (copySegment file ph first ph.pages) m (fun _ m => calls m.allocs m.maps) ↔
      ph.offset + ph.filesz < 2 ^ 64 ∧
        (ph.offset + ph.filesz ≤ file.length → ph.filesz ≤ ph.pages * 0x1000) ∧
          calls m.allocs m.maps := by
  simp only [copySegment, clean_bind, clean_add64, clean_ite, clean_pure]
  by_cases inFile : ph.offset + ph.filesz ≤ file.length
  · rw [if_pos inFile, clean_copyData inFile (by omega) (by omega)]
    refine and_congr_right fun _ => and_congr_left fun _ => ?_
    constructor
    · exact fun room _ => by omega
    · exact fun room _ => room inFile
  · rw [if_neg inFile]
    exact and_congr_right fun _ => (and_iff_right fun inside => absurd inside inFile).symm

theorem clean_loadSegment {ph : Elf64Phdr} {acc : Loaded} {calls : Nat → Nat → Nat → Prop}
    (isLoaded : Loads ph) :
    Clean (loadSegment env file acc ph) m (fun acc m => calls acc.maxVaddr m.allocs m.maps) ↔
      SegmentFits file ph ∧ env.granted m.allocs = true ∧
        (∀ p < ph.pages, env.mapped (m.maps + p) = true) ∧
          calls (max acc.maxVaddr (ph.vaddr + ph.memsz)) (m.allocs + 1) (m.maps + ph.pages) := by
  have some := pages_pos isLoaded.2
  have half : (ph.vaddr + ph.memsz < 2 ^ 64 ∧ ph.vaddr + ph.memsz + 0xFFF < 2 ^ 64 ∧
      ∀ p < ph.pages, pageDown ph.vaddr + p * pageSize < userEnd) ↔
        ph.vaddr + ph.memsz ≤ userEnd := by
    simp only [Elf64Phdr.pages, pageDown, userEnd, pageSize] at some ⊢
    constructor
    · rintro ⟨-, whole, each⟩
      have last := each ((ph.vaddr + ph.memsz + 0xFFF) / 0x1000 - ph.vaddr / 0x1000 - 1) (by omega)
      omega
    · exact fun inside => ⟨by omega, by omega, fun p below => by omega⟩
  have fits : SegmentFits file ph ↔ ph.vaddr + ph.memsz ≤ userEnd ∧
      ph.offset + ph.filesz < 2 ^ 64 ∧
        (ph.offset + ph.filesz ≤ file.length → ph.filesz ≤ ph.pages * 0x1000) :=
    ⟨fun fits => ⟨fits.userHalf, fits.word, fits.room⟩, fun h => ⟨h.1, h.2.1, h.2.2⟩⟩
  rw [loadSegment, if_neg (not_not.mpr isLoaded.1), if_neg isLoaded.2, fits, ← half]
  simp only [clean_bind, clean_add64, span_eq, if_neg (show ¬ ph.pages = 0 by omega),
    clean_pallocOr, clean_fill, clean_pure, clean_mapRun, List.length_replicate]
  rw [@clean_copySegment file _ ph m.pages fun allocs maps =>
    (∀ p < ph.pages, pageDown ph.vaddr + p * pageSize < userEnd) ∧
      (∀ p < ph.pages, env.mapped (maps + p) = true) ∧
        calls (max acc.maxVaddr (ph.vaddr + ph.memsz)) allocs (maps + ph.pages)]
  simp only [Machine.take, pageSize, Nat.zero_add, le_refl, true_and]
  tauto

/-- All segments fit; each of them gets its pages in one call, and these are mapped. -/
structure SegmentsLoad (env : Env) (file : List UInt8) (segments : List Elf64Phdr)
    (allocs maps : Nat) : Prop where
  fit : ∀ ph ∈ segments, SegmentFits file ph
  granted : ∀ k < segments.length, env.granted (allocs + k) = true
  mapped : ∀ p < totalPages segments, env.mapped (maps + p) = true

theorem segmentsLoad_cons {ph : Elf64Phdr} {rest : List Elf64Phdr} {allocs maps : Nat} :
    SegmentsLoad env file (ph :: rest) allocs maps ↔
      (SegmentFits file ph ∧ env.granted allocs = true ∧
        ∀ p < ph.pages, env.mapped (maps + p) = true) ∧
      SegmentsLoad env file rest (allocs + 1) (maps + ph.pages) := by
  have length : (ph :: rest).length = 1 + rest.length := by
    rw [List.length_cons]
    omega
  constructor
  · rintro ⟨fit, granted, mapped⟩
    rw [length, forall_lt_add] at granted
    rw [totalPages_cons, forall_lt_add] at mapped
    obtain ⟨first, others⟩ := List.forall_mem_cons.mp fit
    simp only [← Nat.add_assoc] at granted mapped
    exact ⟨⟨first, granted.1 0 Nat.one_pos, mapped.1⟩, others, granted.2, mapped.2⟩
  · rintro ⟨⟨first, granted, mapped⟩, later⟩
    refine ⟨List.forall_mem_cons.mpr ⟨first, later.fit⟩, ?_, ?_⟩
    · rw [length, forall_lt_add]
      simp only [← Nat.add_assoc]
      refine ⟨fun k below => ?_, later.granted⟩
      obtain rfl : k = 0 := by omega
      exact granted
    · rw [totalPages_cons, forall_lt_add]
      simp only [← Nat.add_assoc]
      exact ⟨mapped, later.mapped⟩

/-- `max_vaddr` behind the loop over the segments. -/
def maxVaddr (segments : List Elf64Phdr) (before : Nat) : Nat :=
  segments.foldl (fun acc ph => max acc (ph.vaddr + ph.memsz)) before

theorem maxVaddr_le {segments : List Elf64Phdr} {before bound : Nat} (start : before ≤ bound)
    (each : ∀ ph ∈ segments, ph.vaddr + ph.memsz ≤ bound) : maxVaddr segments before ≤ bound := by
  induction segments generalizing before with
  | nil => exact start
  | cons ph rest ih =>
    obtain ⟨first, others⟩ := List.forall_mem_cons.mp each
    exact ih (Nat.max_le.mpr ⟨start, first⟩) others

theorem clean_loadSegments {calls : Nat → Nat → Nat → Prop} (list : List Elf64Phdr)
    {acc : Loaded} :
    Clean (list.foldlM (loadSegment env file) acc) m
        (fun acc m => calls acc.maxVaddr m.allocs m.maps) ↔
      SegmentsLoad env file (list.filter Loads) m.allocs m.maps ∧
        calls (maxVaddr (list.filter Loads) acc.maxVaddr)
          (m.allocs + (list.filter Loads).length) (m.maps + totalPages (list.filter Loads)) := by
  induction list generalizing m acc with
  | nil =>
    simp only [List.foldlM_nil, clean_pure, List.filter_nil, totalPages, List.map_nil,
      List.sum_nil, Nat.add_zero, List.length_nil, maxVaddr, List.foldl_nil]
    exact (and_iff_right ⟨by simp, by simp, by simp [totalPages]⟩).symm
  | cons ph rest ih =>
    rw [List.foldlM_cons, clean_bind]
    simp only [ih]
    by_cases isLoaded : Loads ph
    · rw [List.filter_cons_of_pos (by simpa using isLoaded), segmentsLoad_cons,
        @clean_loadSegment env file m ph acc (fun top allocs maps =>
          SegmentsLoad env file (rest.filter Loads) allocs maps ∧
            calls (maxVaddr (rest.filter Loads) top) (allocs + (rest.filter Loads).length)
              (maps + totalPages (rest.filter Loads))) isLoaded]
      simp only [totalPages_cons, List.length_cons, maxVaddr, List.foldl_cons, Nat.add_assoc,
        Nat.add_comm 1]
      tauto
    · have skipped : loadSegment env file acc ph = pure acc := by
        unfold loadSegment
        by_cases isLoad : ph.type = ptLoad
        · rw [if_neg (not_not.mpr isLoad), if_pos]
          by_contra some
          exact isLoaded ⟨isLoad, some⟩
        · rw [if_pos isLoad]
      rw [List.filter_cons_of_neg (by simpa using isLoaded), skipped, clean_pure]

/-- The stack is granted and mapped, at a top that does not wrap around. -/
structure StackFits (env : Env) (allocs maps : Nat) : Prop where
  granted : env.granted allocs = true
  top : aslrNext env.seed * 0x1000 + stackPages * 0x1000 ≤ linuxStackTop
  mapped : ∀ p < stackPages, env.mapped (maps + p) = true

theorem clean_loadStack {calls : Nat → Nat → Prop} :
    Clean (loadStack env) m (fun _ m => calls m.allocs m.maps) ↔
      StackFits env m.allocs m.maps ∧ calls (m.allocs + 1) (m.maps + stackPages) := by
  have fits : StackFits env m.allocs m.maps ↔ env.granted m.allocs = true ∧
      (aslrNext env.seed * 0x1000 ≤ linuxStackTop ∧
        stackPages * 0x1000 ≤ linuxStackTop - aslrNext env.seed * 0x1000) ∧
          ∀ p < stackPages, env.mapped (m.maps + p) = true := by
    constructor
    · rintro ⟨granted, top, mapped⟩
      exact ⟨granted, by omega, mapped⟩
    · rintro ⟨granted, top, mapped⟩
      exact ⟨granted, by omega, mapped⟩
  have half : ∀ p < stackPages, linuxStackTop - aslrNext env.seed * 0x1000 - stackPages * 0x1000 +
      p * pageSize < userEnd := by
    intro p below
    simp only [linuxStackTop, stackPages, userEnd, pageSize] at below ⊢
    omega
  rw [fits]
  simp only [loadStack, randomizeStackTop, clean_bind, clean_pallocOr, clean_fill, clean_sub64,
    clean_pure, clean_mapRun, List.length_replicate, Machine.take, pageSize, Nat.zero_add, le_refl,
    true_and]
  constructor
  · rintro ⟨granted, top, room, -, mapped, counted⟩
    exact ⟨⟨granted, ⟨top, room⟩, mapped⟩, counted⟩
  · rintro ⟨⟨granted, ⟨top, room⟩, mapped⟩, counted⟩
    exact ⟨granted, top, room, half, mapped, counted⟩

/-- What the interpreter's path takes: the end of the path does not wrap around. -/
def InterpFits (interp : Option (Nat × Nat)) : Prop :=
  ∀ path ∈ interp, 0 < path.2 → path.2 < 256 → path.1 + path.2 < 2 ^ 64

/-- The calls to the allocator for the interpreter's path. -/
def interpCalls (file : List UInt8) (interp : Option (Nat × Nat)) : Nat :=
  if ∃ path ∈ interp, 0 < path.2 ∧ path.2 < 256 ∧ path.1 + path.2 ≤ file.length then 1 else 0

theorem clean_loadInterp {interp : Option (Nat × Nat)} {calls : Nat → Prop} :
    Clean (loadInterp env file interp) m (fun _ m => calls m.allocs) ↔
      InterpFits interp ∧ calls (m.allocs + interpCalls file interp) := by
  rcases interp with - | ⟨offset, filesz⟩
  · simp [loadInterp, InterpFits, interpCalls]
  · have fits : InterpFits (some (offset, filesz)) ↔
        (0 < filesz → filesz < 256 → offset + filesz < 2 ^ 64) := by simp [InterpFits]
    have count : interpCalls file (some (offset, filesz)) =
        if 0 < filesz ∧ filesz < 256 ∧ offset + filesz ≤ file.length then 1 else 0 := by
      simp [interpCalls]
    have half : interpVirt < userEnd := by decide
    rw [fits, count, loadInterp, clean_ite]
    by_cases named : 0 < filesz ∧ filesz < 256
    · rw [if_pos named]
      simp only [clean_bind, clean_add64, clean_ite, clean_pure]
      by_cases inFile : offset + filesz ≤ file.length
      · rw [if_pos inFile, if_pos ⟨named.1, named.2, inFile⟩]
        refine and_congr ⟨fun word _ _ => word, fun word => word named.1 named.2⟩ ?_
        rw [palloc, clean_pallocN]
        split_ifs with granted
        · simp only [clean_bind, clean_fill, clean_fetch, clean_mapPage, clean_ite, clean_pure,
            List.length_replicate, Buffer.length_slice, half, inFile, true_and, pageSize,
            Machine.take, ite_self]
          constructor
          · exact fun all => all.2.2
          · exact fun counted => ⟨by omega, by omega, counted⟩
        · rw [clean_pure]
      · rw [if_neg inFile, if_neg fun all => inFile all.2.2]
        exact and_congr_left fun _ => ⟨fun word _ _ => word, fun word => word named.1 named.2⟩
    · rw [if_neg named, clean_pure, if_neg fun all => named ⟨all.1, all.2.1⟩]
      exact (and_iff_right fun some short => absurd ⟨some, short⟩ named).symm

/-- The program headers that are copied, if they get a page, are in the file. -/
def PhdrsFit (env : Env) (file : List UInt8) (phoff phnum allocs : Nat) : Prop :=
  env.granted allocs = true → phoff + min (phnum * 56) 0x1000 ≤ file.length

theorem clean_loadPhdrs {phnum : Nat} :
    Clean (loadPhdrs env file phoff phnum) m (fun _ _ => True) ↔
      PhdrsFit env file phoff phnum m.allocs := by
  have half : phdrVirt < userEnd := by decide
  rw [loadPhdrs, clean_bind, palloc, clean_pallocN, PhdrsFit]
  by_cases granted : env.granted m.allocs = true
  · rw [if_pos granted]
    dsimp only
    by_cases inFile : phoff ≤ file.length
    · simp only [if_pos inFile, clean_bind, clean_fetch, clean_fill, clean_mapPage, clean_pure,
        List.length_replicate, Buffer.length_slice, half, pageSize, ite_self, and_true, granted,
        forall_const]
      constructor
      · exact fun all => all.2.1
      · exact fun inside => ⟨by omega, inside, by omega⟩
    · rw [if_neg inFile, clean_bind, clean_fill]
      refine iff_of_false (fun all => clean_panic all.2) fun inside => inFile ?_
      have inside := inside granted
      omega
  · rw [if_neg granted]
    exact iff_of_true (clean_pure.mpr trivial) fun isGranted => absurd isGranted granted

/-- A load that needs no page or mapping that it does not get. -/
structure Succeeds (env : Env) (file : List UInt8) (loaded : List Elf64Phdr)
    (path : Option (Nat × Nat)) (phoff phnum : Nat) : Prop where
  segments : SegmentsLoad env file loaded 1 0
  stack : StackFits env (1 + loaded.length) (totalPages loaded)
  interp : InterpFits path
  phdrs : PhdrsFit env file phoff phnum (1 + loaded.length + 1 + interpCalls file path)

theorem clean_loadInto {ehdr : Elf64Ehdr} {interp : Option (Nat × Nat)} {pml4 : Nat}
    (walk : WalkFits file ehdr.phoff ehdr.phentsize ehdr.phnum 0) (allocs : m.allocs = 1)
    (maps : m.maps = 0) :
    Clean (loadInto env file ehdr interp pml4) m (fun _ _ => True) ↔
      Succeeds env file ((headersFrom file ehdr.phoff ehdr.phentsize ehdr.phnum 0).filter Loads)
        interp ehdr.phoff ehdr.phnum := by
  simp only [loadInto, clean_bind, clean_walkHeaders, walk, true_and, clean_add64, clean_pure,
    clean_loadPhdrs]
  generalize (headersFrom file ehdr.phoff ehdr.phentsize ehdr.phnum 0) = headers
  have interpRule (top : Nat) (m : Machine) := @clean_loadInterp env file m interp fun allocs =>
    top + 0xFFF < 2 ^ 64 ∧ PhdrsFit env file ehdr.phoff ehdr.phnum allocs
  have stackRule (top : Nat) (m : Machine) := @clean_loadStack env m fun allocs _ =>
    InterpFits interp ∧ top + 0xFFF < 2 ^ 64 ∧
      PhdrsFit env file ehdr.phoff ehdr.phnum (allocs + interpCalls file interp)
  simp only [interpRule, stackRule]
  rw [@clean_loadSegments env file m (fun top allocs maps => StackFits env allocs maps ∧
    InterpFits interp ∧ top + 0xFFF < 2 ^ 64 ∧
      PhdrsFit env file ehdr.phoff ehdr.phnum (allocs + 1 + interpCalls file interp)) headers
    ⟨0, none⟩, allocs, maps]
  simp only [Nat.zero_add]
  constructor
  · rintro ⟨segments, stack, interp, -, phdrs⟩
    exact ⟨segments, stack, interp, phdrs⟩
  · rintro ⟨segments, stack, interp, phdrs⟩
    have bound := maxVaddr_le (Nat.zero_le userEnd) fun ph member => (segments.fit ph member).userHalf
    refine ⟨segments, stack, interp, ?_, phdrs⟩
    simp only [userEnd] at bound
    omega

/-- The interpreter that the first loop finds. -/
def lastInterp (headers : List Elf64Phdr) : Option (Nat × Nat) :=
  headers.foldl (fun acc ph => if ph.type = ptInterp then some (ph.offset, ph.filesz) else acc) none

theorem walk_findInterp {left i : Nat} (walk : WalkFits file phoff phentsize left i)
    (acc : Option (Nat × Nat)) :
    walkHeaders file phoff phentsize findInterp left i acc m =
      ⟨[], .ok ((headersFrom file phoff phentsize left i).foldl
        (fun acc ph => if ph.type = ptInterp then some (ph.offset, ph.filesz) else acc) acc), m⟩ := by
  induction left generalizing i acc with
  | zero => rfl
  | succ left ih =>
    obtain ⟨word, later⟩ := walk
    rw [walkHeaders, add64, if_pos (by omega), run_pure_bind, add64, if_pos word, run_pure_bind,
      headersFrom]
    split_ifs with outside
    · rfl
    · rw [List.foldl_cons, findInterp, run_pure_bind]
      exact ih (later (by omega)) _

theorem walk_wraps {left i : Nat} {acc : Option (Nat × Nat)}
    (wraps : ¬ WalkFits file phoff phentsize left i) :
    (walkHeaders file phoff phentsize findInterp left i acc m).faults ≠ [] := by
  induction left generalizing i acc with
  | zero => exact absurd trivial wraps
  | succ left ih =>
    have wrapped {α : Type} : (panic .wrapped : Load α) m = ⟨[.wrapped], .error .panicked, m⟩ := rfl
    rw [walkHeaders, add64]
    by_cases first : phoff + i * phentsize < 2 ^ 64
    · rw [if_pos first, run_pure_bind, add64]
      by_cases second : phoff + i * phentsize + 56 < 2 ^ 64
      · have inside : phoff + i * phentsize + 56 ≤ file.length := by
          by_contra outside
          exact wraps ⟨second, fun inside => absurd inside outside⟩
        rw [if_pos second, run_pure_bind, if_neg (by omega), findInterp, run_pure_bind]
        exact ih fun later => wraps ⟨second, fun _ => later⟩
      · rw [if_neg second]
        exact bind_faults (by rw [wrapped]; exact List.cons_ne_nil _ _)
    · rw [if_neg first]
      exact bind_faults (by rw [wrapped]; exact List.cons_ne_nil _ _)

/-- The program headers that the loops meet. -/
def headers (file : List UInt8) : List Elf64Phdr :=
  headersFrom file (Elf64Ehdr.parse file).phoff (Elf64Ehdr.parse file).phentsize
    (Elf64Ehdr.parse file).phnum 0

/-- The file is rejected, or no offset of a program header wraps around and, unless the
first page is refused, the load succeeds. -/
def Fits (env : Env) (file : List UInt8) : Prop :=
  rejects file = none →
    WalkFits file (Elf64Ehdr.parse file).phoff (Elf64Ehdr.parse file).phentsize
      (Elf64Ehdr.parse file).phnum 0 ∧
    (env.granted 0 = true → Succeeds env file ((headers file).filter Loads)
      (lastInterp (headers file)) (Elf64Ehdr.parse file).phoff (Elf64Ehdr.parse file).phnum)

theorem safeFrom_loadLinuxElf_iff (env : Env) (file : List UInt8) :
    SafeFrom (loadLinuxElf env file) env.start ↔ Fits env file := by
  unfold loadLinuxElf Fits
  cases rejected : rejects file with
  | some message => exact iff_of_true ⟨rfl, fun _ _ => rfl⟩ nofun
  | none =>
    dsimp only
    by_cases walk : WalkFits file (Elf64Ehdr.parse file).phoff (Elf64Ehdr.parse file).phentsize
        (Elf64Ehdr.parse file).phnum 0
    · rw [safeFrom_bind_ok (walk_findInterp walk none)]
      by_cases granted : env.granted 0 = true
      · rw [safeFrom_bind_ok (pallocOr_granted granted),
          safeFrom_iff_clean (holds_loadInto _ _ _) (List.cons_ne_nil _ _),
          clean_loadInto walk rfl rfl]
        exact ⟨fun succeeds _ => ⟨walk, fun _ => succeeds⟩, fun all => (all rfl).2 granted⟩
      · exact iff_of_true (safeFrom_bind_error (pallocOr_refused granted) rfl)
          fun _ => ⟨walk, fun isGranted => absurd isGranted granted⟩
    · exact iff_of_false (fun safe => bind_faults (walk_wraps walk) safe.1) fun all => walk (all rfl).1

end Linux

/-- Each loader is safe exactly on what fits: a load that fails behind its first pages, or
meets a segment that does not fit, is not. -/
theorem loaders_safe_iff (env : Env) (file : List UInt8) :
    (SafeFrom (Native.loadAndSpawn env file) env.start ↔ Native.Fits env file) ∧
      (SafeFrom (Linux.loadLinuxElf env file) env.start ↔ Linux.Fits env file) :=
  ⟨Native.safeFrom_loadAndSpawn_iff env file, Linux.safeFrom_loadLinuxElf_iff env file⟩

section Samples

/-- Every call succeeds. -/
def plenty : Env where
  granted _ := true
  mapped _ := true
  identity := true
  spawned := some 1
  old _ := 0xAA
  seed := 0

/-- A header of an x86-64 program with `phnum` program headers behind it. -/
def headerBytes (phnum : UInt8) : List UInt8 :=
  [0x7F, 0x45, 0x4C, 0x46, 2, 1, 1, 0, 0, 0, 0, 0, 0, 0, 0, 0, 2, 0, 62, 0, 1, 0, 0, 0] ++
    List.replicate 8 0 ++ [64, 0, 0, 0, 0, 0, 0, 0] ++ List.replicate 12 0 ++
      [64, 0, 56, 0, phnum, 0, 0, 0, 0, 0, 0, 0]

/-- A file that ends with its header: the program headers are copied from behind it. -/
theorem phdrs_read_behind_file :
    ¬ ∀ (env : Env) (file : List UInt8), SafeFrom (Native.loadAndSpawn env file) env.start ∧
      SafeFrom (Linux.loadLinuxElf env file) env.start := by
  intro claim
  have fits := (Linux.safeFrom_loadLinuxElf_iff plenty (headerBytes 1)).mp (claim _ _).2
  have accepted : Linux.rejects (headerBytes 1) = none := by decide +kernel
  have inside := ((fits accepted).2 rfl).phdrs rfl
  exact absurd inside (by decide +kernel)

end Samples

end DBSos.Elf
