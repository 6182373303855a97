import DBSos.Ipc.FsRequests

/-!
# Requests that are carried out as they were made

A request that does not fit its message is carried out on what is left of it, a reply holds one
byte less than the buffer a file was read into, and the length of a message that arrives is taken
as it stands. These are the only three ways to go wrong.
-/

namespace DBSos.Ipc

open DBSos.Abi

section Carried

variable {op : UInt8} {path payload other : List UInt8} {m : Message}

/-- Path and payload fit one message, with the NUL between them where there is room for it. -/
def Fits (path payload : List UInt8) : Prop :=
  path.length + payload.length + 2 ≤ payloadSize ∨
    path.length + 1 = payloadSize ∧ payload = []

/-- The server finds in the message what was put into it. -/
structure Extracted (op : UInt8) (path payload : List UInt8) : Prop where
  samePath : requestPath (buildRequest op path payload).data.toList = path
  samePayload : writePayload (buildRequest op path payload).data.toList
    (buildRequest op path payload).length.toNat = some payload

theorem extracted_of_fits (clean : 0 ∉ path) (fits : Fits path payload) :
    Extracted op path payload := by
  unfold Fits payloadSize at fits
  constructor
  · rw [requestPath_buildRequest op payload clean, List.take_of_length_le]
    unfold payloadSize
    omega
  · rw [writePayload_buildRequest clean]
    unfold payloadSize
    rcases fits with separated | ⟨-, rfl⟩
    · rw [List.take_of_length_le (by omega)]
    · rw [List.take_nil]

/-- Whatever the files hold, the request is carried out on the path and the payload it was made
of. -/
def Exact (op : UInt8) (path payload : List UInt8) : Prop :=
  ∀ (σ : Type) (fs : FsLayer σ) (s : σ),
    serve fs (buildRequest op path payload) s =
      some (perform fs op path payload (buildRequest op path payload) s)

/-- The request is answered with an error and leaves the files alone. -/
def Refused (op : UInt8) (path payload : List UInt8) : Prop :=
  ∀ (σ : Type) (fs : FsLayer σ) (s : σ),
    ∃ reply, serve fs (buildRequest op path payload) s = some (reply, s) ∧ reply.data[0] = fsErr

/-- The path keeps all its bytes, and so does the payload of a write. -/
def Kept (op : UInt8) (path payload : List UInt8) : Prop :=
  path.length < payloadSize ∧
    (op = fsOpWrite → payload.length ≤ payloadSize - 2 - path.length)

instance : Decidable (Kept op path payload) := inferInstanceAs (Decidable (_ ∧ _))

theorem exact_of_kept (clean : 0 ∉ path) (kept : Kept op path payload) :
    Exact op path payload := by
  intro σ fs s
  have short : path.length ≤ payloadSize - 1 := Nat.le_sub_one_of_lt kept.1
  rw [serve_buildRequest fs op payload s clean, List.take_of_length_le short]
  by_cases writes : op = fsOpWrite
  · rw [List.take_of_length_le (kept.2 writes)]
  · rw [perform_payload fs writes]

theorem refused_of_unknown (clean : 0 ∉ path) (unknown : ¬Served op) :
    Refused op path payload := fun _ fs _ =>
  ⟨_, by rw [serve_buildRequest fs op payload _ clean, perform_unknown fs unknown],
    status_errReply⟩

/-- Files on which every operation fails for one path and one payload, and for no other. -/
def decoy (path payload : List UInt8) : FsLayer (List UInt8) where
  ls _ := []
  lsPath _ p := p
  readFile _ p := if p = path then none else some []
  writeFile s p d := (decide (p ≠ path ∨ d ≠ payload), s)
  mkdir s p := (decide (p ≠ path), s)
  rm s p := (decide (p ≠ path), s)
  rmdir s p := (decide (p ≠ path), s)
  isDir _ p := decide (p ≠ path)
  fileSize _ p := if p = path then none else some 0
  findFile _ p := decide (p ≠ path)

/-- Another path or another payload is no failure there. -/
theorem status_decoy {p d s : List UInt8} (served : Served op)
    (differs : p ≠ path ∨ op = fsOpWrite ∧ d ≠ payload) :
    (perform (decoy path payload) op p d m s).1.data[0] = fsOk := by
  simp only [Served, List.mem_cons, List.not_mem_nil, or_false] at served
  have elsewhere : op ≠ fsOpWrite → p ≠ path := fun plain =>
    differs.resolve_right fun writes => plain writes.1
  rcases served with rfl | rfl | rfl | rfl | rfl | rfl | rfl | rfl | rfl
  all_goals
    try have away := elsewhere (by decide)
  · exact status_okReply
  · simp [perform, decoy, FsLayer.readFilePath, away, fsOpLs, fsOpCat, Option.filter, status_okReply]
  · have another : p ≠ path ∨ d ≠ payload := differs.imp_right And.right
    simp [perform, decoy, another, fsOpLs, fsOpCat, fsOpWrite, status_okReply]
  all_goals
    simp [perform, decoy, away, fsOpLs, fsOpCat, fsOpWrite, fsOpMkdir, fsOpRm, fsOpRmdir,
      fsOpIsDir, fsOpSize, fsOpExists, status_okReply]

/-- That operation is not the one that was asked for. -/
theorem perform_decoy_ne {p d s : List UInt8} (served : Served op)
    (differs : p ≠ path ∨ op = fsOpWrite ∧ d ≠ payload) :
    perform (decoy path payload) op p d m s ≠ perform (decoy path payload) op path payload m s := by
  intro same
  have succeeds := status_decoy (m := m) (s := s) served differs
  rw [same] at succeeds
  have state := congrArg Prod.snd same
  have first := congrArg (fun answer => answer.1.data[1]) same
  simp only [Served, List.mem_cons, List.not_mem_nil, or_false] at served
  have elsewhere : op ≠ fsOpWrite → p ≠ path := fun plain =>
    differs.resolve_right fun writes => plain writes.1
  have fails (text : List UInt8) : (errReply m text).data[0] ≠ fsOk := by
    rw [status_errReply]
    exact fsOk_ne_fsErr.symm
  rcases served with rfl | rfl | rfl | rfl | rfl | rfl | rfl | rfl | rfl
  · have away := elsewhere (by decide)
    have listed (q : List UInt8) : (if q = [] then [] else q) = q := by
      split_ifs with root
      · exact root.symm
      · rfl
    refine away ?_
    simpa [perform, decoy, listed] using state
  · exact fails _ (by simpa [perform, decoy, FsLayer.readFilePath, fsOpLs, fsOpCat] using succeeds)
  · exact fails _ (by simpa [perform, decoy, fsOpLs, fsOpCat, fsOpWrite] using succeeds)
  · exact fails _ (by
      simpa [perform, decoy, fsOpLs, fsOpCat, fsOpWrite, fsOpMkdir] using succeeds)
  · exact fails _ (by
      simpa [perform, decoy, fsOpLs, fsOpCat, fsOpWrite, fsOpMkdir, fsOpRm] using succeeds)
  · exact fails _ (by
      simpa [perform, decoy, fsOpLs, fsOpCat, fsOpWrite, fsOpMkdir, fsOpRm, fsOpRmdir]
        using succeeds)
  · have away := elsewhere (by decide)
    simp [perform, decoy, fsOpLs, fsOpCat, fsOpWrite, fsOpMkdir, fsOpRm, fsOpRmdir, fsOpIsDir,
      away, first_okReply] at first
  · exact fails _ (by
      simpa [perform, decoy, fsOpLs, fsOpCat, fsOpWrite, fsOpMkdir, fsOpRm, fsOpRmdir, fsOpIsDir,
        fsOpSize] using succeeds)
  · have away := elsewhere (by decide)
    simp [perform, decoy, fsOpLs, fsOpCat, fsOpWrite, fsOpMkdir, fsOpRm, fsOpRmdir, fsOpIsDir,
      fsOpSize, fsOpExists, away, first_okReply] at first

/-- What is not kept is carried out all the same. -/
theorem exact_or_refused_iff (clean : 0 ∉ path) :
    Exact op path payload ∨ Refused op path payload ↔ Kept op path payload ∨ ¬Served op := by
  constructor
  · contrapose!
    rintro ⟨lost, served⟩
    have differs : path.take (payloadSize - 1) ≠ path ∨
        op = fsOpWrite ∧ payload.take (payloadSize - 2 - path.length) ≠ payload := by
      by_contra same
      simp only [not_or, not_and, not_not, List.take_eq_self_iff] at same
      refine lost ⟨?_, same.2⟩
      have short := same.1
      unfold payloadSize at *
      omega
    have answer := serve_buildRequest (decoy path payload) op payload [] clean
    constructor
    · intro exact
      rw [exact _ (decoy path payload) []] at answer
      exact perform_decoy_ne served differs (Option.some.inj answer).symm
    · intro refused
      obtain ⟨reply, sent, status⟩ := refused _ (decoy path payload) []
      rw [sent] at answer
      have succeeds := status_decoy (m := buildRequest op path payload) (s := []) served differs
      rw [← Option.some.inj answer, status] at succeeds
      exact fsOk_ne_fsErr succeeds.symm
  · rintro (kept | unknown)
    · exact .inl (exact_of_kept clean kept)
    · exact .inr (refused_of_unknown clean unknown)

end Carried

section Received

variable {σ : Type} (fs : FsLayer σ) {m : Message} {s : σ}

/-- The length of a message is only used for a write, and there it has to end inside the
message or before the payload. -/
def Bounded (m : Message) : Prop :=
  m.data[0] = fsOpWrite →
    m.length.toNat ≤ payloadSize ∨ m.length.toNat ≤ 2 + (requestPath m.data.toList).length

theorem serve_isSome_iff : (serve fs m s).isSome ↔ Bounded m := by
  have whole : m.data.toList.length = payloadSize := Vector.length_toList
  unfold serve handle Bounded
  split_ifs with writes
  · rw [Option.isSome_map, writePayload, whole]
    split_ifs with beyond outside
    · simp only [Option.isSome_none, Bool.false_eq_true, false_iff]
      intro bounded
      have := bounded writes
      omega
    · simp only [Option.isSome_some, true_iff]
      exact fun _ => .inl (Nat.le_of_not_lt outside)
    · simp only [Option.isSome_some, true_iff]
      intro _
      right
      omega
  · simp [writes]

end Received

section Reading

variable {σ : Type} (fs : FsLayer σ) {path content : List UInt8} {room : Nat} {s : σ}

theorem length_replyPayload {m : Message} {payload : List UInt8} :
    (replyPayload m payload).length.toNat = min payload.length (payloadSize - 1) + 1 := by
  unfold replyPayload
  dsimp only
  simp only [Nat.toUInt16_eq, UInt16.toNat_ofNat']
  unfold payloadSize
  omega

/-- A reply carries the first 63 bytes. -/
theorem payload_replyPayload {m : Message} {payload : List UInt8} :
    ((replyPayload m payload).data.toList.drop 1).take
      (min payload.length (payloadSize - 1)) = payload.take (payloadSize - 1) := by
  apply List.ext_getElem
  · have whole : (replyPayload m payload).data.toList.length = payloadSize := Vector.length_toList
    rw [List.length_take, List.length_drop, whole, List.length_take]
    omega
  · intro i inReply inPayload
    rw [List.length_take] at inPayload
    have bound : 1 + i < min payload.length (payloadSize - 1) + 1 := by omega
    simp only [List.getElem_take, List.getElem_drop, Vector.getElem_toList, replyPayload,
      Vector.getElem_ofFn]
    rw [if_pos ⟨Nat.le_add_right 1 i, bound⟩, Nat.add_sub_cancel_left]
    exact List.getD_eq_getElem _ _ _

/-- What the caller of a read is given. -/
theorem read_eq (clean : 0 ∉ path) :
    read fs true path room s =
      ((fs.readFilePath s (path.take (payloadSize - 1)) payloadSize).filter fun content =>
        min content.length (payloadSize - 1) ≤ room).map fun content =>
          content.take (payloadSize - 1) := by
  have known : ¬fsOpCat = fsOpLs := by decide
  unfold read
  rw [if_neg (by decide), serve_buildRequest fs fsOpCat [] s clean, Option.bind_some, perform, if_neg known,
    if_pos rfl]
  cases fs.readFilePath s (path.take (payloadSize - 1)) payloadSize with
  | none =>
    dsimp only
    rw [status_errReply, if_pos fsOk_ne_fsErr.symm]
    rfl
  | some content =>
    dsimp only
    rw [status_okReply, if_neg (not_not.mpr rfl), okReply, length_replyPayload,
      Nat.add_sub_cancel, payload_replyPayload]
    simp only [Option.filter, decide_eq_true_eq]
    split_ifs with tight room
    · omega
    · rfl
    · rfl
    · omega

/-- The link fails, or the file that is found has no more than the reply can carry: 63 bytes, and
a file of 64 is cut unless the caller has no room for 63. A path that was cut finds another file,
which has to agree with the one asked for. -/
def Undivided (delivers : Bool) (path : List UInt8) (room : Nat) (s : σ) : Prop :=
  delivers = true →
    (path.length < payloadSize → ∀ content, fs.readFile s path = some content →
      content.length = payloadSize → room < payloadSize - 1) ∧
    (payloadSize ≤ path.length → ∀ content,
      fs.readFile s (path.take (payloadSize - 1)) = some content →
      content.length ≤ payloadSize → min content.length (payloadSize - 1) ≤ room →
      fs.readFile s path = some (content.take (payloadSize - 1)))

/-- A read gives the first 63 bytes of what it finds, if it gives anything. -/
theorem read_content (clean : 0 ∉ path) :
    read fs true path room s = none ∨ read fs true path room s = fs.readFile s path ↔
      ∀ content, fs.readFile s (path.take (payloadSize - 1)) = some content →
        content.length ≤ payloadSize → min content.length (payloadSize - 1) ≤ room →
        fs.readFile s path = some (content.take (payloadSize - 1)) := by
  rw [read_eq fs clean, FsLayer.readFilePath]
  cases fs.readFile s (path.take (payloadSize - 1)) with
  | none => simp
  | some content =>
    simp only [Option.filter, decide_eq_true_eq, Option.some.injEq, forall_eq']
    split_ifs with small
    · simp only [small, forall_const]
      split_ifs with enough
      · simp only [enough, forall_const, Option.map_some, reduceCtorEq, false_or]
        exact eq_comm
      · simp [enough]
    · simp [small]

theorem read_iff {delivers : Bool} (clean : 0 ∉ path) :
    read fs delivers path room s = none ∨ read fs delivers path room s = fs.readFile s path ↔
      Undivided fs delivers path room s := by
  unfold Undivided
  cases delivers with
  | false => simp [read]
  | true =>
    refine (read_content fs clean).trans (Iff.trans ?_ (forall_prop_of_true rfl).symm)
    by_cases short : path.length < payloadSize
    · rw [List.take_of_length_le (Nat.le_sub_one_of_lt short)]
      simp only [short, Nat.not_le_of_gt short, forall_const, IsEmpty.forall_iff, and_true]
      refine forall₂_congr fun content found => ?_
      rw [found, Option.some.injEq, eq_comm, List.take_eq_self_iff]
      unfold payloadSize
      omega
    · simp only [short, Nat.le_of_not_lt short, forall_const, IsEmpty.forall_iff, true_and]

/-- A request that fits is extracted as it was made. It is carried out exactly or refused if and
only if nothing of it is cut; a message is answered if and only if its length is in bounds; a read
gives the file or nothing if and only if the reply can carry it. -/
theorem requests_whole_iff (clean : 0 ∉ path) :
    (∀ op payload, Fits path payload → Extracted op path payload) ∧
    (∀ op payload, Exact op path payload ∨ Refused op path payload ↔
      Kept op path payload ∨ ¬Served op) ∧
    (∀ (σ : Type) (fs : FsLayer σ) (m : Message) (s : σ), (serve fs m s).isSome ↔ Bounded m) ∧
    ∀ (σ : Type) (fs : FsLayer σ) (delivers : Bool) (room : Nat) (s : σ),
      read fs delivers path room s = none ∨ read fs delivers path room s = fs.readFile s path ↔
        Undivided fs delivers path room s :=
  ⟨fun _ _ => extracted_of_fits clean, fun _ _ => exact_or_refused_iff clean,
    fun _ fs _ _ => serve_isSome_iff fs, fun _ fs _ _ _ => read_iff fs clean⟩

/-- A path of one byte. -/
theorem requests_whole_short :
    (0 : UInt8) ∉ ([97] : List UInt8) ∧
      (Exact fsOpMkdir [97] [] ∨ Refused fsOpMkdir [97] [] ↔
        Kept fsOpMkdir [97] [] ∨ ¬Served fsOpMkdir) :=
  ⟨by decide, (requests_whole_iff (show (0 : UInt8) ∉ [97] by decide)).2.1 _ _⟩

/-- Files that hold 64 bytes under every path. -/
def fullFiles : FsLayer Unit where
  ls s := s
  lsPath s _ := s
  readFile _ _ := some (List.replicate payloadSize 1)
  writeFile s _ _ := (false, s)
  mkdir s _ := (false, s)
  rm s _ := (false, s)
  rmdir s _ := (false, s)
  isDir _ _ := false
  fileSize _ _ := none
  findFile _ _ := false

/-- A path of 64 bytes makes the directory of its first 63, a write whose length is 66 ends the
kernel, and a file of 64 bytes is read as 63. -/
theorem cut_requests :
    ¬(Exact fsOpMkdir (List.replicate 64 97) [] ∨ Refused fsOpMkdir (List.replicate 64 97) []) ∧
    serve fullFiles { buildRequest fsOpWrite [97] [] with length := 66 } () = none ∧
    read fullFiles true [97] payloadSize () = some (List.replicate 63 1) := by
  refine ⟨?_, ?_, ?_⟩
  · rw [exact_or_refused_iff (by decide)]
    decide
  · decide +kernel
  · decide +kernel

end Reading

end DBSos.Ipc
