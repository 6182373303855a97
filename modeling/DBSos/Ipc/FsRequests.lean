import Mathlib.Data.List.GetD
import Mathlib.Data.List.TakeWhile
import DBSos.Abi
import Mathlib.Data.List.TakeDrop

/-!
# The file system server

A request travels in one message: the operation, the path, a NUL and the payload. Whatever
does not fit is cut off on the way in, and on the way out the status byte takes the place of
one byte of a reply. The calls into the FAT layer are a parameter; a slice that is out of
bounds ends the kernel.
-/

namespace DBSos.Ipc

open DBSos.Abi

def portFilesystem : UInt16 := 2

def fsRequest : UInt16 := 0x0300

def fsReply : UInt16 := 0x0301

def fsOpLs : UInt8 := 1

def fsOpCat : UInt8 := 2

def fsOpWrite : UInt8 := 4

def fsOpMkdir : UInt8 := 5

def fsOpRm : UInt8 := 6

def fsOpRmdir : UInt8 := 7

def fsOpIsDir : UInt8 := 8

def fsOpSize : UInt8 := 9

def fsOpExists : UInt8 := 10

def fsOk : UInt8 := 0

def fsErr : UInt8 := 1

/-- What the server calls of `crate::fs`; `readFile` is the content of a file and `ls` the
console behind a listing. -/
structure FsLayer (σ : Type) where
  ls : σ → σ
  lsPath : σ → List UInt8 → σ
  readFile : σ → List UInt8 → Option (List UInt8)
  writeFile : σ → List UInt8 → List UInt8 → Bool × σ
  mkdir : σ → List UInt8 → Bool × σ
  rm : σ → List UInt8 → Bool × σ
  rmdir : σ → List UInt8 → Bool × σ
  isDir : σ → List UInt8 → Bool
  fileSize : σ → List UInt8 → Option UInt32
  findFile : σ → List UInt8 → Bool

/-- `read_file_path` refuses a file that is larger than the buffer. -/
def FsLayer.readFilePath {σ : Type} (fs : FsLayer σ) (s : σ) (path : List UInt8) (room : Nat) :
    Option (List UInt8) :=
  (fs.readFile s path).filter fun content => content.length ≤ room

/-- Bytes written one behind the other into an empty payload. -/
def fill (bytes : List UInt8) : Vector UInt8 payloadSize :=
  Vector.ofFn fun i => bytes.getD i 0

/-- The bytes that `build_request` writes. -/
def requestBytes (op : UInt8) (path payload : List UInt8) : List UInt8 :=
  let bytes := op :: path.take (payloadSize - 1)
  let bytes := if bytes.length < payloadSize then bytes ++ [0] else bytes
  bytes ++ payload.take (payloadSize - bytes.length)

/-- `build_request`. -/
def buildRequest (op : UInt8) (path payload : List UInt8) : Message :=
  let bytes := requestBytes op path payload
  { Message.empty with
    msgType := fsRequest
    dstPort := portFilesystem
    data := fill bytes
    length := bytes.length.toUInt16 }

/-- `request_path`. -/
def requestPath (data : List UInt8) : List UInt8 := (data.drop 1).takeWhile (· ≠ 0)

/-- `request_payload`: what follows the NUL, without the zeros at the end. -/
def requestPayload (data : List UInt8) : List UInt8 :=
  let pathEnd := 1 + (requestPath data).length
  if pathEnd ≥ data.length then []
  else if data.getD pathEnd 0 = 0 ∧ pathEnd + 1 < data.length then
    let payload := data.drop (pathEnd + 1)
    let stop := (payload.reverse.dropWhile (· = 0)).length
    if stop = 0 ∧ payload.all (· = 0) then []
    else payload.take (payload.length - min (payload.length - stop) payload.length)
  else []

/-- The payload of an `FS_OP_WRITE`; `none` where the message is shorter than its length. -/
def writePayload (data : List UInt8) (dataLen : Nat) : Option (List UInt8) :=
  let first := 1 + (requestPath data).length + 1
  if dataLen > first then
    if dataLen > data.length then none else some ((data.take dataLen).drop first)
  else some (requestPayload data)

theorem payloadSize_pos : 0 < payloadSize := by decide

/-- `set_status`. -/
def setStatus (m : Message) (ok : Bool) : Message :=
  { m with msgType := fsReply, data := m.data.set 0 (if ok then fsOk else fsErr) payloadSize_pos, length := 1 }

/-- `reply_payload`. -/
def replyPayload (m : Message) (payload : List UInt8) : Message :=
  let n := min payload.length (payloadSize - 1)
  { m with
    data := Vector.ofFn fun i =>
      if 1 ≤ i.val ∧ i.val < n + 1 then payload.getD (i.val - 1) 0 else m.data[i]
    length := (n + 1).toUInt16 }

/-- `ok_reply`. -/
def okReply (m : Message) (payload : List UInt8) : Message := replyPayload (setStatus m true) payload

/-- `err_reply`. -/
def errReply (m : Message) (text : List UInt8) : Message := replyPayload (setStatus m false) text

/-- The bytes of a message text. -/
def ascii (text : String) : List UInt8 := text.toUTF8.toList

/-- The arms of `handle` for a path and, where it is a write, a payload. -/
def perform {σ : Type} (fs : FsLayer σ) (op : UInt8) (path payload : List UInt8) (buff : Message)
    (s : σ) : Message × σ :=
  let done (answer : Bool × σ) (text : String) : Message × σ :=
    (if answer.1 then okReply buff [] else errReply buff (ascii text), answer.2)
  if op = fsOpLs then (okReply buff [], if path = [] then fs.ls s else fs.lsPath s path)
  else if op = fsOpCat then
    match fs.readFilePath s path payloadSize with
    | some content => (okReply buff content, s)
    | none => (errReply buff (ascii "not found"), s)
  else if op = fsOpWrite then done (fs.writeFile s path payload) "write failed"
  else if op = fsOpMkdir then done (fs.mkdir s path) "mkdir failed"
  else if op = fsOpRm then done (fs.rm s path) "rm failed"
  else if op = fsOpRmdir then done (fs.rmdir s path) "rmdir failed"
  else if op = fsOpIsDir then (okReply buff [if fs.isDir s path then 1 else 0], s)
  else if op = fsOpSize then
    match fs.fileSize s path with
    | some size =>
      (okReply buff [size.toUInt8, (size >>> 8).toUInt8, (size >>> 16).toUInt8,
        (size >>> 24).toUInt8], s)
    | none => (errReply buff (ascii "not found"), s)
  else if op = fsOpExists then (okReply buff [if fs.findFile s path then 1 else 0], s)
  else (errReply buff (ascii "bad op"), s)

/-- `handle`; only a write looks for a payload. -/
def handle {σ : Type} (fs : FsLayer σ) (op : UInt8) (data : List UInt8) (dataLen : Nat)
    (buff : Message) (s : σ) : Option (Message × σ) :=
  if op = fsOpWrite then
    (writePayload data dataLen).map fun payload =>
      perform fs op (requestPath data) payload buff s
  else some (perform fs op (requestPath data) [] buff s)

/-- One turn of `server_entry`. -/
def serve {σ : Type} (fs : FsLayer σ) (req : Message) (s : σ) : Option (Message × σ) :=
  handle fs (getElem req.data 0 payloadSize_pos) req.data.toList req.length.toNat req s

/-- `read`, over a link that delivers the request and its reply or fails. -/
def read {σ : Type} (fs : FsLayer σ) (delivers : Bool) (path : List UInt8) (room : Nat) (s : σ) :
    Option (List UInt8) :=
  if !delivers then none
  else
    (serve fs (buildRequest fsOpCat path []) s).bind fun answer =>
      let reply := answer.1
      let payloadLen := reply.length.toNat - 1
      if getElem reply.data 0 payloadSize_pos ≠ fsOk then none
      else if payloadLen > room then none
      else some ((reply.data.toList.drop 1).take payloadLen)

end DBSos.Ipc

/-!
## What the file system server understands

A path of at most 63 bytes and a payload that fits behind it come out as they went in. Longer
ones are cut off and the operation is carried out on what is left.
-/

namespace DBSos.Ipc

open DBSos.Abi

section Extraction

variable {op : UInt8} {path payload bytes : List UInt8}

/-- A filled payload ends in zeros. -/
theorem toList_fill (fits : bytes.length ≤ payloadSize) :
    (fill bytes).toList = bytes ++ List.replicate (payloadSize - bytes.length) 0 := by
  apply List.ext_getElem
  · simp [fits]
  · intro i inFill inBytes
    have bound : i < payloadSize := by simpa using inFill
    simp only [fill, Vector.getElem_toList, Vector.getElem_ofFn, List.getElem_append,
      List.getElem_replicate]
    split_ifs with within
    · exact List.getD_eq_getElem _ _ within
    · exact List.getD_eq_default _ _ (Nat.le_of_not_lt within)

/-- How the bytes of a request are laid out. -/
theorem requestBytes_eq :
    requestBytes op path payload =
      if path.length < payloadSize - 1 then
        op :: path ++ 0 :: payload.take (payloadSize - 2 - path.length)
      else op :: path.take (payloadSize - 1) := by
  unfold requestBytes
  dsimp only
  by_cases short : path.length < payloadSize - 1
  · have whole : path.take (payloadSize - 1) = path := List.take_of_length_le (Nat.le_of_lt short)
    have room : (op :: path).length < payloadSize := by
      rw [List.length_cons]
      omega
    rw [whole, if_pos room, if_pos short]
    simp only [List.length_append, List.length_cons, List.length_nil, List.append_assoc,
      List.cons_append, List.nil_append]
    congr 4
    omega
  · have full : (path.take (payloadSize - 1)).length = payloadSize - 1 := by
      rw [List.length_take]
      omega
    have filled : (op :: path.take (payloadSize - 1)).length = payloadSize := by
      rw [List.length_cons, full]
      rfl
    rw [if_neg (by omega), if_neg short, filled, Nat.sub_self, List.take_zero, List.append_nil]

theorem length_requestBytes (op : UInt8) (path payload : List UInt8) : (requestBytes op path payload).length ≤ payloadSize := by
  rw [requestBytes_eq]
  unfold payloadSize
  split_ifs with short
  · simp only [List.length_append, List.length_cons, List.length_take]
    omega
  · simp only [List.length_cons, List.length_take]
    omega

/-- The length of a request is read back. -/
theorem length_buildRequest :
    (buildRequest op path payload).length.toNat = (requestBytes op path payload).length := by
  have fits := length_requestBytes op path payload
  unfold payloadSize at fits
  change ((requestBytes op path payload).length.toUInt16).toNat = _
  simp only [Nat.toUInt16_eq, UInt16.toNat_ofNat']
  omega

theorem data_buildRequest (op : UInt8) (path payload : List UInt8) :
    (buildRequest op path payload).data.toList = requestBytes op path payload ++
      List.replicate (payloadSize - (requestBytes op path payload).length) 0 :=
  toList_fill (length_requestBytes op path payload)

/-- The server finds the first 63 bytes of the path. -/
theorem requestPath_buildRequest (op : UInt8) (payload : List UInt8) (clean : 0 ∉ path) :
    requestPath (buildRequest op path payload).data.toList = path.take (payloadSize - 1) := by
  have clear (n : Nat) : ∀ b ∈ path.take n, decide (b ≠ 0) = true := fun b member =>
    decide_eq_true fun zero => clean (zero ▸ List.mem_of_mem_take member)
  rw [data_buildRequest, requestBytes_eq]
  unfold requestPath
  by_cases short : path.length < payloadSize - 1
  · have whole := clear path.length
    rw [List.take_length] at whole
    rw [if_pos short, List.take_of_length_le (Nat.le_of_lt short), List.append_assoc,
      List.cons_append, List.drop_succ_cons, List.drop_zero, List.takeWhile_append_of_pos whole]
    simp
  · rw [if_neg short, List.cons_append, List.drop_succ_cons, List.drop_zero,
      List.takeWhile_append_of_pos (clear _)]
    simp

/-- Zeros alone are no payload. -/
theorem requestPayload_padding {data : List UInt8}
    (zeros : ∀ b ∈ data.drop (1 + (requestPath data).length), b = 0) : requestPayload data = [] := by
  have rest : ∀ b ∈ data.drop (1 + (requestPath data).length + 1), b = 0 := fun b member =>
    zeros b (by
      rw [← List.drop_drop] at member
      exact List.mem_of_mem_drop member)
  unfold requestPayload
  dsimp only
  split_ifs with outside separated blank
  · rfl
  · rfl
  · have none : (data.drop (1 + (requestPath data).length + 1)).reverse.dropWhile (· = 0) = [] :=
      List.dropWhile_eq_nil_iff.mpr fun b member =>
        decide_eq_true (rest b (List.mem_reverse.mp member))
    refine absurd ⟨?_, ?_⟩ blank
    · rw [none]
      rfl
    · exact List.all_eq_true.mpr fun b member => decide_eq_true (rest b member)
  · rfl

/-- The server finds as much of the payload as fits behind the path. -/
theorem writePayload_buildRequest (clean : 0 ∉ path) :
    writePayload (buildRequest op path payload).data.toList
        (buildRequest op path payload).length.toNat =
      some (payload.take (payloadSize - 2 - path.length)) := by
  have found := requestPath_buildRequest op payload clean
  have whole : (buildRequest op path payload).data.toList.length = payloadSize :=
    Vector.length_toList
  have data := data_buildRequest op path payload
  unfold writePayload
  dsimp only
  rw [length_buildRequest, whole, if_neg (Nat.not_lt_of_ge (length_requestBytes op path payload)), found]
  by_cases short : path.length < payloadSize - 1
  · have bytes : requestBytes op path payload =
        (op :: path ++ [0]) ++ payload.take (payloadSize - 2 - path.length) := by
      rw [requestBytes_eq, if_pos short]
      simp
    have before : (op :: path ++ [0]).length = 1 + path.length + 1 := by
      simp
      omega
    rw [List.take_of_length_le (Nat.le_of_lt short)] at found ⊢
    cases fits : payload.take (payloadSize - 2 - path.length) with
    | nil =>
      rw [fits, List.append_nil] at bytes
      rw [bytes, before, if_neg (Nat.lt_irrefl _), requestPayload_padding]
      rw [found, data, bytes]
      intro b member
      have after : 1 + path.length = (op :: path).length := Nat.add_comm _ _
      rw [List.append_assoc, after, List.drop_left] at member
      rcases List.mem_append.mp member with separator | padding
      · exact List.mem_singleton.mp separator
      · exact (List.mem_replicate.mp padding).2
    | cons first rest =>
      rw [fits] at bytes
      rw [if_pos (by rw [bytes, List.length_append, before, List.length_cons]; omega), data,
        List.take_left, bytes, ← before, List.drop_left]
  · have full : (path.take (payloadSize - 1)).length = payloadSize - 1 := by
      rw [List.length_take]
      omega
    have none : payloadSize - 2 - path.length = 0 := by
      unfold payloadSize at *
      omega
    rw [none, List.take_zero, full, if_neg (by
      have fits := length_requestBytes op path payload
      unfold payloadSize at *
      omega), requestPayload_padding]
    rw [found, full, List.drop_eq_nil_of_le (by rw [whole]; decide)]
    exact nofun

end Extraction

section Replies

variable {σ : Type} (fs : FsLayer σ) {op : UInt8} {path payload other : List UInt8} {m : Message}
  {s : σ}

theorem status_replyPayload : (replyPayload m payload).data[0] = m.data[0] := by
  simp [replyPayload]

theorem status_okReply : (okReply m payload).data[0] = fsOk := by
  unfold okReply
  rw [status_replyPayload]
  simp [setStatus]

theorem status_errReply : (errReply m payload).data[0] = fsErr := by
  unfold errReply
  rw [status_replyPayload]
  simp [setStatus]

/-- The first byte behind the status. -/
theorem first_okReply {b : UInt8} : (okReply m [b]).data[1] = b := by
  simp [okReply, replyPayload, payloadSize]

theorem fsOk_ne_fsErr : fsOk ≠ fsErr := by decide

/-- Only a write has a payload. -/
theorem perform_payload (plain : op ≠ fsOpWrite) :
    perform fs op path payload m s = perform fs op path other m s := by
  unfold perform
  simp only [if_neg plain]

/-- The operations that the server knows. -/
def Served (op : UInt8) : Prop :=
  op ∈ [fsOpLs, fsOpCat, fsOpWrite, fsOpMkdir, fsOpRm, fsOpRmdir, fsOpIsDir, fsOpSize, fsOpExists]

instance : Decidable (Served op) := inferInstanceAs (Decidable (_ ∈ _))

/-- What the server does not know it refuses. -/
theorem perform_unknown (unknown : ¬Served op) :
    perform fs op path payload m s = (errReply m (ascii "bad op"), s) := by
  simp only [Served, List.mem_cons, List.not_mem_nil, or_false, not_or] at unknown
  unfold perform
  simp only [unknown, if_false]

/-- A request is carried out on what is left of its path and payload. -/
theorem serve_buildRequest (op : UInt8) (payload : List UInt8) (s : σ) (clean : 0 ∉ path) :
    serve fs (buildRequest op path payload) s =
      some (perform fs op (path.take (payloadSize - 1))
        (payload.take (payloadSize - 2 - path.length)) (buildRequest op path payload) s) := by
  have first : (buildRequest op path payload).data[0] = op := by
    have head : (requestBytes op path payload).getD 0 0 = op := by
      rw [requestBytes_eq]
      split_ifs
      · rfl
      · rfl
    simpa only [buildRequest, fill, Vector.getElem_ofFn] using head
  unfold serve handle
  rw [first, requestPath_buildRequest op payload clean]
  split_ifs with writes
  · rw [writePayload_buildRequest clean, Option.map_some]
  · rw [perform_payload fs writes]

end Replies

end DBSos.Ipc
