import Mathlib.Algebra.GroupWithZero.Nat
import Mathlib.Data.List.Basic

/-!
# Receiving a response

`http_recv_full` gathers what comes in, looks for the end of the header, and takes the body out of
its chunks when the header mentions them. Chunk sizes are added up in `usize` without tests; an
overflow stops the kernel, which is `none` here.
-/

namespace DBSos.Net.Wget

/-- The bytes of the raw buffer. -/
def rawSize : Nat := 66560

/-- One turn of the receiving loop before its deadline: what `recv` has, whether the connection is
still open behind it, and what comes in the rest of the time if it is not. -/
structure Turn where
  data : List UInt8
  isOpen : Bool
  rest : List (List UInt8)

/-- What there is room for is appended. -/
def gather (raw data : List UInt8) : List UInt8 := raw ++ data.take (rawSize - raw.length)

/-- The loop behind a FIN, up to the first `recv` with nothing. -/
def drain (raw : List UInt8) : List (List UInt8) → List UInt8
  | [] => raw
  | [] :: _ => raw
  | data :: rest => drain (gather raw data) rest

/-- The receiving loop, up to the deadline. -/
def receive (raw : List UInt8) : List Turn → List UInt8
  | [] => raw
  | turn :: later =>
    let raw := gather raw turn.data
    if turn.data ≠ [] ∧ raw.length ≥ rawSize then raw
    else if turn.isOpen = false ∧ (turn.data = [] ∨ raw ≠ []) then drain raw turn.rest
    else receive raw later

/-- The place behind the first empty line. -/
def headerEnd : List UInt8 → Option Nat
  | a :: b :: c :: d :: rest =>
    if a = 0x0D ∧ b = 0x0A ∧ c = 0x0D ∧ d = 0x0A then some 4
    else (headerEnd (b :: c :: d :: rest)).map (· + 1)
  | _ => none

/-- The three digits of the status, in a text of twelve bytes or more that starts with `H`. -/
def parseStatus (raw : List UInt8) : Nat :=
  if 12 ≤ raw.length ∧ raw.head? = some 0x48 then
    ((raw.drop 9).take 3).foldl
      (fun v c => if 0x30 ≤ c ∧ c ≤ 0x39 then v * 10 + (c - 0x30).toNat else v) 0
  else 0

/-- `chunked`, in the case that `| 0x20` makes of a letter. -/
def chunkedWord : List UInt8 := [0x63, 0x68, 0x75, 0x6E, 0x6B, 0x65, 0x64]

/-- The word stands somewhere in the header. -/
def mentionsChunked (header : List UInt8) : Bool :=
  (List.range (header.length - 7)).any fun i =>
    ((header.drop i).take 7).map (· ||| 0x20) = chunkedWord

/-- A line up to the first CRLF, and what stands behind it. -/
def splitLine : List UInt8 → Option (List UInt8 × List UInt8)
  | a :: b :: rest =>
    if a = 0x0D ∧ b = 0x0A then some ([], rest)
    else (splitLine (b :: rest)).map fun split => (a :: split.1, split.2)
  | _ => none

/-- The value of a hex digit. -/
def hexDigit (c : UInt8) : Option Nat :=
  if 0x30 ≤ c ∧ c ≤ 0x39 then some (c - 0x30).toNat
  else if 0x61 ≤ (c ||| 0x20) ∧ (c ||| 0x20) ≤ 0x66 then some ((c ||| 0x20) - 0x61 + 10).toNat
  else none

/-- The size on a line, up to a semicolon; bytes that are no digits are passed over. -/
def chunkSize (len : Nat) : List UInt8 → Option Nat
  | [] => some len
  | c :: rest =>
    match hexDigit c with
    | some d => if len * 16 + d < 2 ^ 64 then chunkSize (len * 16 + d) rest else none
    | none => if c = 0x3B then some len else chunkSize len rest

/-- Two bytes are passed over if the first is a CR. -/
def skipEnd : List UInt8 → List UInt8
  | 0x0D :: _ :: rest => rest
  | rest => rest

theorem length_splitLine {text line rest : List UInt8} (split : splitLine text = some (line, rest)) :
    text.length = line.length + 2 + rest.length := by
  induction text generalizing line with
  | nil => cases split
  | cons a tail ih =>
    cases tail with
    | nil => cases split
    | cons b tail =>
      unfold splitLine at split
      split_ifs at split with ends
      · obtain ⟨rfl, rfl⟩ := Prod.mk.inj (Option.some.inj split)
        simp only [List.length_cons, List.length_nil]
        omega
      · obtain ⟨⟨line', rest'⟩, later, same⟩ := Option.map_eq_some_iff.mp split
        obtain ⟨rfl, rfl⟩ := Prod.mk.inj same
        have lengths := ih later
        simp only [List.length_cons] at lengths ⊢
        omega

theorem length_skipEnd_le (text : List UInt8) : (skipEnd text).length ≤ text.length := by
  unfold skipEnd
  split <;> simp; omega

/-- The loop over the chunks, with what stands in the body from its position on, and the room left.
The position itself is what the body of `size` bytes has in front of the rest. -/
def decodeChunks (size : Nat) (text : List UInt8) (room : Nat) : Option (List UInt8) :=
  if text = [] ∨ room = 0 then some []
  else
    match _split : splitLine text with
    | none => some []
    | some (line, rest) =>
      match chunkSize 0 line with
      | none => none
      | some 0 => some []
      | some len =>
        -- `p += len` and `p + 1`
        if size - rest.length + len + 1 < 2 ^ 64 then
          let take := min (min len rest.length) room
          if take < len then some (rest.take take)
          else
            (decodeChunks size (skipEnd (rest.drop len)) (room - take)).map
              (rest.take take ++ ·)
        else none
termination_by text.length
decreasing_by
  have lengths := length_splitLine _split
  have shorter := length_skipEnd_le (rest.drop len)
  rw [List.length_drop] at shorter
  omega

/-- What `http_recv_full` leaves: the bytes of the body, the status and the bytes of the header. -/
structure Received where
  body : List UInt8
  status : Nat
  header : List UInt8
deriving DecidableEq

/-- `http_recv_full`, with buffers of two sizes. -/
def httpRecvFull (turns : List Turn) (bodyRoom headerRoom : Nat) : Option Received :=
  let raw := receive [] turns
  match headerEnd raw with
  | none => some ⟨[], 0, []⟩
  | some hdrEnd =>
    let bodyRaw := raw.drop hdrEnd
    let body := if mentionsChunked (raw.take hdrEnd) then
        decodeChunks bodyRaw.length bodyRaw bodyRoom
      else some (bodyRaw.take bodyRoom)
    body.map fun body => ⟨body, parseStatus raw, (raw.take hdrEnd).take headerRoom⟩

end DBSos.Net.Wget
