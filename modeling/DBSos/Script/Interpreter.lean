import DBSos.Lib.Pieces

/-!
# Shell scripts

How `script.rs` finds words and keywords in the bytes of a line, and which variables it knows.
Positions count from 0 and 0 stands for a keyword that was not found; a slice that is out of
bounds ends the kernel.
-/

namespace DBSos.Script

open DBSos.Lib

abbrev Bytes := List UInt8

def kwIf : Bytes := [105, 102]

def kwThen : Bytes := [116, 104, 101, 110]

def kwElif : Bytes := [101, 108, 105, 102]

def kwElse : Bytes := [101, 108, 115, 101]

def kwFi : Bytes := [102, 105]

def kwFor : Bytes := [102, 111, 114]

def kwIn : Bytes := [105, 110]

def kwDo : Bytes := [100, 111]

def kwDone : Bytes := [100, 111, 110, 101]

/-- What `trim` strips: spaces, tabs, line ends and semicolons. -/
def isBlank (c : UInt8) : Bool := c = 32 || c = 9 || c = 10 || c = 13 || c = 59

/-- Where `exec_block` cuts. -/
def isBreak (c : UInt8) : Bool := c = 10 || c = 59

/-- What ends a word. -/
def isGap (c : UInt8) : Bool := c = 32 || c = 9 || c = 10 || c = 59

def isDigit (c : UInt8) : Bool := 48 ≤ c && c ≤ 57

def isLetter (c : UInt8) : Bool := 65 ≤ c && c ≤ 90 || 97 ≤ c && c ≤ 122

/-- `is_ascii_alphanumeric`. -/
def isAlnum (c : UInt8) : Bool := isDigit c || isLetter c

/-- `&s[lo..hi]`. -/
def slice (s : Bytes) (lo hi : Nat) : Option Bytes :=
  if lo ≤ hi ∧ hi ≤ s.length then some ((s.take hi).drop lo) else none

/-- `starts_with_word`. -/
def startsWithWord (s word : Bytes) : Bool :=
  word.isPrefixOf s && ((s.drop word.length).head?.all fun c => !isAlnum c)

/-- `first_word`. -/
def firstWord (s : Bytes) : Bytes := (trim isBlank s).takeWhile fun c => !isGap c

/-- `skip_first_word`. -/
def skipFirstWord (s : Bytes) : Bytes :=
  ((trim isBlank s).dropWhile fun c => !isGap c).dropWhile isGap

/-- `skip_keyword_text`. -/
def skipKeywordText (s keyword : Bytes) : Nat :=
  min s.length keyword.length + ((s.drop keyword.length).takeWhile isGap).length

/-- `find_keyword`. -/
def findKeyword (s keyword : Bytes) : Nat :=
  ((List.range s.length).find? fun i =>
    (i = 0 || !isAlnum (s.getD (i - 1) 0)) && startsWithWord (s.drop i) keyword).getD 0

/-- The loop of `find_if_parts`, with as many turns as the text has bytes. -/
def findIfPartsLoop (s : Bytes) : Nat → Nat → Nat → Nat → Nat → Nat × Nat × Nat
  | 0, _, _, elifPos, elsePos => (elifPos, elsePos, 0)
  | n + 1, i, depth, elifPos, elsePos =>
    let rest := s.drop i
    if s.length ≤ i then (elifPos, elsePos, 0)
    else if startsWithWord rest kwIf then
      findIfPartsLoop s n (i + 2) (depth + 1) elifPos elsePos
    else if startsWithWord rest kwFi then
      if depth = 0 then (elifPos, elsePos, i)
      else findIfPartsLoop s n (i + 2) (depth - 1) elifPos elsePos
    else if startsWithWord rest kwElif && depth = 1 && elifPos = 0 then
      findIfPartsLoop s n (i + 4) depth i elsePos
    else if startsWithWord rest kwElse && depth = 1 && elsePos = 0 then
      findIfPartsLoop s n (i + 4) depth elifPos i
    else findIfPartsLoop s n (i + 1) depth elifPos elsePos

/-- `find_if_parts`: the positions of `elif`, `else` and `fi`. -/
def findIfParts (s : Bytes) : Nat × Nat × Nat :=
  let found := findIfPartsLoop s s.length 0 0 0 0
  (found.1, found.2.1, if found.2.2 = 0 then s.length else found.2.2)

/-- `trim_end_fi`. -/
def trimEndFi (s : Bytes) : Bytes :=
  let s := trim isBlank s
  if s.length ≥ 2 ∧ s.drop (s.length - 2) = kwFi then s.take (s.length - 2) else s

/-! ## Variables -/

/-- `nul_term`. -/
def cstr (s : Bytes) : Bytes := s.takeWhile (· ≠ 0)

/-- `ENV_NAMES` and `ENV_VALS` up to `ENV_COUNT`. -/
abbrev Env := List (Bytes × Bytes)

/-- `get_var`. -/
def getVar (env : Env) (name : Bytes) : Option Bytes :=
  (env.find? fun entry => entry.1 = cstr name).map Prod.snd

/-- `set_var`; `copy_slice` keeps 31 bytes of a name and 127 of a value. -/
def setVar (env : Env) (name value : Bytes) : Env :=
  let stored := cstr (value.take 127)
  match env.findIdx? fun entry => entry.1 = cstr name with
  | some i => env.modify i fun entry => (entry.1, stored)
  | none => if env.length ≥ 64 then env else env ++ [(cstr (name.take 31), stored)]

/-- `u32_to_str`. -/
def digits (n : Nat) : Bytes := (Nat.toDigits 10 n).map fun c => c.toNat.toUInt8

/-- `expand_vars` into a buffer with `room` bytes left; the first number bounds its turns. -/
def expandLoop (env : Env) (lastExit : UInt32) : Nat → Nat → Bytes → Bytes
  | 0, _, _ => []
  | _, _, [] => []
  | n + 1, room, c :: rest =>
    let put (bytes tail : Bytes) : Bytes :=
      bytes.take room ++ expandLoop env lastExit n (room - bytes.length) tail
    if room = 0 then []
    else
      match decide (c = 36), rest with
      | true, d :: tail =>
        if d = 63 then put (digits lastExit.toNat) tail
        else if d = 36 then put (digits 1) tail
        else if isDigit d then put [] tail
        else if d = 123 then
          let name := tail.takeWhile (· ≠ 125)
          if name.length < tail.length then
            put ((getVar env name).getD []) (tail.drop (name.length + 1))
          else []
        else if isLetter d || d = 95 then
          let name := rest.takeWhile fun b => isAlnum b || b = 95
          put ((getVar env name).getD []) (rest.drop name.length)
        else put [36] rest
      | _, _ => put [c] rest

/-- `expand_vars` into a buffer of 1024 bytes. -/
def expandVars (env : Env) (lastExit : UInt32) (input : Bytes) : Bytes :=
  expandLoop env lastExit input.length 1023 input

end DBSos.Script

/-!
## The script interpreter

`exec_line` runs one line, which may be a whole `if` or `for`; `exec_block` cuts a body into
lines. What a simple command does is a parameter that takes the state to an exit code and the
next state; the shell keeps a log of the commands it has run. The calls nest as deep as the
first argument of `execLine` allows.
-/

namespace DBSos.Script

open DBSos.Lib

/-- The variables, `LAST_EXIT_CODE` and everything else. -/
structure Machine (σ : Type) where
  env : Env
  lastExit : UInt32
  world : σ

/-- The machine and the commands run so far. -/
@[ext]
structure Shell (σ : Type) where
  machine : Machine σ
  log : List Bytes

/-- `tokenize` and `exec_single`. -/
abbrev Command (σ : Type) := Bytes → Machine σ → UInt32 × Machine σ

/-- A way to run a text, which may not come to an end. -/
abbrev Runner (σ : Type) := Bytes → Shell σ → Option (UInt32 × Shell σ)

variable {σ : Type}

/-- One simple command, its code kept by `set_last_exit`. -/
def issue (command : Command σ) (text : Bytes) (s : Shell σ) : UInt32 × Shell σ :=
  let answer := command text s.machine
  (answer.1,
    { machine := { answer.2 with lastExit := answer.1 }, log := s.log ++ [text] })

/-- The loop of `exec_block` that finds the next line, with as many turns as there are bytes. -/
def blockLines : Nat → Bytes → List Bytes
  | 0, _ => []
  | n + 1, b =>
    let b := b.dropWhile fun c => isBreak c || c = 13
    let line := trim isBlank (b.takeWhile fun c => !isBreak c)
    let later := blockLines n (b.dropWhile fun c => !isBreak c)
    if b.isEmpty then [] else if line.isEmpty then later else line :: later

/-- `exec_block`, over a way to run its lines. -/
def execBlock (line : Runner σ) (body : Bytes) (s : Shell σ) : Option (UInt32 × Shell σ) :=
  let b := trim isBlank body
  (blockLines b.length b).foldlM (fun last text => line text last.2) (0, s)

/-- The `elif` of `exec_if`: what it returns, or the state in which `else` goes on. -/
def execElif (line : Runner σ) (rest : Bytes) (elifPos elsePos fiPos : Nat) (s : Shell σ) :
    Option (Option UInt32 × Shell σ) :=
  let elifText := rest.drop elifPos
  let elifThen := findKeyword elifText kwThen
  let stop := if elsePos > 0 then elsePos else fiPos
  if elifPos = 0 ∨ elifThen = 0 then some (none, s)
  else if stop < elifPos then none
  else
    (slice (elifText.drop elifThen) (skipKeywordText (elifText.drop elifThen) kwThen)
        (stop - elifPos)).bind fun body =>
      (line (trim isBlank (elifText.take elifThen)) s).bind fun tested =>
        if tested.1 = 0 ∧ ¬(trim isBlank body).isEmpty then
          (execBlock line (trim isBlank body) tested.2).map fun ran => (some ran.1, ran.2)
        else some (none, tested.2)

/-- The `else` of `exec_if`. -/
def execElse (line : Runner σ) (rest : Bytes) (elsePos : Nat) (s : Shell σ) :
    Option (UInt32 × Shell σ) :=
  let body := trimEndFi (trim isBlank ((rest.drop elsePos).drop 4))
  if elsePos = 0 ∨ body.isEmpty then some (0, s) else execBlock line body s

/-- `exec_if`. -/
def execIf (line : Runner σ) (text : Bytes) (s : Shell σ) : Option (UInt32 × Shell σ) :=
  let afterIf := skipFirstWord text
  let thenPos := findKeyword afterIf kwThen
  let rest := afterIf.drop thenPos
  let parts := findIfParts rest
  if thenPos = 0 then some (1, s)
  else
    (line (trim isBlank (afterIf.take thenPos)) s).bind fun tested =>
      if tested.1 = 0 then
        let bodyEnd := if parts.1 > 0 then parts.1 else if parts.2.1 > 0 then parts.2.1 else parts.2.2
        (slice rest (skipKeywordText rest kwThen) bodyEnd).bind fun body =>
          if (trim isBlank body).isEmpty then some (0, tested.2)
          else execBlock line (trim isBlank body) tested.2
      else
        (execElif line rest parts.1 parts.2.1 parts.2.2 tested.2).bind fun tried =>
          match tried.1 with
          | some code => some (code, tried.2)
          | none => execElse line rest parts.2.1 tried.2

/-- The items of a `for`: at most 32, each of at most 63 bytes. -/
def forItems (list : Bytes) : List Bytes :=
  (((list.splitOnP (· = 32)).filter fun item => !item.isEmpty).take 32).map fun item =>
    cstr (item.take 63)

def Shell.setVar (s : Shell σ) (name value : Bytes) : Shell σ :=
  { s with machine := { s.machine with env := Script.setVar s.machine.env name value } }

/-- `exec_for`. -/
def execFor (line : Runner σ) (text : Bytes) (s : Shell σ) : Option (UInt32 × Shell σ) :=
  let afterFor := skipFirstWord text
  let name := firstWord afterFor
  let afterIn := skipFirstWord (trim isBlank (skipFirstWord afterFor))
  let doPos := findKeyword afterIn kwDo
  let rest := afterIn.drop doPos
  let bodyStart := skipKeywordText rest kwDo
  if name.isEmpty then some (1, s)
  else if doPos = 0 then some (1, s)
  else
    let found :=
      if findKeyword rest kwDone > 0 then slice rest bodyStart doPos else some (rest.drop bodyStart)
    found.bind fun body =>
      let body := trim isBlank body
      ((forItems (trim isBlank (afterIn.take doPos))).foldlM (fun s item =>
          let s := s.setVar name item
          if body.isEmpty then some s else (execBlock line body s).map Prod.snd) s).map fun s =>
        (s.machine.lastExit, s)

/-- `exec_single_line`. -/
def execSingleLine (command : Command σ) (line : Runner σ) (raw : Bytes) (s : Shell σ) :
    Option (UInt32 × Shell σ) :=
  let text := trim isBlank raw
  if text.isEmpty then some (0, s)
  else if startsWithWord text kwIf then execIf line text s
  else if startsWithWord text kwFor then execFor line text s
  else some (issue command text s)

/-- The parts of a pipe: at most eight, each in a buffer of 256 bytes. -/
def pipeParts (text : Bytes) : List Bytes :=
  let parts := text.splitOnP (· = 124)
  let parts := if parts.getLast? = some [] then parts.dropLast else parts
  (parts.take 8).map fun part => (part.take 255).rightpad 256 0

/-- `exec_line`, over a way to run the lines inside it. -/
def execLineWith (command : Command σ) (line : Runner σ) (raw : Bytes) (s : Shell σ) :
    Option (UInt32 × Shell σ) :=
  let text := trim isBlank (raw.takeWhile (· ≠ 35))
  if text.isEmpty then some (0, s)
  else
    let text := expandVars s.machine.env s.machine.lastExit text
    let parts := pipeParts text
    if parts.length > 1 then
      parts.foldlM (fun last part => execSingleLine command line part last.2) (0, s)
    else execSingleLine command line text s

/-- `exec_line`. -/
def execLine (command : Command σ) : Nat → Runner σ
  | 0 => fun _ _ => none
  | n + 1 => execLineWith command (execLine command n)

/-- `run_script`, from what `vfs::read` gives of the file. -/
def runScript (command : Command σ) (depth : Nat) (file : Option Bytes) (s : Shell σ) :
    Option (UInt32 × Shell σ) :=
  match file with
  | none => some (1, s)
  | some content =>
    if content.isEmpty then some (1, s)
    else execBlock (execLine command depth) (content.take 8192) s

end DBSos.Script
