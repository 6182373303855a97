import DBSos.Script.Interpreter

/-!
# What a script means

The grammar of commands, `if` and `for`, the commands that it selects, and the pieces between
separators in which a program can be written. The meaning knows nothing of bytes: a command is
its function of the state.
-/

namespace DBSos.Script

open DBSos.Lib

mutual

/-- A list of commands and blocks. -/
inductive Program where
  | nil
  | simple (text : Bytes) (rest : Program)
  | ifThen (test : Bytes) (body : Program) (tail : Tail) (rest : Program)
  | forIn (name : Bytes) (items : List Bytes) (body : Program) (rest : Program)

/-- How an `if` goes on after its first body. -/
inductive Tail where
  | fi
  | otherwise (body : Program)
  | elif (test : Bytes) (body : Program) (tail : Tail)

end

section Meaning

variable {σ : Type} (command : Command σ)

mutual

/-- The commands that the grammar selects, in order. -/
def Program.run : Program → Shell σ → Shell σ
  | .nil, s => s
  | .simple text rest, s => rest.run (issue command text s).2
  | .ifThen test body tail rest, s =>
    let tested := issue command test s
    rest.run (if tested.1 = 0 then body.run tested.2 else tail.run tested.2)
  | .forIn name items body rest, s =>
    rest.run (items.foldl (fun s item => body.run (s.setVar name item)) s)

/-- The first branch whose condition exits 0, otherwise the `else` branch. -/
def Tail.run : Tail → Shell σ → Shell σ
  | .fi, s => s
  | .otherwise body, s => body.run s
  | .elif test body tail, s =>
    let tested := issue command test s
    if tested.1 = 0 then body.run tested.2 else tail.run tested.2

end

end Meaning

mutual

/-- The commands that occur in a program. -/
def Program.commands : Program → List Bytes
  | .nil => []
  | .simple text rest => text :: rest.commands
  | .ifThen test body tail rest => test :: (body.commands ++ tail.commands ++ rest.commands)
  | .forIn _ _ body rest => body.commands ++ rest.commands

def Tail.commands : Tail → List Bytes
  | .fi => []
  | .otherwise body => body.commands
  | .elif test body tail => test :: (body.commands ++ tail.commands)

end

/-- There is no block. -/
def Program.Flat : Program → Prop
  | .nil => True
  | .simple _ rest => rest.Flat
  | .ifThen _ _ _ _ => False
  | .forIn _ _ _ _ => False

/-! ## Layout -/

/-- Spaces and tabs. -/
def Gap (gap : Bytes) : Prop := gap ≠ [] ∧ ∀ c ∈ gap, c = 32 ∨ c = 9

/-- A name or an item. -/
def Word (word : Bytes) : Prop := word ≠ [] ∧ ∀ c ∈ word, isGap c = false

/-- A keyword stands before the first piece of its body, on the same line or on its own. -/
inductive Led (keyword : Bytes) : List Bytes → List Bytes → Prop where
  | alone {pieces : List Bytes} : Led keyword pieces (keyword :: pieces)
  | joined {gap piece : Bytes} {pieces : List Bytes} (blanks : Gap gap) :
      Led keyword (piece :: pieces) ((keyword ++ gap ++ piece) :: pieces)

/-- The items of a `for`, each behind its gap. -/
inductive Items : List Bytes → Bytes → Prop where
  | nil : Items [] []
  | cons {gap item later : Bytes} {items : List Bytes} (blanks : Gap gap) (word : Word item)
      (rest : Items items later) : Items (item :: items) (gap ++ item ++ later)

mutual

/-- The pieces between separators in which a program is written. -/
inductive Program.Pieces : Program → List Bytes → Prop where
  | nil : Program.Pieces .nil []
  | simple {text : Bytes} {rest : Program} {later : List Bytes} (restPieces : rest.Pieces later) :
      Program.Pieces (.simple text rest) (text :: later)
  | ifThen {test gap : Bytes} {body rest : Program} {tail : Tail}
      {inside led tailed later : List Bytes} (blanks : Gap gap) (full : body ≠ .nil)
      (bodyPieces : body.Pieces inside) (leads : Led kwThen inside led)
      (tailPieces : tail.Pieces tailed) (restPieces : rest.Pieces later) :
      Program.Pieces (.ifThen test body tail rest) ((kwIf ++ gap ++ test) :: (led ++ tailed ++ later))
  | forIn {name first second list : Bytes} {items : List Bytes} {body rest : Program}
      {inside led later : List Bytes} (firstGap : Gap first) (secondGap : Gap second)
      (named : Word name) (listed : Items items list) (full : body ≠ .nil) (bodyPieces : body.Pieces inside)
      (leads : Led kwDo inside led) (restPieces : rest.Pieces later) :
      Program.Pieces (.forIn name items body rest)
        ((kwFor ++ first ++ name ++ second ++ kwIn ++ list) :: (led ++ kwDone :: later))

inductive Tail.Pieces : Tail → List Bytes → Prop where
  | fi : Tail.Pieces .fi [kwFi]
  | otherwise {body : Program} {inside led : List Bytes} (full : body ≠ .nil)
      (bodyPieces : body.Pieces inside) (leads : Led kwElse inside led) :
      Tail.Pieces (.otherwise body) (led ++ [kwFi])
  | elif {test gap : Bytes} {body : Program} {tail : Tail} {inside led tailed : List Bytes}
      (blanks : Gap gap) (full : body ≠ .nil) (bodyPieces : body.Pieces inside)
      (leads : Led kwThen inside led) (tailPieces : tail.Pieces tailed) :
      Tail.Pieces (.elif test body tail) ((kwElif ++ gap ++ test) :: (led ++ tailed))

end

/-- The words that begin no command. -/
def keywords : List Bytes := [kwIf, kwThen, kwElif, kwElse, kwFi, kwFor, kwDo, kwDone]

/-- The first word of a command. -/
def headWord (text : Bytes) : Bytes := text.takeWhile fun c => c ≠ 32 && c ≠ 9

/-- No command begins with a keyword. -/
def Program.WellFormed (program : Program) : Prop :=
  ∀ text ∈ program.commands, headWord text ∉ keywords

/-- A piece that holds no comment, variable or pipe and fits the line buffer. -/
structure Clear (piece : Bytes) : Prop where
  plain : ∀ c ∈ piece, c ≠ 35 ∧ c ≠ 36 ∧ c ≠ 124
  short : piece.length ≤ 1023

/-- The text of a program. -/
structure Written (program : Program) (text : Bytes) : Prop where
  wellFormed : program.WellFormed
  fits : text.length ≤ 8192
  shown : ∃ pieces, program.Pieces pieces ∧ Renders isBlank isBreak pieces text ∧
    ∀ piece ∈ pieces, Clear piece

/-- The shell takes the command for one: it does not begin with `if` or `for` and a byte that is
neither letter nor digit. -/
def Ordinary (text : Bytes) : Prop :=
  startsWithWord text kwIf = false ∧ startsWithWord text kwFor = false

instance {text : Bytes} : Decidable (Ordinary text) := inferInstanceAs (Decidable (_ ∧ _))

end DBSos.Script
