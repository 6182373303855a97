import DBSos.Script.Lines

/-!
# Which scripts run as they are meant

A script is cut at its separators before anything looks for a keyword, so that a block is never
seen as a whole: the line behind `if` finds no `then`, and the lines that begin with `then` or
`do` are run as commands. Without blocks the commands run in order, unless one has a name that
begins like a keyword.
-/

namespace DBSos.Script

open DBSos.Lib

section Grammar

variable {σ : Type} {command : Command σ} {s : Shell σ}

theorem foldl_adds {allowed : Bytes → Prop} {β : Type} {f : Shell σ → β → Shell σ}
    (each : ∀ s item, Adds allowed s (f s item)) (items : List β) (s : Shell σ) :
    Adds allowed s (items.foldl f s) := by
  induction items generalizing s with
  | nil => exact .refl s
  | cons item items ih => exact (each s item).trans (ih _)

mutual

/-- What the grammar selects are commands of the program. -/
theorem Program.run_adds (program : Program) (command : Command σ) (s : Shell σ) :
    Adds (· ∈ program.commands) s (program.run command s) := by
  cases program with
  | nil => exact .refl s
  | simple text rest =>
    have later := rest.run_adds command (issue command text s).2
    exact (adds_issue List.mem_cons_self).trans
      (later.mono fun _ member => List.mem_cons_of_mem _ member)
  | ifThen test body tail rest =>
    have tested : Adds (· ∈ (Program.ifThen test body tail rest).commands) s
        (issue command test s).2 := adds_issue List.mem_cons_self
    refine (tested.trans ?_).trans ((rest.run_adds command _).mono fun _ member => ?_)
    · split_ifs
      · refine (body.run_adds command _).mono fun _ member => List.mem_cons_of_mem _ ?_
        exact List.mem_append_left _ (List.mem_append_left _ member)
      · refine (tail.run_adds command _).mono fun _ member => List.mem_cons_of_mem _ ?_
        exact List.mem_append_left _ (List.mem_append_right _ member)
    · exact List.mem_cons_of_mem _ (List.mem_append_right _ member)
  | forIn name items body rest =>
    refine (foldl_adds (fun s item => ?_) items s).trans
      ((rest.run_adds command _).mono fun _ member => List.mem_append_right _ member)
    have once := body.run_adds command (s.setVar name item)
    exact once.mono fun _ member => List.mem_append_left _ member

theorem Tail.run_adds (tail : Tail) (command : Command σ) (s : Shell σ) :
    Adds (· ∈ tail.commands) s (tail.run command s) := by
  cases tail with
  | fi => exact .refl s
  | otherwise body => exact body.run_adds command s
  | elif test body tail =>
    have tested : Adds (· ∈ (Tail.elif test body tail).commands) s (issue command test s).2 :=
      adds_issue List.mem_cons_self
    refine tested.trans ?_
    rw [Tail.run]
    split_ifs
    · refine (body.run_adds command _).mono fun _ member => List.mem_cons_of_mem _ ?_
      exact List.mem_append_left _ member
    · refine (tail.run_adds command _).mono fun _ member => List.mem_cons_of_mem _ ?_
      exact List.mem_append_right _ member

end

/-! ## Programs without blocks -/

theorem Program.run_flat : (program : Program) → program.Flat → (s : Shell σ) →
    program.run command s = program.commands.foldl (fun s text => (issue command text s).2) s
  | .nil, _, _ => rfl
  | .simple _ rest, flat, _ => rest.run_flat flat _
  | .ifThen _ _ _ _, flat, _ => flat.elim
  | .forIn _ _ _ _, flat, _ => flat.elim

theorem foldl_issue_log {texts : List Bytes} {s : Shell σ} :
    (texts.foldl (fun s text => (issue command text s).2) s).log = s.log ++ texts := by
  induction texts generalizing s with
  | nil => exact (List.append_nil _).symm
  | cons text texts ih =>
    rw [List.foldl_cons, ih]
    exact List.append_assoc s.log [text] texts

theorem Program.pieces_flat {pieces : List Bytes} :
    (program : Program) → program.Flat → program.Pieces pieces → pieces = program.commands
  | .nil, _, .nil => rfl
  | .simple text rest, flat, .simple later => congrArg (text :: ·) (rest.pieces_flat flat later)
  | .ifThen _ _ _ _, flat, _ => flat.elim
  | .forIn _ _ _ _, flat, _ => flat.elim

/-- A piece that begins with `then` or `do`. -/
def KeywordLed (piece : Bytes) : Prop := headWord piece = kwThen ∨ headWord piece = kwDo

theorem KeywordLed.ordinary {piece : Bytes} (led : KeywordLed piece) : Ordinary piece := by
  have whole : headWord piece ++ piece.dropWhile (fun c => c ≠ 32 && c ≠ 9) = piece :=
    List.takeWhile_append_dropWhile
  rcases led with word | word
  · rw [word] at whole
    rw [← whole]
    exact ⟨rfl, rfl⟩
  · rw [word] at whole
    rw [← whole]
    exact ⟨rfl, rfl⟩

/-- A keyword is the first word of its piece. -/
theorem headWord_led {keyword : Bytes} {inside led : List Bytes}
    (solid : ∀ c ∈ keyword, (c ≠ 32 && c ≠ 9) = true) (leads : Led keyword inside led) :
    ∃ piece ∈ led, headWord piece = keyword := by
  cases leads with
  | alone => exact ⟨keyword, List.mem_cons_self, List.takeWhile_eq_self_iff.mpr solid⟩
  | @joined gap piece pieces blanks =>
    refine ⟨_, List.mem_cons_self, ?_⟩
    obtain ⟨some', spaces⟩ := blanks
    cases gap with
    | nil => exact absurd rfl some'
    | cons c gap =>
      have stop : ¬(c ≠ 32 && c ≠ 9) = true := by
        rcases spaces c List.mem_cons_self with rfl | rfl
        · decide
        · decide
      have none : ((c :: gap) ++ piece).takeWhile (fun c => c ≠ 32 && c ≠ 9) = [] :=
        List.takeWhile_cons_of_neg stop
      rw [headWord, List.append_assoc, List.takeWhile_append_of_pos solid, none,
        List.append_nil]

/-- In front of the body of a block stands a piece that begins with `then` or `do`. -/
theorem Program.keywordLed {pieces : List Bytes} :
    (program : Program) → ¬program.Flat → program.Pieces pieces → ∃ piece ∈ pieces, KeywordLed piece
  | .nil, block, _ => absurd trivial block
  | .simple text rest, block, .simple later => by
    obtain ⟨piece, member, led⟩ := rest.keywordLed block later
    exact ⟨piece, List.mem_cons_of_mem text member, led⟩
  | .ifThen _ _ _ _, _, .ifThen _ _ _ leads _ _ => by
    obtain ⟨piece, member, word⟩ := headWord_led (by decide +kernel) leads
    refine ⟨piece, List.mem_cons_of_mem _ ?_, .inl word⟩
    exact List.mem_append_left _ (List.mem_append_left _ member)
  | .forIn _ _ _ _, _, .forIn _ _ _ _ _ _ leads _ => by
    obtain ⟨piece, member, word⟩ := headWord_led (by decide +kernel) leads
    exact ⟨piece, List.mem_cons_of_mem _ (List.mem_append_left _ member), .inr word⟩

/-! ## Runs -/

/-- A piece that is reached and taken for a command is logged. -/
theorem foldlM_logs {depth : Nat} {pieces : List Bytes} {piece : Bytes} {last code : UInt32}
    {s s' : Shell σ} (member : piece ∈ pieces) (clear : Clear piece)
    (whole : Piece isBlank isBreak piece) (ordinary : Ordinary piece)
    (ran : pieces.foldlM (fun last text => execLine command depth text last.2) (last, s) =
      some (code, s')) :
    ∃ run, s'.log = s.log ++ run ∧ piece ∈ run := by
  induction pieces generalizing s last with
  | nil => exact absurd member List.not_mem_nil
  | cons first pieces ih =>
    rw [List.foldlM_cons] at ran
    obtain ⟨⟨answer, middle⟩, here, rest⟩ := Option.bind_eq_some_iff.mp ran
    rcases List.mem_cons.mp member with rfl | later
    · cases depth with
      | zero => exact absurd here nofun
      | succ depth =>
        rw [execLine_clear command depth s clear whole.nonempty whole.trimmed ordinary] at here
        cases here
        obtain ⟨run, log, -⟩ := foldlM_extends (execLine_logs (depth + 1)) rest
        exact ⟨piece :: run, log.trans (List.append_assoc s.log [piece] run),
          List.mem_cons_self⟩
    · obtain ⟨before, log, -⟩ := execLine_logs depth first s answer middle here
      obtain ⟨run, log', found⟩ := ih later rest
      exact ⟨before ++ run, by rw [log', log, List.append_assoc],
        List.mem_append_right before found⟩

/-- Pieces that are all taken for commands are run in order. -/
theorem foldlM_commands (command : Command σ) (depth : Nat) {pieces : List Bytes} (last : UInt32)
    (s : Shell σ)
    (clear : ∀ piece ∈ pieces, Clear piece)
    (whole : ∀ piece ∈ pieces, Piece isBlank isBreak piece)
    (ordinary : ∀ piece ∈ pieces, Ordinary piece) :
    ∃ code, pieces.foldlM (fun last text => execLine command (depth + 1) text last.2) (last, s) =
      some (code, pieces.foldl (fun s text => (issue command text s).2) s) := by
  induction pieces generalizing s last with
  | nil => exact ⟨last, rfl⟩
  | cons first pieces ih =>
    have head := whole first List.mem_cons_self
    have here := execLine_clear command depth s (clear first List.mem_cons_self) head.nonempty
      head.trimmed (ordinary first List.mem_cons_self)
    obtain ⟨code, rest⟩ := ih (issue command first s).1
      (issue command first s).2
      (fun piece member => clear piece (List.mem_cons_of_mem first member))
      (fun piece member => whole piece (List.mem_cons_of_mem first member))
      fun piece member => ordinary piece (List.mem_cons_of_mem first member)
    refine ⟨code, ?_⟩
    rw [List.foldlM_cons, here]
    exact rest

end Grammar

section Scripts

variable {σ : Type} {program : Program} {text : Bytes}

/-- What a script of which something is shown does when it is run. -/
theorem runScript_eq {command : Command σ} {depth : Nat} {pieces : List Bytes} {s : Shell σ}
    (fits : text.length ≤ 8192) (renders : Renders isBlank isBreak pieces text)
    (shown : pieces ≠ []) : runScript command depth (some text) s =
      pieces.foldlM (fun last text => execLine command depth text last.2) (0, s) := by
  have some' : ¬text.isEmpty = true := fun none => by
    rw [List.isEmpty_iff.mp none] at renders
    exact shown renders.cut.symm
  unfold runScript
  dsimp only
  rw [if_neg some', List.take_of_length_le fits, execBlock_eq renders]

/-- A script that runs as it is meant has no block. -/
theorem flat_of_runs {command : Command σ} {depth : Nat} {code : UInt32} {s : Shell σ}
    (written : Written program text)
    (ran : runScript command depth (some text) s = some (code, program.run command s)) :
    program.Flat := by
  obtain ⟨pieces, shape, renders, clear⟩ := written.shown
  by_contra block
  obtain ⟨piece, member, led⟩ := program.keywordLed block shape
  rw [runScript_eq written.fits renders (List.ne_nil_of_mem member)] at ran
  obtain ⟨selected, log, fromProgram⟩ := program.run_adds command s
  obtain ⟨run, log', found⟩ := foldlM_logs member (clear piece member)
    (renders.pieces piece member) led.ordinary ran
  have same := List.append_cancel_left (log'.symm.trans log)
  refine written.wellFormed piece (fromProgram piece (same ▸ found)) ?_
  rcases led with word | word
  · rw [word]
    decide
  · rw [word]
    decide

/-- A script without blocks that runs as it is meant has no command that looks like one. -/
theorem ordinary_of_runs {command : Command σ} {depth : Nat} {code : UInt32} {s : Shell σ}
    (written : Written program text) (flat : program.Flat)
    (ran : runScript command depth (some text) s = some (code, program.run command s)) :
    ∀ one ∈ program.commands, Ordinary one := by
  obtain ⟨pieces, shape, renders, clear⟩ := written.shown
  have same := program.pieces_flat flat shape
  by_cases shown : pieces = []
  · rw [← same, shown]
    exact nofun
  · rw [runScript_eq written.fits renders shown] at ran
    obtain ⟨run, log, ordinary⟩ := foldlM_extends (execLine_logs depth) ran
    rw [program.run_flat flat, foldl_issue_log] at log
    exact List.append_cancel_left log ▸ ordinary

theorem runs_of_flat {command : Command σ} {s : Shell σ} (written : Written program text)
    (flat : program.Flat) (ordinary : ∀ one ∈ program.commands, Ordinary one) :
    ∃ depth code, runScript command depth (some text) s =
      some (code, program.run command s) := by
  obtain ⟨pieces, shape, renders, clear⟩ := written.shown
  have same := program.pieces_flat flat shape
  rw [← same] at ordinary
  obtain ⟨code, ran⟩ := foldlM_commands command 0 0 s
    clear renders.pieces ordinary
  by_cases shown : pieces = []
  · have nothing : execBlock (execLine command 1) text s = some (0, s) := by
      rw [execBlock_eq renders, shown]
      rfl
    have still : program.run command s = s := by
      rw [program.run_flat flat, ← same, shown]
      rfl
    rw [still]
    unfold runScript
    dsimp only
    rw [List.take_of_length_le written.fits]
    split_ifs
    · exact ⟨1, 1, rfl⟩
    · exact ⟨1, 0, nothing⟩
  · refine ⟨1, code, ?_⟩
    rw [runScript_eq written.fits renders shown, ran, program.run_flat flat, same]

/-- A script runs exactly the commands that the grammar selects if and only if it has no block
and no command whose name begins with `if` or `for` and a byte that is neither letter nor digit. -/
theorem runs_exactly_iff (command : Command σ) (s : Shell σ) (written : Written program text) :
    (∃ depth code, runScript command depth (some text) s =
        some (code, program.run command s)) ↔
      program.Flat ∧ ∀ one ∈ program.commands, Ordinary one :=
  ⟨fun ⟨_, _, ran⟩ =>
      ⟨flat_of_runs written ran, ordinary_of_runs written (flat_of_runs written ran) ran⟩,
    fun ⟨flat, ordinary⟩ => runs_of_flat written flat ordinary⟩

/-- `a;` and `b` on the next line. -/
def twoCommands : Program := .simple [97] (.simple [98] .nil)

theorem twoCommands_written : Written twoCommands [97, 59, 10, 98] where
  wellFormed := by
    unfold Program.WellFormed
    decide
  fits := by decide
  shown := by
    have a : Piece isBlank isBreak [97] := ⟨by decide, by simp [isBreak], by decide⟩
    have b : Piece isBlank isBreak [98] := ⟨by decide, by simp [isBreak], by decide⟩
    have ended : Ended isBlank isBreak [59, 10, 98] := ⟨[], 59, [10, 98], rfl, nofun, by decide⟩
    refine ⟨[[97], [98]], .simple (.simple .nil), ?_, ?_⟩
    · exact .piece a (.blank (by decide) (.blank (by decide) (.piece b .nil (.inl rfl))))
        (.inr ended)
    · intro piece member
      simp only [List.mem_cons, List.not_mem_nil, or_false] at member
      rcases member with rfl | rfl
      · exact ⟨by simp, by decide⟩
      · exact ⟨by simp, by decide⟩

/-- Commands that do nothing and succeed. -/
def quiet : Command Unit := fun _ m => (0, m)

def freshShell : Shell Unit := { machine := { env := [], lastExit := 0, world := () }, log := [] }

/-- Two commands, one after the other. -/
theorem runs_exactly_two :
    ((∃ depth code, runScript quiet depth (some [97, 59, 10, 98]) freshShell =
        some (code, twoCommands.run quiet freshShell)) ↔
      twoCommands.Flat ∧ ∀ one ∈ twoCommands.commands, Ordinary one) :=
  runs_exactly_iff quiet freshShell twoCommands_written

/-- `if a;then b;fi`. -/
def oneIf : Program := .ifThen [97] (.simple [98] .nil) .fi .nil

def oneIfPieces : List Bytes :=
  [kwIf ++ [32] ++ [97], kwThen ++ [32] ++ [98], kwFi]

def oneIfText : Bytes :=
  (kwIf ++ [32] ++ [97]) ++ 59 :: ((kwThen ++ [32] ++ [98]) ++ 59 :: (kwFi ++ []))

theorem oneIf_written : Written oneIf oneIfText where
  wellFormed := by
    unfold Program.WellFormed
    decide
  fits := by decide
  shown := by
    have space : Gap [32] := ⟨by decide, by decide +kernel⟩
    have first : Piece isBlank isBreak (kwIf ++ [32] ++ [97]) :=
      ⟨by decide, by simp [isBreak, kwIf], by decide⟩
    have second : Piece isBlank isBreak (kwThen ++ [32] ++ [98]) :=
      ⟨by decide, by simp [isBreak, kwThen], by decide⟩
    have last : Piece isBlank isBreak kwFi := ⟨by decide, by simp [isBreak, kwFi], by decide⟩
    have ended (rest : Bytes) : Ended isBlank isBreak (59 :: rest) :=
      ⟨[], 59, rest, rfl, nofun, by decide⟩
    have full : Program.simple [98] .nil ≠ .nil := nofun
    have body : (Program.simple [98] .nil).Pieces [[98]] := .simple .nil
    have led : Led kwThen [[98]] [kwThen ++ [32] ++ [98]] := .joined space
    have shape : oneIf.Pieces oneIfPieces := .ifThen space full body led .fi .nil
    refine ⟨oneIfPieces, shape, ?_, ?_⟩
    · exact .piece first (.blank (by decide) (.piece second (.blank (by decide)
        (.piece last .nil (.inl rfl))) (.inr (ended _)))) (.inr (ended _))
    · intro piece member
      simp only [oneIfPieces, List.mem_cons, List.not_mem_nil, or_false] at member
      rcases member with rfl | rfl | rfl
      · exact ⟨by simp [kwIf], by decide⟩
      · exact ⟨by simp [kwThen], by decide⟩
      · exact ⟨by simp [kwFi], by decide⟩

/-- `if a;then b;fi` is not run as it is meant: its lines are `then b` and `fi`. -/
theorem oneIf_runs_keywords :
    ¬ (∃ depth code, runScript quiet depth (some oneIfText) freshShell =
        some (code, oneIf.run quiet freshShell)) ∧
      (runScript quiet 2 (some oneIfText) freshShell).map (fun ran => ran.2.log) =
        some [kwThen ++ [32] ++ [98], kwFi] := by
  refine ⟨fun ⟨_, _, ran⟩ => flat_of_runs oneIf_written ran, ?_⟩
  decide +kernel

end Scripts

end DBSos.Script
