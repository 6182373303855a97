import DBSos.Script.Grammar

/-!
# Lines of a script

`exec_block` runs the pieces that a text shows, one after the other. A piece that is no `if` or
`for` to the interpreter is one command, and nothing that it ever runs as a command begins like
one of the two.
-/

namespace DBSos.Script

open DBSos.Lib

section Cutting

theorem isBlank_of_isBreak (c : UInt8) (breaks : isBreak c = true) : isBlank c = true := by
  unfold isBreak at breaks
  unfold isBlank
  grind

/-- The loop of `exec_block` is the cut. -/
theorem blockLines_eq {n : Nat} {b : Bytes} (enough : b.length ≤ n) :
    blockLines n b = cut isBlank isBreak [] b := by
  induction n generalizing b with
  | zero =>
    rw [List.eq_nil_of_length_eq_zero (Nat.le_zero.mp enough)]
    rfl
  | succ n ih =>
    have skipped : cut isBlank isBreak [] (b.dropWhile fun c => isBreak c || c = 13) =
        cut isBlank isBreak [] b := by
      refine cut_dropWhile fun c skip => ?_
      rcases (Bool.or_eq_true _ _).mp skip with breaks | carriage
      · exact isBlank_of_isBreak c breaks
      · rw [of_decide_eq_true carriage]
        rfl
    have shorter := List.length_dropWhile_le (fun c => isBreak c || decide (c = 13)) b
    rw [blockLines, ← skipped]
    cases text : b.dropWhile fun c => isBreak c || decide (c = 13) with
    | nil => rfl
    | cons c t =>
      have head := List.head?_dropWhile_not (fun c => isBreak c || decide (c = 13)) b
      have here : isBreak c = false := by
        rw [text] at head
        exact (Bool.or_eq_false_iff.mp head).1
      have later : ((c :: t).dropWhile fun c => !isBreak c).length ≤ n := by
        rw [text, List.length_cons] at shorter
        rw [List.dropWhile_cons_of_pos (by rw [here]; rfl)]
        have := List.length_dropWhile_le (fun c => !isBreak c) t
        omega
      rw [cut_takeWhile isBlank_of_isBreak, ih later, emit]
      simp only [List.isEmpty_cons, Bool.false_eq_true, if_false]
      split_ifs
      · rfl
      · rfl

/-- A body is run piece by piece. -/
theorem execBlock_eq {σ : Type} {line : Runner σ} {pieces : List Bytes} {body : Bytes}
    {s : Shell σ} (shows_ : Renders isBlank isBreak pieces body) :
    execBlock line body s = pieces.foldlM (fun last text => line text last.2) (0, s) := by
  rw [execBlock, blockLines_eq (Nat.le_refl _), cut_trim, shows_.cut]

end Cutting

section Expansion

variable {env : Env} {lastExit : UInt32}

/-- A text without a dollar is expanded to itself. -/
theorem expandLoop_plain {n room : Nat} {input : Bytes} (turns : input.length ≤ n)
    (enough : input.length ≤ room) (plain : ∀ c ∈ input, c ≠ 36) :
    expandLoop env lastExit n room input = input := by
  induction input generalizing n room with
  | nil =>
    cases n with
    | zero => rfl
    | succ n => rfl
  | cons c rest ih =>
    rw [List.length_cons] at turns enough
    cases n with
    | zero => omega
    | succ n =>
      have other : decide (c = 36) = false := decide_eq_false (plain c List.mem_cons_self)
      have positive : room ≠ 0 := by omega
      rw [expandLoop]
      · dsimp only
        rw [if_neg positive, List.length_singleton,
          ih (by omega) (by omega) fun b member =>
            plain b (List.mem_cons_of_mem c member),
          List.take_of_length_le (by rw [List.length_singleton]; omega),
          List.singleton_append]
      · intro d tail dollar
        exact absurd (other.symm.trans dollar) nofun

/-- A text without a bar is one part. -/
theorem length_pipeParts {text : Bytes} (plain : ∀ c ∈ text, c ≠ 124) :
    (pipeParts text).length ≤ 1 := by
  have one : text.splitOnP (· = 124) = [text] :=
    List.splitOnP_eq_singleton fun c member => decide_eq_false (plain c member)
  unfold pipeParts
  rw [one]
  dsimp only
  split_ifs
  · exact Nat.zero_le 1
  · exact Nat.le_refl 1

end Expansion

section Commands

variable {σ : Type} {command : Command σ} {line : Runner σ} {piece : Bytes} {s s' s'' : Shell σ}

/-- A piece is handed to `exec_single_line` as it stands. -/
theorem execLineWith_clear (clear : Clear piece) (full : ¬piece.isEmpty = true)
    (trimmed : trim isBlank piece = piece) :
    execLineWith command line piece s = execSingleLine command line piece s := by
  have uncommented : piece.takeWhile (fun c => decide (c ≠ 35)) = piece :=
    List.takeWhile_eq_self_iff.mpr fun c member => decide_eq_true (clear.plain c member).1
  have expanded : expandVars s.machine.env s.machine.lastExit piece = piece :=
    expandLoop_plain (Nat.le_refl _) clear.short fun c member => (clear.plain c member).2.1
  have parts := length_pipeParts fun c member => (clear.plain c member).2.2
  unfold execLineWith
  dsimp only
  rw [uncommented, trimmed, if_neg full, expanded, if_neg (Nat.not_lt_of_ge parts)]

/-- A piece that is no `if` or `for` to the interpreter is one command. -/
theorem execLine_clear (command : Command σ) (n : Nat) (s : Shell σ) (clear : Clear piece)
    (nonempty : piece ≠ []) (trimmed : trim isBlank piece = piece) (ordinary : Ordinary piece) :
    execLine command (n + 1) piece s = some (issue command piece s) := by
  have full : ¬piece.isEmpty = true := fun empty => nonempty (List.isEmpty_iff.mp empty)
  rw [execLine, execLineWith_clear clear full trimmed, execSingleLine,
    trimmed, if_neg full, ordinary.1, ordinary.2, if_neg nofun, if_neg nofun]

/-! ## The log -/

/-- Commands have been run, all of them allowed. -/
def Adds (allowed : Bytes → Prop) (s s' : Shell σ) : Prop :=
  ∃ run, s'.log = s.log ++ run ∧ ∀ text ∈ run, allowed text

section Adding

variable {allowed wider : Bytes → Prop}

theorem Adds.refl (s : Shell σ) : Adds allowed s s := ⟨[], (List.append_nil _).symm, nofun⟩

theorem Adds.trans (first : Adds allowed s s') (second : Adds allowed s' s'') :
    Adds allowed s s'' := by
  obtain ⟨before, log, early⟩ := first
  obtain ⟨after, log', late⟩ := second
  refine ⟨before ++ after, by rw [log', log, List.append_assoc], fun text member => ?_⟩
  rcases List.mem_append.mp member with here | there
  · exact early text here
  · exact late text there

theorem Adds.mono (adds : Adds allowed s s') (weaker : ∀ text, allowed text → wider text) :
    Adds wider s s' := by
  obtain ⟨run, log, all⟩ := adds
  exact ⟨run, log, fun text member => weaker text (all text member)⟩

theorem adds_issue {text : Bytes} (fine : allowed text) :
    Adds allowed s (issue command text s).2 :=
  ⟨[text], rfl, fun _ member => List.mem_singleton.mp member ▸ fine⟩

end Adding

/-- Whatever it runs, the log is extended. -/
def Logs (line : Runner σ) : Prop := ∀ text s code s', line text s = some (code, s') →
  Adds Ordinary s s'

theorem foldlM_extends {texts : List Bytes} (logs : Logs line) {code last : UInt32}
    (ran : texts.foldlM (fun last text => line text last.2) (last, s) = some (code, s')) :
    Adds Ordinary s s' := by
  induction texts generalizing s last with
  | nil =>
    cases ran
    exact .refl _
  | cons text texts ih =>
    rw [List.foldlM_cons] at ran
    obtain ⟨⟨code, middle⟩, first, rest⟩ := Option.bind_eq_some_iff.mp ran
    exact (logs text s code middle first).trans (ih rest)

theorem execBlock_logs (logs : Logs line) : Logs (execBlock line) :=
  fun _ _ _ _ ran => foldlM_extends logs ran

theorem execElif_extends (logs : Logs line) {rest : Bytes} {elifPos elsePos fiPos : Nat}
    {code : Option UInt32} (ran : execElif line rest elifPos elsePos fiPos s = some (code, s')) :
    Adds Ordinary s s' := by
  unfold execElif at ran
  dsimp only at ran
  split_ifs at ran
  · cases ran
    exact .refl _
  all_goals
    obtain ⟨body, -, ran⟩ := Option.bind_eq_some_iff.mp ran
    obtain ⟨⟨tested, middle⟩, test, ran⟩ := Option.bind_eq_some_iff.mp ran
    have before := logs _ s tested middle test
    dsimp only at ran
    split_ifs at ran
    · obtain ⟨⟨code, last⟩, block, same⟩ := Option.map_eq_some_iff.mp ran
      cases same
      exact before.trans (execBlock_logs logs _ middle _ _ block)
    · cases ran
      exact before

theorem execElse_extends (logs : Logs line) {rest : Bytes} {elsePos : Nat} {code : UInt32}
    (ran : execElse line rest elsePos s = some (code, s')) : Adds Ordinary s s' := by
  unfold execElse at ran
  dsimp only at ran
  split_ifs at ran
  · cases ran
    exact .refl _
  · exact execBlock_logs logs _ s code s' ran

theorem execIf_logs (logs : Logs line) : Logs (execIf line) := by
  intro text s code s' ran
  unfold execIf at ran
  dsimp only at ran
  split_ifs at ran
  · cases ran
    exact .refl _
  all_goals
    obtain ⟨⟨tested, middle⟩, test, ran⟩ := Option.bind_eq_some_iff.mp ran
    have before := logs _ s tested middle test
    dsimp only at ran
    split_ifs at ran
    · obtain ⟨body, -, ran⟩ := Option.bind_eq_some_iff.mp ran
      split_ifs at ran
      · cases ran
        exact before
      · exact before.trans (execBlock_logs logs _ middle code s' ran)
    · obtain ⟨⟨answer, last⟩, tried, ran⟩ := Option.bind_eq_some_iff.mp ran
      have between := before.trans (execElif_extends logs tried)
      cases answer with
      | some answer =>
        cases ran
        exact between
      | none => exact between.trans (execElse_extends logs ran)

theorem loop_extends (logs : Logs line) {name body : Bytes} {items : List Bytes}
    (ran : items.foldlM (fun s item =>
      if body.isEmpty then some (s.setVar name item)
      else (execBlock line body (s.setVar name item)).map Prod.snd) s = some s') :
    Adds Ordinary s s' := by
  induction items generalizing s with
  | nil =>
    cases ran
    exact .refl _
  | cons item items ih =>
    rw [List.foldlM_cons] at ran
    obtain ⟨middle, first, rest⟩ := Option.bind_eq_some_iff.mp ran
    refine Adds.trans ?_ (ih rest)
    split_ifs at first
    · cases first
      exact ⟨[], (List.append_nil _).symm, nofun⟩
    · obtain ⟨⟨code, last⟩, block, same⟩ := Option.map_eq_some_iff.mp first
      cases same
      have body := execBlock_logs logs _ (s.setVar name item) _ _ block
      exact body

theorem execFor_logs (logs : Logs line) : Logs (execFor line) := by
  intro text s code s' ran
  unfold execFor at ran
  dsimp only at ran
  split_ifs at ran
  · cases ran
    exact .refl _
  · cases ran
    exact .refl _
  all_goals
    obtain ⟨body, -, ran⟩ := Option.bind_eq_some_iff.mp ran
    obtain ⟨last, loop, same⟩ := Option.map_eq_some_iff.mp ran
    cases same
    exact loop_extends logs loop

theorem execSingleLine_logs (logs : Logs line) : Logs (execSingleLine command line) := by
  intro text s code s' ran
  unfold execSingleLine at ran
  dsimp only at ran
  split_ifs at ran with empty condition loop
  · cases ran
    exact .refl _
  · exact execIf_logs logs _ s code s' ran
  · exact execFor_logs logs _ s code s' ran
  · cases ran
    exact adds_issue ⟨Bool.eq_false_iff.mpr condition, Bool.eq_false_iff.mpr loop⟩

/-- Nothing that is run as a command begins like an `if` or a `for`. -/
theorem execLine_logs (n : Nat) : Logs (execLine command n) := by
  induction n with
  | zero => exact fun _ _ _ _ => nofun
  | succ n ih =>
    intro text s code s' ran
    rw [execLine] at ran
    unfold execLineWith at ran
    dsimp only at ran
    split_ifs at ran
    · cases ran
      exact .refl _
    · exact foldlM_extends (execSingleLine_logs ih) ran
    · exact execSingleLine_logs ih _ s code s' ran

end Commands

end DBSos.Script
