import DBSos.Lib.Recursion
import DBSos.Script.Interpreter
import Mathlib.Tactic.IntervalCases

/-!
# Lines inside lines

A line that is an `if` or a `for` runs further lines, whose variables are replaced again. The
plan of a line says which lines it runs and at which places a slice could be out of bounds; run
with the interpreter itself for an answer, it is the interpreter.
-/

namespace DBSos.Script

open DBSos.Lib

/-- Where the bounds of a body come from positions in different texts: the text from `then` on,
and the text from `do` on with the position of `do`. -/
inductive Place where
  | elif (rest : Bytes)
  | loop (rest : Bytes) (doPos : Nat)

/-- The text from `elif` on. -/
def elifText (rest : Bytes) : Bytes := rest.drop (findIfParts rest).1

/-- The end of the body of `elif`, counted from `elif` on. -/
def elifStop (rest : Bytes) : Nat :=
  let parts := findIfParts rest
  if parts.2.1 > 0 then parts.2.1 else parts.2.2

/-- The positions name a part of the text. The body of an `elif` is cut from its `then` on, with
an end that is counted from the `elif`; that of a `for` with `done` is cut from `do` on, and ends
at the number that is the position of `do`. -/
def Place.Fits : Place → Prop
  | .elif rest =>
    let elifThen := findKeyword (elifText rest) kwThen
    let bodyText := (elifText rest).drop elifThen
    (findIfParts rest).1 + skipKeywordText bodyText kwThen ≤ elifStop rest ∧
      elifStop rest + elifThen ≤ rest.length
  | .loop rest doPos =>
    findKeyword rest kwDone > 0 → skipKeywordText rest kwDo ≤ doPos ∧ doPos ≤ rest.length

instance : DecidablePred Place.Fits
  | .elif _ => inferInstanceAs (Decidable (_ ∧ _))
  | .loop _ _ => inferInstanceAs (Decidable (_ → _))

variable {σ : Type}

/-- A plan that runs lines in states of the shell. -/
abbrev LinePlan (σ α : Type) := Plan (Bytes × Shell σ) (UInt32 × Shell σ) Place α

/-- The plan of `exec_block`. -/
def blockPlan (body : Bytes) (s : Shell σ) : LinePlan σ (UInt32 × Shell σ) :=
  let b := trim isBlank body
  .fold (fun last text => .call (text, last.2) .done) (0, s) (blockLines b.length b)

/-- The body of `elif`, where its bounds fit. -/
def elifBody (rest : Bytes) : Bytes :=
  let bodyText := (elifText rest).drop (findKeyword (elifText rest) kwThen)
  trim isBlank ((bodyText.take (elifStop rest - (findIfParts rest).1)).drop
    (skipKeywordText bodyText kwThen))

/-- The plan of the `elif` of `exec_if`. -/
def elifPlan (rest : Bytes) (s : Shell σ) : LinePlan σ (Option UInt32 × Shell σ) :=
  let elifThen := findKeyword (elifText rest) kwThen
  if (findIfParts rest).1 = 0 ∨ elifThen = 0 then .done (none, s)
  else
    .check (.elif rest) <| .call (trim isBlank ((elifText rest).take elifThen), s) fun tested =>
      if tested.1 = 0 ∧ ¬(elifBody rest).isEmpty then
        (blockPlan (elifBody rest) tested.2).bind fun ran => .done (some ran.1, ran.2)
      else .done (none, tested.2)

/-- The plan of the `else` of `exec_if`. -/
def elsePlan (rest : Bytes) (s : Shell σ) : LinePlan σ (UInt32 × Shell σ) :=
  let elsePos := (findIfParts rest).2.1
  let body := trimEndFi (trim isBlank ((rest.drop elsePos).drop 4))
  if elsePos = 0 ∨ body.isEmpty then .done (0, s) else blockPlan body s

/-- The end of the first body of an `if`. -/
def thenStop (rest : Bytes) : Nat :=
  let parts := findIfParts rest
  if parts.1 > 0 then parts.1 else if parts.2.1 > 0 then parts.2.1 else parts.2.2

def thenBody (rest : Bytes) : Bytes :=
  trim isBlank ((rest.take (thenStop rest)).drop (skipKeywordText rest kwThen))

/-- The plan of `exec_if`. -/
def ifPlan (text : Bytes) (s : Shell σ) : LinePlan σ (UInt32 × Shell σ) :=
  let afterIf := skipFirstWord text
  let thenPos := findKeyword afterIf kwThen
  let rest := afterIf.drop thenPos
  if thenPos = 0 then .done (1, s)
  else
    .call (trim isBlank (afterIf.take thenPos), s) fun tested =>
      if tested.1 = 0 then
        if (thenBody rest).isEmpty then .done (0, tested.2) else blockPlan (thenBody rest) tested.2
      else
        (elifPlan rest tested.2).bind fun tried =>
          match tried.1 with
          | some code => .done (code, tried.2)
          | none => elsePlan rest tried.2

/-- The body of a `for`, where its bounds fit. -/
def forBody (rest : Bytes) (doPos : Nat) : Bytes :=
  let bodyStart := skipKeywordText rest kwDo
  trim isBlank (if findKeyword rest kwDone > 0 then (rest.take doPos).drop bodyStart
    else rest.drop bodyStart)

/-- The plan of `exec_for`. -/
def forPlan (text : Bytes) (s : Shell σ) : LinePlan σ (UInt32 × Shell σ) :=
  let afterFor := skipFirstWord text
  let name := firstWord afterFor
  let afterIn := skipFirstWord (trim isBlank (skipFirstWord afterFor))
  let doPos := findKeyword afterIn kwDo
  let body := forBody (afterIn.drop doPos) doPos
  if name.isEmpty then .done (1, s)
  else if doPos = 0 then .done (1, s)
  else
    .check (.loop (afterIn.drop doPos) doPos) <|
      (Plan.fold (fun s item =>
        let s := s.setVar name item
        if body.isEmpty then .done s else (blockPlan body s).bind fun ran => .done ran.2) s
          (forItems (trim isBlank (afterIn.take doPos)))).bind fun s =>
        .done (s.machine.lastExit, s)

variable (command : Command σ)

/-- The plan of `exec_single_line`. -/
def singlePlan (raw : Bytes) (s : Shell σ) : LinePlan σ (UInt32 × Shell σ) :=
  let text := trim isBlank raw
  if text.isEmpty then .done (0, s)
  else if startsWithWord text kwIf then ifPlan text s
  else if startsWithWord text kwFor then forPlan text s
  else .done (issue command text s)

/-- A line with its variables replaced. -/
def expanded (raw : Bytes) (s : Shell σ) : Bytes :=
  let text := trim isBlank (raw.takeWhile (· ≠ 35))
  if text.isEmpty then [] else expandVars s.machine.env s.machine.lastExit text

/-- The plan of `exec_line`. -/
def linePlan (call : Bytes × Shell σ) : LinePlan σ (UInt32 × Shell σ) :=
  let text := trim isBlank (call.1.takeWhile (· ≠ 35))
  if text.isEmpty then .done (0, call.2)
  else
    let text := expanded call.1 call.2
    let parts := pipeParts text
    if parts.length > 1 then
      .fold (fun last part => singlePlan command part last.2) (0, call.2) parts
    else singlePlan command text call.2

/-! ## The positions -/

variable {s t keyword rest text : Bytes} {i : Nat}

theorem isPrefix_of_starts (starts : startsWithWord s keyword = true) : keyword <+: s :=
  List.isPrefixOf_iff_prefix.mp (Bool.and_eq_true_iff.mp starts).1

theorem findKeyword_spec (found : findKeyword s keyword ≠ 0) :
    startsWithWord (s.drop (findKeyword s keyword)) keyword = true ∧
      findKeyword s keyword < s.length := by
  unfold findKeyword at found ⊢
  cases search : (List.range s.length).find? _ with
  | none => exact absurd (by rw [search]; rfl) found
  | some i =>
    have passed := List.find?_some search
    have listed := List.mem_range.mp (List.mem_of_find?_eq_some search)
    exact ⟨(Bool.and_eq_true_iff.mp passed).2, listed⟩

theorem skipKeywordText_le (s keyword : Bytes) : skipKeywordText s keyword ≤ s.length := by
  have gaps := (List.takeWhile_prefix (p := isGap) (l := s.drop keyword.length)).length_le
  rw [List.length_drop] at gaps
  unfold skipKeywordText
  omega

/-- What `find_if_parts` reports begins with its word. -/
structure PartsBegin (s : Bytes) (parts : Nat × Nat × Nat) : Prop where
  elif : parts.1 ≠ 0 → startsWithWord (s.drop parts.1) kwElif = true
  otherwise : parts.2.1 ≠ 0 → startsWithWord (s.drop parts.2.1) kwElse = true
  fi : parts.2.2 ≠ 0 → startsWithWord (s.drop parts.2.2) kwFi = true

theorem findIfPartsLoop_begin {n depth elifPos elsePos : Nat}
    (before : PartsBegin s (elifPos, elsePos, 0)) :
    PartsBegin s (findIfPartsLoop s n i depth elifPos elsePos) := by
  induction n generalizing i depth elifPos elsePos with
  | zero => exact before
  | succ n ih =>
    unfold findIfPartsLoop
    dsimp only
    split_ifs with ended nested fi outer elif otherwise
    · exact before
    · exact ih before
    · exact ⟨before.elif, before.otherwise, fun _ => fi⟩
    · exact ih before
    · simp only [Bool.and_eq_true] at elif
      exact ih ⟨fun _ => elif.1.1, before.otherwise, before.fi⟩
    · simp only [Bool.and_eq_true] at otherwise
      exact ih ⟨before.elif, fun _ => otherwise.1.1, before.fi⟩
    · exact ih before

theorem parts_begin (s : Bytes) : PartsBegin s (findIfPartsLoop s s.length 0 0 0 0) :=
  findIfPartsLoop_begin ⟨fun none => absurd rfl none, fun none => absurd rfl none,
    fun none => absurd rfl none⟩

/-- The words that end a body of an `if`. -/
def IfEnd (word : Bytes) : Prop := word = kwElif ∨ word = kwElse ∨ word = kwFi

/-- In a text led by `then`, none of them begins before the end of the gap. -/
theorem skipKeywordText_le_of_starts (leads : startsWithWord s kwThen = true)
    (starts : startsWithWord (s.drop i) keyword = true) (ends : IfEnd keyword) :
    skipKeywordText s kwThen ≤ i := by
  obtain ⟨tail, rfl⟩ := isPrefix_of_starts leads
  have begins := isPrefix_of_starts starts
  by_contra early
  have gap : i < 4 + (tail.takeWhile isGap).length := by
    have whole : skipKeywordText (kwThen ++ tail) kwThen = 4 + (tail.takeWhile isGap).length := by
      rw [skipKeywordText, List.drop_left, List.length_append]
      change min (4 + tail.length) 4 + _ = _
      omega
    omega
  by_cases inside : i < 4
  · unfold kwThen at begins
    rcases ends with rfl | rfl | rfl <;> interval_cases i <;>
      simp [kwElif, kwElse, kwFi] at begins
  · obtain ⟨j, rfl⟩ := Nat.exists_eq_add_of_le (Nat.not_lt.mp inside)
    have drops : (kwThen ++ tail).drop (4 + j) = tail.drop j :=
      @List.drop_length_add_append _ kwThen tail j
    have listed : j < (tail.takeWhile isGap).length := by omega
    have within := Nat.lt_of_lt_of_le listed (List.takeWhile_prefix isGap).length_le
    have blank : isGap (tail.takeWhile isGap)[j] = true :=
      List.mem_takeWhile_imp (List.getElem_mem listed)
    rw [(List.takeWhile_prefix isGap).getElem listed] at blank
    rw [drops, List.drop_eq_getElem_cons within] at begins
    generalize tail[j] = c at blank begins
    have letter : c = 101 ∨ c = 102 := by
      rcases ends with rfl | rfl | rfl <;> simp [kwElif, kwElse, kwFi] at begins <;> simp [begins]
    rcases letter with rfl | rfl
    · exact absurd blank (by decide)
    · exact absurd blank (by decide)

/-- The first body of an `if` never ends before it begins. -/
theorem thenStop_bounds (leads : startsWithWord s kwThen = true) :
    skipKeywordText s kwThen ≤ thenStop s ∧ thenStop s ≤ s.length := by
  have begins := parts_begin s
  have bounds {p : Nat} {word : Bytes} (starts : startsWithWord (s.drop p) word = true)
      (ends : IfEnd word) : skipKeywordText s kwThen ≤ p ∧ p ≤ s.length := by
    refine ⟨skipKeywordText_le_of_starts leads starts ends, ?_⟩
    have fits := (isPrefix_of_starts starts).length_le
    rw [List.length_drop] at fits
    have positive : 0 < word.length := by rcases ends with rfl | rfl | rfl <;> decide
    omega
  unfold thenStop findIfParts
  dsimp only
  split_ifs with elif otherwise fi
  · exact bounds (begins.elif elif.ne') (.inl rfl)
  · exact bounds (begins.otherwise otherwise.ne') (.inr (.inl rfl))
  · exact ⟨skipKeywordText_le s kwThen, Nat.le_refl _⟩
  · exact bounds (begins.fi fi) (.inr (.inr rfl))

/-! ## The plan is the interpreter -/

section Runs

variable {line : Runner σ}

/-- A plan run with the answers of a way to run lines. -/
def follow {α : Type} (line : Runner σ) (plan : LinePlan σ α) : Option α :=
  plan.run Place.Fits fun call => line call.1 call.2

theorem follow_block (body : Bytes) (s : Shell σ) :
    follow line (blockPlan body s) = execBlock line body s := by
  rw [follow, blockPlan, Plan.run_fold, execBlock]
  refine congrArg (List.foldlM · _ _) (funext fun last => funext fun text => ?_)
  rw [Plan.run_call]
  cases line text last.2
  · rfl
  · rfl

theorem slice_eq {lo hi : Nat} (ordered : lo ≤ hi) (inside : hi ≤ text.length) :
    slice text lo hi = some ((text.take hi).drop lo) := if_pos ⟨ordered, inside⟩

theorem slice_none {lo hi : Nat} (outside : ¬(lo ≤ hi ∧ hi ≤ text.length)) :
    slice text lo hi = none := if_neg outside

theorem elifFits_iff
    (found : ¬((findIfParts rest).1 = 0 ∨ findKeyword (elifText rest) kwThen = 0)) :
    Place.Fits (.elif rest) ↔ (findIfParts rest).1 ≤ elifStop rest ∧
      let bodyText := (elifText rest).drop (findKeyword (elifText rest) kwThen)
      skipKeywordText bodyText kwThen ≤ elifStop rest - (findIfParts rest).1 ∧
        elifStop rest - (findIfParts rest).1 ≤ bodyText.length := by
  obtain ⟨-, within⟩ := findKeyword_spec (mt Or.inr found)
  have length : (elifText rest).length = rest.length - (findIfParts rest).1 := List.length_drop
  unfold Place.Fits
  dsimp only
  rw [List.length_drop, length]
  rw [length] at within
  omega

theorem follow_elif (rest : Bytes) (s : Shell σ) : follow line (elifPlan rest s) =
    execElif line rest (findIfParts rest).1 (findIfParts rest).2.1 (findIfParts rest).2.2 s := by
  by_cases absent : (findIfParts rest).1 = 0 ∨ findKeyword (elifText rest) kwThen = 0
  · rw [elifPlan, execElif]
    exact (congrArg (follow line) (if_pos absent)).trans (if_pos absent).symm
  · rw [elifPlan, execElif]
    refine (congrArg (follow line) (if_neg absent)).trans
      (Eq.trans ?_ (if_neg absent).symm)
    have fits := elifFits_iff absent
    change _ = if elifStop rest < (findIfParts rest).1 then none else _
    rw [follow, Plan.run_check]
    by_cases held : Place.Fits (.elif rest)
    · obtain ⟨behind, ordered, inside⟩ := fits.mp held
      rw [if_pos held, if_neg (Nat.not_lt.mpr behind)]
      refine Eq.trans ?_ (congrArg (Option.bind · _) (slice_eq ordered inside)).symm
      refine congrArg (Option.bind _) (funext fun tested => ?_)
      change Plan.run _ _ (if tested.1 = 0 ∧ ¬(elifBody rest).isEmpty then _ else _) =
        if tested.1 = 0 ∧ ¬(elifBody rest).isEmpty then
          (execBlock line (elifBody rest) tested.2).map _ else _
      split_ifs
      · rw [Plan.run_bind, ← follow_block, Option.map_eq_bind]
        rfl
      · rfl
    · rw [if_neg held]
      by_cases before : elifStop rest < (findIfParts rest).1
      · rw [if_pos before]
      · rw [if_neg before]
        refine Eq.symm (congrArg (Option.bind · _) (slice_none fun bounds => held (fits.mpr ?_)))
        exact ⟨Nat.not_lt.mp before, bounds.1, bounds.2⟩

theorem follow_else (rest : Bytes) (s : Shell σ) :
    follow line (elsePlan rest s) = execElse line rest (findIfParts rest).2.1 s := by
  unfold elsePlan execElse
  dsimp only
  split_ifs
  · rfl
  · exact follow_block _ s

theorem follow_if (text : Bytes) (s : Shell σ) :
    follow line (ifPlan text s) = execIf line text s := by
  unfold ifPlan execIf
  dsimp only
  generalize skipFirstWord text = afterIf
  by_cases absent : findKeyword afterIf kwThen = 0
  · rw [if_pos absent, if_pos absent]
    rfl
  · rw [if_neg absent, if_neg absent]
    have leads := (findKeyword_spec absent).1
    generalize afterIf.drop (findKeyword afterIf kwThen) = rest at leads
    obtain ⟨ordered, inside⟩ := thenStop_bounds leads
    refine congrArg (Option.bind _) (funext fun tested => ?_)
    dsimp only
    by_cases passed : tested.1 = 0
    · rw [if_pos passed, if_pos passed]
      refine Eq.trans ?_ (congrArg (Option.bind · _) (slice_eq ordered inside)).symm
      change Plan.run _ _ (if (thenBody rest).isEmpty then _ else _) =
        if (thenBody rest).isEmpty then _ else execBlock line (thenBody rest) tested.2
      split_ifs
      · rfl
      · exact follow_block _ tested.2
    · rw [if_neg passed, if_neg passed, Plan.run_bind, ← follow_elif]
      refine congrArg (Option.bind _) (funext fun tried => ?_)
      cases tried.1 with
      | some code => rfl
      | none => exact follow_else rest tried.2

/-- The turns of a `for`. -/
theorem follow_items (name body : Bytes) (items : List Bytes) (s : Shell σ) :
    follow line ((Plan.fold (fun s item =>
        let s := s.setVar name item
        if body.isEmpty then .done s else (blockPlan body s).bind fun ran => .done ran.2) s
          items).bind fun s => .done (s.machine.lastExit, s)) =
      (items.foldlM (fun s item =>
        let s := s.setVar name item
        if body.isEmpty then some s else (execBlock line body s).map Prod.snd) s).map fun s =>
          (s.machine.lastExit, s) := by
  rw [follow, Plan.run_bind, Plan.run_fold, Option.map_eq_bind]
  refine congrArg (Option.bind · _) (congrArg (List.foldlM · _ _) ?_)
  refine funext fun s => funext fun item => ?_
  dsimp only
  split_ifs
  · rfl
  · rw [Plan.run_bind, ← follow_block, Option.map_eq_bind]
    rfl

theorem follow_for (text : Bytes) (s : Shell σ) :
    follow line (forPlan text s) = execFor line text s := by
  unfold forPlan execFor
  dsimp only
  generalize firstWord (skipFirstWord text) = name
  generalize skipFirstWord (trim isBlank (skipFirstWord (skipFirstWord text))) = afterIn
  by_cases unnamed : name.isEmpty
  · rw [if_pos unnamed, if_pos unnamed]
    rfl
  by_cases absent : findKeyword afterIn kwDo = 0
  · rw [if_neg unnamed, if_neg unnamed, if_pos absent, if_pos absent]
    rfl
  rw [if_neg unnamed, if_neg unnamed, if_neg absent, if_neg absent]
  generalize forItems _ = items
  generalize findKeyword afterIn kwDo = doPos
  generalize afterIn.drop doPos = rest
  rw [follow, Plan.run_check]
  change (if Place.Fits (.loop rest doPos) then follow line _ else none) = _
  rw [follow_items]
  by_cases ended : findKeyword rest kwDone > 0
  · have whole : forBody rest doPos =
        trim isBlank ((rest.take doPos).drop (skipKeywordText rest kwDo)) := by
      rw [forBody, if_pos ended]
    rw [if_pos ended]
    by_cases bounds : skipKeywordText rest kwDo ≤ doPos ∧ doPos ≤ rest.length
    · have fits : Place.Fits (.loop rest doPos) := fun _ => bounds
      rw [if_pos fits, slice_eq bounds.1 bounds.2, whole]
      rfl
    · have outside : ¬Place.Fits (.loop rest doPos) := fun fits => bounds (fits ended)
      rw [if_neg outside, slice_none bounds]
      rfl
  · have whole : forBody rest doPos = trim isBlank (rest.drop (skipKeywordText rest kwDo)) := by
      rw [forBody, if_neg ended]
    have fits : Place.Fits (.loop rest doPos) := fun later => absurd later ended
    rw [if_neg ended, if_pos fits, whole]
    rfl

theorem follow_single (command : Command σ) (raw : Bytes) (s : Shell σ) :
    follow line (singlePlan command raw s) = execSingleLine command line raw s := by
  unfold singlePlan execSingleLine
  dsimp only
  split_ifs
  · rfl
  · exact follow_if _ s
  · exact follow_for _ s
  · rfl

theorem follow_line (command : Command σ) (raw : Bytes) (s : Shell σ) :
    follow line (linePlan command (raw, s)) = execLineWith command line raw s := by
  unfold linePlan execLineWith expanded
  dsimp only
  split_ifs with empty parts
  · rfl
  · rw [follow, Plan.run_fold]
    exact congrArg (List.foldlM · _ _)
      (funext fun last => funext fun part => follow_single command part last.2)
  · exact follow_single command _ s

/-- The calls of the interpreter nest as deep as those of its plan. -/
theorem eval_linePlan (command : Command σ) (depth : Nat) (raw : Bytes) (s : Shell σ) :
    Plan.eval (linePlan command) Place.Fits depth (raw, s) = execLine command depth raw s := by
  induction depth generalizing raw s with
  | zero => rfl
  | succ depth ih =>
    have answers : (Plan.eval (linePlan command) Place.Fits depth) =
        fun call => execLine command depth call.1 call.2 :=
      funext fun call => ih call.1 call.2
    rw [Plan.eval, answers]
    exact follow_line command raw s

end Runs

/-! ## The size of a line -/

/-- The bytes of a text, without the zeros that fill the buffer of a pipe's part. -/
def size (text : Bytes) : Nat := text.countP (· ≠ 0)

/-- The size of a line with its variables replaced. -/
def expandedSize (call : Bytes × Shell σ) : Nat := size (expanded call.1 call.2)

theorem size_le (within : s.Sublist t) : size s ≤ size t := within.countP_le

theorem skipFirstWord_sublist (s : Bytes) : (skipFirstWord s).Sublist s :=
  (List.dropWhile_sublist _).trans ((List.dropWhile_sublist _).trans (trim_sublist isBlank s))

theorem mem_blockLines {n : Nat} {b line : Bytes} (listed : line ∈ blockLines n b) :
    line.Sublist b := by
  induction n generalizing b with
  | zero => cases listed
  | succ n ih =>
    have skipped := List.dropWhile_sublist (l := b) fun c => isBreak c || c = 13
    have later (listed : line ∈ blockLines n ((b.dropWhile fun c =>
        isBreak c || c = 13).dropWhile fun c => !isBreak c)) : line.Sublist b :=
      (ih listed).trans ((List.dropWhile_sublist _).trans skipped)
    unfold blockLines at listed
    dsimp only at listed
    split_ifs at listed
    · cases listed
    · exact later listed
    · rcases List.mem_cons.mp listed with rfl | listed
      · exact (trim_sublist isBlank _).trans ((List.takeWhile_sublist _).trans skipped)
      · exact later listed

/-- Skipping the first word skips its first letter. -/
theorem skipFirstWord_cons {c : UInt8} (solid : isGap c = false) (bold : isBlank c = false) :
    (skipFirstWord (c :: s)).Sublist s := by
  have begins : ∃ l, trim isBlank (c :: s) = c :: l ∧ l.Sublist s := by
    have start : (c :: s).dropWhile isBlank = c :: s :=
      List.dropWhile_cons_of_neg (by rw [bold]; exact Bool.false_ne_true)
    have before := List.rdropWhile_prefix isBlank (c :: s)
    rw [trim, start]
    cases kept : (c :: s).rdropWhile isBlank with
    | nil =>
      have blank := List.rdropWhile_eq_nil_iff.mp kept c List.mem_cons_self
      rw [bold] at blank
      cases blank
    | cons d l =>
      rw [kept, List.cons_prefix_cons] at before
      exact ⟨l, by rw [before.1], before.2.sublist⟩
  obtain ⟨l, trimmed, within⟩ := begins
  rw [skipFirstWord, trimmed, List.dropWhile_cons_of_pos (by rw [solid]; rfl)]
  exact (List.dropWhile_sublist _).trans ((List.dropWhile_sublist _).trans within)

theorem size_skipFirstWord (starts : startsWithWord s keyword = true)
    (word : keyword = kwIf ∨ keyword = kwFor) : size (skipFirstWord s) < size s := by
  obtain ⟨tail, rfl⟩ := isPrefix_of_starts starts
  rcases word with rfl | rfl
  · have within : (skipFirstWord (kwIf ++ tail)).Sublist (102 :: tail) :=
      skipFirstWord_cons (by decide) (by decide)
    exact Nat.lt_of_le_of_lt (size_le within) (by simp [size, kwIf])
  · have within : (skipFirstWord (kwFor ++ tail)).Sublist (111 :: 114 :: tail) :=
      skipFirstWord_cons (by decide) (by decide)
    exact Nat.lt_of_le_of_lt (size_le within) (by simp [size, kwFor])

/-- A part of a pipe is no larger than the line. -/
theorem size_of_mem_pipeParts {part : Bytes} (listed : part ∈ pipeParts text) :
    size part ≤ size text := by
  unfold pipeParts at listed
  dsimp only at listed
  obtain ⟨whole, cut, rfl⟩ := List.mem_map.mp listed
  have piece : whole ∈ text.splitOnP (· = 124) := by
    have taken := List.mem_of_mem_take cut
    split_ifs at taken
    · exact List.dropLast_subset _ taken
    · exact taken
  have padding (n : Nat) : size (List.rightpad n 0 (whole.take 255)) = size (whole.take 255) := by
    rw [List.rightpad, size, List.countP_append, List.countP_replicate]
    rfl
  rw [padding]
  exact size_le ((List.take_sublist _ _).trans (mem_splitOnP piece).2)

/-! ## Nested lines are smaller -/

section Nested

variable {answers : Bytes × Shell σ → UInt32 × Shell σ → Prop} {s : Shell σ}
  {inner : Bytes × Shell σ} {body : Bytes}

theorem size_of_block (meets : Plan.Meets answers (blockPlan body s) (.inr inner)) :
    size inner.1 ≤ size body := by
  obtain ⟨last, line, listed, called⟩ := meets.of_fold
  cases called with
  | call => exact size_le ((mem_blockLines listed).trans (trim_sublist isBlank body))
  | answered _ later => cases later

theorem size_of_elif (meets : Plan.Meets answers (elifPlan rest s) (.inr inner)) :
    size inner.1 ≤ size rest := by
  have fromElif : (elifText rest).Sublist rest := List.drop_sublist _ _
  have inBody : (elifBody rest).Sublist rest :=
    (trim_sublist isBlank _).trans ((List.drop_sublist _ _).trans ((List.take_sublist _ _).trans
      ((List.drop_sublist _ _).trans fromElif)))
  unfold elifPlan at meets
  dsimp only at meets
  split_ifs at meets
  · cases meets
  · cases meets with
    | passed later =>
      cases later with
      | call =>
        exact size_le ((trim_sublist isBlank _).trans ((List.take_sublist _ _).trans fromElif))
      | answered _ later =>
        dsimp only at later
        split_ifs at later
        · rcases later.of_bind with ran | ⟨value, none⟩
          · exact (size_of_block ran).trans (size_le inBody)
          · cases none
        · cases later

theorem trimEndFi_sublist (s : Bytes) : (trimEndFi s).Sublist s := by
  unfold trimEndFi
  dsimp only
  split_ifs
  · exact (List.take_sublist _ _).trans (trim_sublist isBlank s)
  · exact trim_sublist isBlank s

theorem size_of_else (meets : Plan.Meets answers (elsePlan rest s) (.inr inner)) :
    size inner.1 ≤ size rest := by
  unfold elsePlan at meets
  dsimp only at meets
  split_ifs at meets
  · cases meets
  · exact (size_of_block meets).trans (size_le ((trimEndFi_sublist _).trans
      ((trim_sublist isBlank _).trans ((List.drop_sublist _ _).trans (List.drop_sublist _ _)))))

theorem size_of_if (starts : startsWithWord text kwIf = true)
    (meets : Plan.Meets answers (ifPlan text s) (.inr inner)) : size inner.1 < size text := by
  refine Nat.lt_of_le_of_lt ?_ (size_skipFirstWord starts (.inl rfl))
  unfold ifPlan at meets
  dsimp only at meets
  generalize skipFirstWord text = afterIf at meets ⊢
  have fromThen : (afterIf.drop (findKeyword afterIf kwThen)).Sublist afterIf :=
    List.drop_sublist _ _
  by_cases absent : findKeyword afterIf kwThen = 0
  · rw [if_pos absent] at meets
    cases meets
  · rw [if_neg absent] at meets
    cases meets with
    | call => exact size_le ((trim_sublist isBlank _).trans (List.take_sublist _ _))
    | answered _ later =>
      dsimp only at later
      split_ifs at later
      · cases later
      · exact (size_of_block later).trans (size_le ((trim_sublist isBlank _).trans
          ((List.drop_sublist _ _).trans ((List.take_sublist _ _).trans fromThen))))
      · rcases later.of_bind with tried | ⟨⟨code, s'⟩, later⟩
        · exact (size_of_elif tried).trans (size_le fromThen)
        · cases code with
          | some code => cases later
          | none => exact (size_of_else later).trans (size_le fromThen)

theorem size_of_for (starts : startsWithWord text kwFor = true)
    (meets : Plan.Meets answers (forPlan text s) (.inr inner)) : size inner.1 < size text := by
  refine Nat.lt_of_le_of_lt ?_ (size_skipFirstWord starts (.inr rfl))
  have afterIn : (skipFirstWord (trim isBlank (skipFirstWord (skipFirstWord text)))).Sublist
      (skipFirstWord text) :=
    (skipFirstWord_sublist _).trans ((trim_sublist isBlank _).trans (skipFirstWord_sublist _))
  refine Nat.le_trans ?_ (size_le afterIn)
  unfold forPlan at meets
  dsimp only at meets
  generalize skipFirstWord (trim isBlank (skipFirstWord (skipFirstWord text))) = afterIn at meets ⊢
  have inBody (rest : Bytes) (doPos : Nat) : (forBody rest doPos).Sublist rest := by
    unfold forBody
    dsimp only
    split_ifs
    · exact (trim_sublist isBlank _).trans ((List.drop_sublist _ _).trans (List.take_sublist _ _))
    · exact (trim_sublist isBlank _).trans (List.drop_sublist _ _)
  split_ifs at meets
  · cases meets
  · cases meets
  · cases meets with
    | passed later =>
      rcases later.of_bind with looped | ⟨value, none⟩
      · obtain ⟨s', item, listed, turn⟩ := looped.of_fold
        cases turn
      · cases none
  · cases meets with
    | passed later =>
      rcases later.of_bind with looped | ⟨value, none⟩
      · obtain ⟨s', item, listed, turn⟩ := looped.of_fold
        rcases turn.of_bind with ran | ⟨value, none⟩
        · exact (size_of_block ran).trans (size_le ((inBody _ _).trans (List.drop_sublist _ _)))
        · cases none
      · cases none

theorem size_of_single {command : Command σ} {raw : Bytes}
    (meets : Plan.Meets answers (singlePlan command raw s) (.inr inner)) :
    size inner.1 < size raw := by
  have trimmed := size_le (trim_sublist isBlank raw)
  unfold singlePlan at meets
  dsimp only at meets
  split_ifs at meets with empty isIf isFor
  · cases meets
  · exact Nat.lt_of_lt_of_le (size_of_if isIf meets) trimmed
  · exact Nat.lt_of_lt_of_le (size_of_for isFor meets) trimmed
  · cases meets

/-- A line that stands in another one is smaller than that one, its variables replaced, is. -/
theorem size_of_nested {command : Command σ} {outer : Bytes × Shell σ}
    (meets : Plan.Meets answers (linePlan command outer) (.inr inner)) :
    size inner.1 < expandedSize outer := by
  unfold linePlan at meets
  dsimp only at meets
  split_ifs at meets with empty parts
  · cases meets
  · obtain ⟨last, part, listed, later⟩ := meets.of_fold
    exact Nat.lt_of_lt_of_le (size_of_single later) (size_of_mem_pipeParts listed)
  · exact size_of_single meets

end Nested

/-! ## The end of a run -/

/-- What happens when the lines of a text are run: the lines run in a state, at any depth, and
the places come to. -/
abbrev Happens (command : Command σ) {α : Type} (start : LinePlan σ α) :=
  Plan.Reached (linePlan command) Place.Fits start

/-- What happens in the run of a line, inside further lines apart. -/
abbrev HappensIn (command : Command σ) {α : Type} (start : LinePlan σ α) :=
  Plan.Meets (Plan.Answers (linePlan command) Place.Fits) start

/-- No line that stands in another one grows, its variables replaced, to the size of that one. -/
def Shortens (command : Command σ) {α : Type} (start : LinePlan σ α) : Prop :=
  ∀ outer inner, Happens command start (.inr outer) →
    HappensIn command (linePlan command outer) (.inr inner) →
    expandedSize inner < expandedSize outer

/-- Where the lines shorten, a text is run to its end exactly when every place that is come to
fits. -/
theorem runs_iff {command : Command σ} {α : Type} {start : LinePlan σ α}
    (shortens : Shortens command start) :
    (∃ depth, (follow (execLine command depth) start).isSome) ↔
      ∀ place, Happens command start (.inl place) → place.Fits := by
  have answers (depth : Nat) :
      (fun call : Bytes × Shell σ => execLine command depth call.1 call.2) =
        Plan.eval (linePlan command) Place.Fits depth :=
    funext fun call => (eval_linePlan command depth call.1 call.2).symm
  constructor
  · rintro ⟨depth, ended⟩ place reached
    obtain ⟨value, ran⟩ := Option.isSome_iff_exists.mp ended
    rw [follow, answers] at ran
    exact Plan.holds_of_run reached ran
  · intro fits
    obtain ⟨depth, value, ran⟩ := Plan.ends expandedSize fits shortens
    refine ⟨depth, ?_⟩
    rw [follow, answers, ran]
    rfl

/-- Lines shorten where no nested line grows when its variables are replaced. -/
theorem shortens_of_steady {command : Command σ} {α : Type} {start : LinePlan σ α}
    (steady : ∀ inner, Happens command start (.inr inner) → expandedSize inner ≤ size inner.1) :
    Shortens command start :=
  fun _ inner reached meets =>
    Nat.lt_of_le_of_lt (steady inner (.inner reached meets)) (size_of_nested meets)

/-- The interpreter comes to the end of a line, and to that of a block, exactly when no place it
comes to is out of bounds, unless a line inside a line grows to the size of that. -/
theorem interpretation_ends_iff (command : Command σ) (text : Bytes) (s : Shell σ)
    (lineShortens : Shortens command (.call (text, s) .done))
    (blockShortens : Shortens command (blockPlan text s)) :
    ((∃ depth, (execLine command depth text s).isSome) ↔
      ∀ place, Happens command (.call (text, s) .done) (.inl place) → place.Fits) ∧
    ((∃ depth, (execBlock (execLine command depth) text s).isSome) ↔
      ∀ place, Happens command (blockPlan text s) (.inl place) → place.Fits) := by
  refine ⟨?_, ?_⟩
  · rw [← runs_iff lineShortens]
    refine exists_congr fun depth => ?_
    rw [follow, Plan.run_call]
    cases execLine command depth text s
    · exact Iff.rfl
    · exact Iff.rfl
  · rw [← runs_iff blockShortens]
    exact exists_congr fun depth => by rw [follow_block]

/-- Every command fails. -/
def refuse : Command Unit := fun _ m => (1, m)

def shellWith (env : Env) : Shell Unit :=
  { machine := { env, lastExit := 0, world := () }, log := [] }

/-- `if a then b`. -/
def plainIf : Bytes := [105, 102, 32, 97, 32, 116, 104, 101, 110, 32, 98]

/-- Nothing else is run. -/
theorem plainIf_lines {call : Bytes × Shell Unit}
    (happens : Happens refuse (.call (plainIf, shellWith []) .done) (.inr call)) :
    call = (plainIf, shellWith []) ∨ call.1 = [97] ∨ call.1 = [98] := by
  generalize named : (Sum.inr call : Place ⊕ (Bytes × Shell Unit)) = event at happens
  induction happens generalizing call with
  | outer meets =>
    subst named
    cases meets with
    | call => exact .inl rfl
    | answered _ later => cases later
  | inner _ meets ih =>
    subst named
    rcases ih rfl with rfl | simple
    · have plan : linePlan refuse (plainIf, shellWith []) =
          .call ([97], shellWith []) fun tested =>
            if tested.1 = 0 then .call ([98], tested.2) .done else .done (0, tested.2) := rfl
      rw [plan] at meets
      cases meets with
      | call => exact .inr (.inl rfl)
      | answered _ later =>
        dsimp only at later
        split_ifs at later
        · cases later with
          | call => exact .inr (.inr rfl)
          | answered _ later => cases later
        · cases later
    · rename_i input _
      obtain ⟨text, s⟩ := input
      rcases simple with rfl | rfl
      · cases (show HappensIn refuse (.done (issue refuse [97] s)) _ from meets)
      · cases (show HappensIn refuse (.done (issue refuse [98] s)) _ from meets)

theorem plainIf_steady {call : Bytes × Shell Unit}
    (happens : Happens refuse (.call (plainIf, shellWith []) .done) (.inr call)) :
    expandedSize call ≤ size call.1 := by
  obtain ⟨text, s⟩ := call
  rcases plainIf_lines happens with same | rfl | rfl
  · rw [same]
    decide
  · exact Nat.le_refl 1
  · exact Nat.le_refl 1

theorem interpretation_ends_iff_plainIf :
    ((∃ depth, (execLine refuse depth plainIf (shellWith [])).isSome) ↔
      ∀ place, Happens refuse (.call (plainIf, shellWith []) .done) (.inl place) → place.Fits) ∧
    ((∃ depth, (execBlock (execLine refuse depth) plainIf (shellWith [])).isSome) ↔
      ∀ place, Happens refuse (blockPlan plainIf (shellWith [])) (.inl place) → place.Fits) :=
  interpretation_ends_iff refuse plainIf (shellWith []) (shortens_of_steady fun _ => plainIf_steady)
    (shortens_of_steady fun _ => plainIf_steady)

/-- `if a then if b elif c then d fi`. -/
def nestedElif : Bytes :=
  [105, 102, 32, 97, 32, 116, 104, 101, 110, 32, 105, 102, 32, 98, 32, 101, 108, 105, 102, 32, 99,
    32, 116, 104, 101, 110, 32, 100, 32, 102, 105]

/-- `X` is `if $X then`. -/
def quine : Env := [([88], [105, 102, 32, 36, 88, 32, 116, 104, 101, 110])]

theorem interpretation_stuck :
    (¬∃ depth, (execLine refuse depth nestedElif (shellWith [])).isSome) ∧
      ¬∃ depth, (execLine refuse depth [36, 88] (shellWith quine)).isSome := by
  constructor
  · rintro ⟨depth, ended⟩
    have stuck : execLine refuse depth nestedElif (shellWith []) = none := by
      match depth with
      | 0 => rfl
      | 1 => rfl
      | depth + 2 => rfl
    rw [stuck] at ended
    cases ended
  · rintro ⟨depth, ended⟩
    have stuck : execLine refuse depth [36, 88] (shellWith quine) = none := by
      clear ended
      induction depth with
      | zero => rfl
      | succ depth ih =>
        have again : execLine refuse (depth + 1) [36, 88] (shellWith quine) =
            (execLine refuse depth [36, 88] (shellWith quine)).bind fun tested =>
              if tested.1 = 0 then some (0, tested.2) else some (0, tested.2) := rfl
        rw [again, ih]
        rfl
    rw [stuck] at ended
    cases ended

end DBSos.Script
