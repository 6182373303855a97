import DBSos.Script.Lines

/-!
# The words of a command

`tokenize` cuts a line into the arguments of a command and its redirections. It knows about
quotes; the steps of `exec_line` before it, which cut off a comment and split a pipe, do not.
-/

namespace DBSos.Script

open DBSos.Lib

/-- What `tokenize` finds. Of a word, the 127 bytes that its buffer keeps. -/
structure Tokens where
  argv : List Bytes
  redirOut : Bytes
  redirOutAppend : Bool
  redirIn : Bytes
deriving DecidableEq

/-- The blanks between tokens. -/
def isSpace (c : UInt8) : Bool := c = 32 || c = 9

/-- What ends a word without quotes. -/
def endsWord (c : UInt8) : Bool := isSpace c || c = 124 || c = 62 || c = 60

/-- What ends the name of a redirection. -/
def endsTarget (c : UInt8) : Bool := isSpace c || c = 10 || c = 124

def isQuote (c : UInt8) : Bool := c = 34 || c = 39

/-- The loop of `tokenize`, with as many turns as the line has bytes. -/
def tokenizeLoop : Nat → Tokens → Bytes → Tokens
  | 0, t, _ => t
  | n + 1, t, line =>
    match line.dropWhile isSpace with
    | [] => t
    | c :: rest =>
      if c = 35 then t
      else if c = 62 then
        let append := rest.head? = some 62
        let rest := (if append then rest.tail else rest).dropWhile (· = 32)
        let target := rest.takeWhile fun c => !endsTarget c
        tokenizeLoop n
          { t with
            redirOut := target.take 127
            redirOutAppend := append || t.redirOutAppend }
          (rest.drop target.length)
      else if c = 60 then
        let rest := rest.dropWhile (· = 32)
        let target := rest.takeWhile fun c => !endsTarget c
        tokenizeLoop n { t with redirIn := target.take 127 } (rest.drop target.length)
      else if c = 124 then t
      else if t.argv.length ≥ 16 then t
      else if isQuote c then
        -- Anything up to the next quote of the kind, which is passed over.
        let word := rest.takeWhile (· ≠ c)
        tokenizeLoop n { t with argv := t.argv ++ [word.take 127] }
          (rest.drop (word.length + 1))
      else
        let word := (c :: rest).takeWhile fun c => !endsWord c
        tokenizeLoop n { t with argv := t.argv ++ [word.take 127] }
          ((c :: rest).drop word.length)

def noTokens : Tokens := { argv := [], redirOut := [], redirOutAppend := false, redirIn := [] }

/-- `tokenize`. -/
def tokenize (line : Bytes) : Tokens := tokenizeLoop line.length noTokens line

/-- A simple command, from its words and redirections to its exit code and the next state. -/
abbrev Single (σ : Type) := Tokens → Machine σ → UInt32 × Machine σ

/-- `exec_single` behind `tokenize`. -/
def execTokens {σ : Type} (single : Single σ) : Command σ := fun text m => single (tokenize text) m

/-- Arguments without a redirection. -/
def arguments (words : List Bytes) : Tokens := { noTokens with argv := words }

/-- `exec_line` runs the line as one command with just these arguments. -/
def ExecutesAs (words : List Bytes) (line : Bytes) : Prop :=
  ∃ text, tokenize text = arguments words ∧ ∀ (σ : Type) (single : Single σ) (depth : Nat)
    (s : Shell σ), execLine (execTokens single) (depth + 1) line s =
      some (issue (execTokens single) text s)

/-- A word in double quotes. -/
def quote (word : Bytes) : Bytes := 34 :: (word ++ [34])

/-- The words with a space between each two. -/
def joined (words : List Bytes) : Bytes := [32].intercalate words

/-- A list of words that can stand in quotes. -/
structure Words where
  list : List Bytes
  nonempty : list ≠ []
  few : list.length ≤ 16
  short : ∀ word ∈ list, word.length ≤ 127
  plain : ∀ word ∈ list, ∀ c ∈ word, c ≠ 0 ∧ c ≠ 10 ∧ c ≠ 36 ∧ isQuote c = false
  fits : (joined (list.map quote)).length ≤ 1000

/-- Words that can stand without quotes. -/
structure Bare (words : List Bytes) : Prop where
  nonempty : ∀ word ∈ words, word ≠ []
  solid : ∀ word ∈ words, ∀ c ∈ word,
    isSpace c = false ∧ c ≠ 35 ∧ c ≠ 124 ∧ c ≠ 62 ∧ c ≠ 60 ∧ c ≠ 59
  command : words.head? ≠ some kwIf ∧ words.head? ≠ some kwFor

/-! ## Tokens -/

variable {n : Nat} {t : Tokens} {word rest line : Bytes} {words : List Bytes}

theorem tokenizeLoop_nil : tokenizeLoop n t [] = t := by
  cases n with
  | zero => rfl
  | succ n => rfl

theorem tokenizeLoop_space : tokenizeLoop n t (32 :: rest) = tokenizeLoop n t rest := by
  cases n with
  | zero => rfl
  | succ n => rfl

/-- What can follow a word. -/
def Apart (rest : Bytes) : Prop := rest = [] ∨ ∃ later, rest = 32 :: later

theorem tokenizeLoop_quote (short : word.length ≤ 127) (plain : ∀ c ∈ word, c ≠ 34)
    (room : t.argv.length < 16) : tokenizeLoop (n + 1) t (quote word ++ rest) =
      tokenizeLoop n { t with argv := t.argv ++ [word] } rest := by
  have cut : (word ++ 34 :: rest).takeWhile (· ≠ 34) = word := by
    rw [List.takeWhile_append_of_pos fun c listed => decide_eq_true (plain c listed),
      List.takeWhile_cons_of_neg (by decide), List.append_nil]
  have start : (quote word ++ rest).dropWhile isSpace = 34 :: (word ++ 34 :: rest) := by
    rw [quote, List.cons_append, List.append_assoc, List.singleton_append,
      List.dropWhile_cons_of_neg (by decide)]
  have behind : (word ++ 34 :: rest).drop (word.length + 1) = rest := by
    rw [List.drop_append, List.drop_of_length_le (Nat.le_succ _), Nat.add_sub_cancel_left]
    rfl
  rw [tokenizeLoop, start]
  dsimp only
  rw [if_neg (by decide), if_neg (by decide), if_neg (by decide), if_neg (by decide),
    if_neg (Nat.not_le.mpr room), if_pos (by decide), cut, behind, List.take_of_length_le short]

theorem tokenizeLoop_bare (short : word.length ≤ 127) (nonempty : word ≠ [])
    (solid : ∀ c ∈ word, endsWord c = false ∧ c ≠ 35 ∧ isQuote c = false)
    (room : t.argv.length < 16) (apart : Apart rest) :
    tokenizeLoop (n + 1) t (word ++ rest) =
      tokenizeLoop n { t with argv := t.argv ++ [word] } rest := by
  obtain ⟨c, tail, rfl⟩ := List.exists_cons_of_ne_nil nonempty
  have cut : ((c :: tail) ++ rest).takeWhile (fun c => !endsWord c) = c :: tail := by
    rw [List.takeWhile_append_of_pos fun c listed => by rw [(solid c listed).1]; rfl]
    rcases apart with rfl | ⟨later, rfl⟩
    · exact List.append_nil _
    · rw [List.takeWhile_cons_of_neg (by decide), List.append_nil]
  obtain ⟨inside, uncommented, unquoted⟩ := solid c List.mem_cons_self
  simp only [endsWord, Bool.or_eq_false_iff, decide_eq_false_iff_not] at inside
  obtain ⟨⟨⟨solid, bar⟩, out⟩, into⟩ := inside
  have start : ((c :: tail) ++ rest).dropWhile isSpace = c :: (tail ++ rest) :=
    List.dropWhile_cons_of_neg (by rw [solid]; exact Bool.false_ne_true)
  rw [tokenizeLoop, start]
  dsimp only
  rw [if_neg uncommented, if_neg out, if_neg into, if_neg bar, if_neg (Nat.not_le.mpr room),
    unquoted, if_neg Bool.false_ne_true, ← List.cons_append, cut, List.drop_left,
    List.take_of_length_le short]

/-- Words written one after the other are the arguments. -/
theorem tokenizeLoop_joined {form : Bytes → Bytes}
    (each : ∀ word ∈ words, ∀ n t rest, t.argv.length < 16 → Apart rest →
      tokenizeLoop (n + 1) t (form word ++ rest) =
        tokenizeLoop n { t with argv := t.argv ++ [word] } rest)
    (turns : words.length ≤ n) (few : t.argv.length + words.length ≤ 16) :
    tokenizeLoop n t (joined (words.map form)) = { t with argv := t.argv ++ words } := by
  induction words generalizing n t with
  | nil => rw [List.append_nil, joined, List.map_nil, List.intercalate_nil, tokenizeLoop_nil]
  | cons word words ih =>
    rw [List.length_cons] at turns few
    obtain ⟨n, rfl⟩ := Nat.exists_eq_add_of_le (Nat.one_le_of_lt turns)
    have first := each word List.mem_cons_self n t
    have later := @ih n { t with argv := t.argv ++ [word] }
      (fun word listed => each word (List.mem_cons_of_mem _ listed)) (by omega)
      (by simp; omega)
    rw [List.append_assoc, List.singleton_append] at later
    rw [Nat.add_comm]
    cases words with
    | nil =>
      rw [List.map_cons, List.map_nil, joined, List.intercalate_singleton,
        ← List.append_nil (form word), first [] (by omega) (.inl rfl), tokenizeLoop_nil]
    | cons next words =>
      rw [List.map_cons, List.map_cons, joined, List.intercalate_cons_cons, List.append_assoc,
        List.singleton_append, first _ (by omega) (.inr ⟨_, rfl⟩), tokenizeLoop_space]
      exact later

/-- Every byte of a word comes from its own place in the line. -/
theorem tokenizeLoop_sublist (n : Nat) (t : Tokens) (line : Bytes) :
    (tokenizeLoop n t line).argv.flatten.Sublist (t.argv.flatten ++ line) := by
  induction n generalizing t line with
  | zero => exact List.sublist_append_left _ _
  | succ n ih =>
    have skipped := List.dropWhile_sublist (l := line) isSpace
    have redirected (t' : Tokens) (rest : Bytes) (same : t'.argv = t.argv)
        (within : rest.Sublist line) :
        (tokenizeLoop n t' rest).argv.flatten.Sublist (t.argv.flatten ++ line) := by
      have later := ih t' rest
      rw [same] at later
      exact later.trans (within.append_left _)
    have added (word rest : Bytes) (within : (word ++ rest).Sublist line) :
        (tokenizeLoop n { t with argv := t.argv ++ [word.take 127] } rest).argv.flatten.Sublist
          (t.argv.flatten ++ line) := by
      have later := ih { t with argv := t.argv ++ [word.take 127] } rest
      rw [List.flatten_append, List.flatten_singleton, List.append_assoc] at later
      exact later.trans ((((List.take_sublist _ _).append_right _).trans within).append_left _)
    unfold tokenizeLoop
    cases found : line.dropWhile isSpace with
    | nil => exact List.sublist_append_left _ _
    | cons c rest =>
      rw [found] at skipped
      have behind : rest.Sublist line := (List.sublist_cons_self c rest).trans skipped
      dsimp only
      by_cases comment : c = 35
      · rw [if_pos comment]
        exact List.sublist_append_left _ _
      by_cases out : c = 62
      · rw [if_neg comment, if_pos out]
        refine redirected _ _ rfl ((List.drop_sublist _ _).trans
          ((List.dropWhile_sublist _).trans ?_))
        split_ifs
        · exact (List.tail_sublist rest).trans behind
        · exact behind
      by_cases into : c = 60
      · rw [if_neg comment, if_neg out, if_pos into]
        exact redirected _ _ rfl ((List.drop_sublist _ _).trans
          ((List.dropWhile_sublist _).trans behind))
      rw [if_neg comment, if_neg out, if_neg into]
      split_ifs
      · exact List.sublist_append_left _ _
      · exact List.sublist_append_left _ _
      · refine added _ _ (List.Sublist.trans ?_ behind)
        have whole := List.prefix_iff_eq_append.mp
          (List.takeWhile_prefix (fun d => decide (d ≠ c)) (l := rest))
        conv_rhs => rw [← whole]
        rw [← List.drop_drop]
        exact (List.drop_sublist 1 _).append_left _
      · refine added _ _ (List.Sublist.trans ?_ skipped)
        rw [List.prefix_iff_eq_append.mp (List.takeWhile_prefix _)]

theorem tokenize_sublist (line : Bytes) : (tokenize line).argv.flatten.Sublist line :=
  tokenizeLoop_sublist line.length noTokens line

/-! ## Lines of words -/

variable {words : Words} {σ : Type} {single : Single σ} {s : Shell σ}

theorem length_le_joined {list : List Bytes} (full : ∀ word ∈ list, word ≠ []) :
    list.length ≤ (joined list).length := by
  induction list with
  | nil => exact Nat.zero_le _
  | cons word list ih =>
    have later := ih fun word listed => full word (List.mem_cons_of_mem _ listed)
    have positive := List.length_pos_of_ne_nil (full word List.mem_cons_self)
    cases list with
    | nil =>
      rw [joined, List.intercalate_singleton]
      exact positive
    | cons next list =>
      rw [joined, List.intercalate_cons_cons, List.length_append, List.length_append,
        List.length_cons]
      exact Nat.add_comm _ 1 ▸ Nat.add_le_add (Nat.le_add_right_of_le positive) later

/-- The bytes of the words, and spaces. -/
theorem mem_joined {list : List Bytes} {c : UInt8} (listed : c ∈ joined list) :
    c = 32 ∨ ∃ word ∈ list, c ∈ word := by
  induction list with
  | nil => cases listed
  | cons word list ih =>
    cases list with
    | nil =>
      rw [joined, List.intercalate_singleton] at listed
      exact .inr ⟨word, List.mem_cons_self, listed⟩
    | cons next list =>
      rw [joined, List.intercalate_cons_cons, List.append_assoc,
        List.singleton_append] at listed
      rcases List.mem_append.mp listed with first | rest
      · exact .inr ⟨word, List.mem_cons_self, first⟩
      · rcases List.mem_cons.mp rest with space | later
        · exact .inl space
        · exact (ih later).imp_right fun ⟨word, among, inside⟩ =>
            ⟨word, List.mem_cons_of_mem _ among, inside⟩

theorem sublist_joined {list : List Bytes} (listed : word ∈ list) : word.Sublist (joined list) := by
  induction list with
  | nil => cases listed
  | cons first list ih =>
    cases list with
    | nil =>
      rw [List.mem_singleton.mp listed, joined, List.intercalate_singleton]
    | cons next list =>
      rw [joined, List.intercalate_cons_cons]
      rcases List.mem_cons.mp listed with rfl | later
      · exact (List.sublist_append_left _ _).trans (List.sublist_append_left _ _)
      · exact (ih later).trans (List.sublist_append_right _ _)

theorem Words.tokenize_quoted (words : Words) :
    tokenize (joined (words.list.map quote)) = arguments words.list := by
  refine tokenizeLoop_joined (fun word listed n t rest room apart => ?_) ?_
    (show 0 + words.list.length ≤ 16 by rw [Nat.zero_add]; exact words.few)
  · refine tokenizeLoop_quote (words.short word listed) (fun c inside => ?_) room
    rintro rfl
    exact absurd (words.plain word listed _ inside).2.2.2 (by decide)
  · have turns := length_le_joined fun word (listed : word ∈ words.list.map quote) => by
      obtain ⟨inner, -, rfl⟩ := List.mem_map.mp listed
      exact List.cons_ne_nil _ _
    rwa [List.length_map] at turns

theorem Words.tokenize_bare (words : Words) (bare : Bare words.list) :
    tokenize (joined words.list) = arguments words.list := by
  have each (word : Bytes) (listed : word ∈ words.list) (n : Nat) (t : Tokens) (rest : Bytes)
      (room : t.argv.length < 16) (apart : Apart rest) : tokenizeLoop (n + 1) t (id word ++ rest) =
        tokenizeLoop n { t with argv := t.argv ++ [word] } rest := by
    refine tokenizeLoop_bare (words.short word listed) (bare.nonempty word listed)
      (fun c inside => ?_) room apart
    obtain ⟨solid, comment, bar, out, into, -⟩ := bare.solid word listed c inside
    exact ⟨by simp [endsWord, solid, bar, out, into], comment,
      (words.plain word listed c inside).2.2.2⟩
  have cut := @tokenizeLoop_joined _ noTokens _ id each (length_le_joined bare.nonempty)
    (show 0 + words.list.length ≤ 16 by rw [Nat.zero_add]; exact words.few)
  rwa [List.map_id] at cut

/-! ## What a line of words is run as -/

theorem trim_of_ends {c d : UInt8} {front back : Bytes} (starts : line = c :: back)
    (ends : line = front ++ [d]) (first : isBlank c = false) (last : isBlank d = false) :
    trim isBlank line = line := by
  have solid : line.dropWhile isBlank = line := by
    rw [starts, List.dropWhile_cons_of_neg (by rw [first]; exact Bool.false_ne_true)]
  rw [trim, solid, ends, List.rdropWhile_concat_neg _ _ _ (by rw [last]; exact Bool.false_ne_true)]

theorem executesAs_of_clear {words : List Bytes} (clear : Clear line) (nonempty : line ≠ [])
    (trimmed : trim isBlank line = line) (ordinary : Ordinary line)
    (cut : tokenize line = arguments words) : ExecutesAs words line :=
  ⟨line, cut, fun _ single depth s =>
    execLine_clear (execTokens single) depth s clear nonempty trimmed ordinary⟩

section Alone

variable {σ : Type} {command : Command σ} {s s' : Shell σ} {code : UInt32}

theorem execIf_alone {text : Bytes} (ran : execIf (fun _ _ => none) text s = some (code, s')) :
    s'.log = s.log := by
  unfold execIf at ran
  dsimp only at ran
  by_cases absent : findKeyword (skipFirstWord text) kwThen = 0
  · rw [if_pos absent] at ran
    cases ran
    rfl
  · rw [if_neg absent] at ran
    cases ran

theorem execFor_alone {text : Bytes} (ran : execFor (fun _ _ => none) text s = some (code, s')) :
    s'.log = s.log := by
  have still {body : Bytes} {s s' : Shell σ} {code : UInt32}
      (ran : execBlock (fun _ _ => none) body s = some (code, s')) : s'.log = s.log := by
    unfold execBlock at ran
    dsimp only at ran
    cases lines : blockLines (trim isBlank body).length (trim isBlank body) with
    | nil =>
      rw [lines] at ran
      cases ran
      rfl
    | cons line later =>
      rw [lines] at ran
      cases ran
  have turns {name body : Bytes} (items : List Bytes) {s s' : Shell σ}
      (ran : items.foldlM (fun s item =>
        let s := s.setVar name item
        if body.isEmpty then some s else (execBlock (fun _ _ => none) body s).map Prod.snd) s =
          some s') : s'.log = s.log := by
    induction items generalizing s with
    | nil =>
      cases ran
      rfl
    | cons item items ih =>
      rw [List.foldlM_cons] at ran
      obtain ⟨middle, first, rest⟩ := Option.bind_eq_some_iff.mp ran
      rw [ih rest]
      dsimp only at first
      split_ifs at first
      · cases first
        rfl
      · obtain ⟨⟨code, last⟩, block, same⟩ := Option.map_eq_some_iff.mp first
        cases same
        exact (still block).trans rfl
  unfold execFor at ran
  dsimp only at ran
  by_cases unnamed : (firstWord (skipFirstWord text)).isEmpty
  · rw [if_pos unnamed] at ran
    cases ran
    rfl
  rw [if_neg unnamed] at ran
  generalize skipFirstWord (trim isBlank (skipFirstWord (skipFirstWord text))) = afterIn at ran
  by_cases absent : findKeyword afterIn kwDo = 0
  · rw [if_pos absent] at ran
    cases ran
    rfl
  rw [if_neg absent] at ran
  obtain ⟨body, -, ran⟩ := Option.bind_eq_some_iff.mp ran
  obtain ⟨last, loop, same⟩ := Option.map_eq_some_iff.mp ran
  cases same
  exact turns _ loop

/-- Where no line is run inside, a line runs at most itself as a command. -/
theorem execSingleLine_alone
    (ran : execSingleLine command (fun _ _ => none) line s = some (code, s')) :
    Adds (· = trim isBlank line) s s' := by
  unfold execSingleLine at ran
  dsimp only at ran
  split_ifs at ran
  · cases ran
    exact .refl _
  · exact ⟨[], by rw [execIf_alone ran, List.append_nil], nofun⟩
  · exact ⟨[], by rw [execFor_alone ran, List.append_nil], nofun⟩
  · cases ran
    exact adds_issue rfl

/-- A line without a dollar, cut at its comment. -/
def uncommented (line : Bytes) : Bytes := trim isBlank (line.takeWhile (· ≠ 35))

theorem foldlM_alone {parts : List Bytes} {last : UInt32}
    (ran : parts.foldlM (fun last part =>
      execSingleLine command (fun _ _ => none) part last.2) (last, s) = some (code, s')) :
    Adds (fun text => ∃ piece ∈ parts, text = trim isBlank piece) s s' := by
  induction parts generalizing s last with
  | nil =>
    cases ran
    exact .refl _
  | cons part parts ih =>
    rw [List.foldlM_cons] at ran
    obtain ⟨⟨code, middle⟩, first, rest⟩ := Option.bind_eq_some_iff.mp ran
    refine Adds.trans ((execSingleLine_alone first).mono fun text same =>
      ⟨part, List.mem_cons_self, same⟩) ((ih rest).mono ?_)
    rintro text ⟨piece, listed, same⟩
    exact ⟨piece, List.mem_cons_of_mem _ listed, same⟩

theorem mem_of_mem_pipeParts {text part : Bytes} {c : UInt8} (listed : part ∈ pipeParts text)
    (inside : c ∈ part) : c = 0 ∨ c ∈ text ∧ c ≠ 124 := by
  unfold pipeParts at listed
  dsimp only at listed
  obtain ⟨whole, cut, rfl⟩ := List.mem_map.mp listed
  have piece : whole ∈ text.splitOnP (· = 124) := by
    have taken := List.mem_of_mem_take cut
    split_ifs at taken
    · exact List.dropLast_subset _ taken
    · exact taken
  obtain ⟨solid, within⟩ := mem_splitOnP piece
  rcases List.mem_append.mp inside with kept | padding
  · have among := List.mem_of_mem_take kept
    exact .inr ⟨within.subset among, of_decide_eq_false (solid c among)⟩
  · exact .inl (List.eq_of_mem_replicate padding)

/-- A bar before the last byte makes a pipe. -/
theorem one_lt_length_pipeParts {front : Bytes} {d : UInt8} (bar : 124 ∈ front) :
    1 < (pipeParts (front ++ [d])).length := by
  obtain ⟨before, behind, rfl⟩ := List.append_of_mem bar
  have breaks : decide ((124 : UInt8) = 124) = true := by decide
  have split : (before ++ 124 :: behind ++ [d]).splitOnP (· = 124) =
      before.splitOnP (· = 124) ++ (behind ++ [d]).splitOnP (· = 124) := by
    rw [List.append_assoc, List.cons_append]
    exact List.splitOnP_append_cons (p := fun c => decide (c = 124)) before (behind ++ [d]) breaks
  have first := List.length_pos_of_ne_nil (List.splitOnP_ne_nil (· = 124) before)
  have second := List.length_pos_of_ne_nil (List.splitOnP_ne_nil (· = 124) (behind ++ [d]))
  have enough : 1 < ((if ((before ++ 124 :: behind ++ [d]).splitOnP (· = 124)).getLast? = some []
      then ((before ++ 124 :: behind ++ [d]).splitOnP (· = 124)).dropLast
      else (before ++ 124 :: behind ++ [d]).splitOnP (· = 124)).take 8).length := by
    rw [split, List.length_take]
    split_ifs with empty
    · by_cases more : ∀ c ∈ behind ++ [d], decide (c = 124) = false
      · rw [List.splitOnP_eq_singleton more, List.getLast?_concat] at empty
        exact absurd (Option.some.inj empty) (by simp)
      · push Not at more
        obtain ⟨c, inside, isBar⟩ := more
        have again : 1 < ((behind ++ [d]).splitOnP (· = 124)).length := by
          obtain ⟨xs, ys, cut⟩ := List.append_of_mem inside
          have first := List.length_pos_of_ne_nil (List.splitOnP_ne_nil (· = 124) xs)
          have second := List.length_pos_of_ne_nil (List.splitOnP_ne_nil (· = 124) ys)
          rw [cut, List.splitOnP_append_cons (p := fun c => decide (c = 124)) xs ys
            (eq_true_of_ne_false isBar), List.length_append]
          omega
        rw [List.length_dropLast, List.length_append]
        omega
    · rw [List.length_append]
      omega
  unfold pipeParts
  dsimp only
  rwa [List.length_map]

/-- What can be run of a line: itself, or the parts of the pipe that it is taken for. -/
def Runnable (line piece : Bytes) : Prop :=
  if (pipeParts (uncommented line)).length > 1 then piece ∈ pipeParts (uncommented line)
  else piece = uncommented line

theorem execLine_alone (short : line.length ≤ 1023) (plain : ∀ c ∈ line, c ≠ 36)
    (ran : execLine command 1 line s = some (code, s')) :
    Adds (fun text => ∃ piece, Runnable line piece ∧ text = trim isBlank piece) s s' := by
  have within : (uncommented line).Sublist line :=
    (trim_sublist isBlank _).trans (List.takeWhile_sublist _)
  have expanded : expandVars s.machine.env s.machine.lastExit (uncommented line) =
      uncommented line :=
    expandLoop_plain (Nat.le_refl _) (within.length_le.trans short) fun c inside =>
      plain c (within.subset inside)
  unfold execLine execLineWith at ran
  dsimp only at ran
  rw [show trim isBlank (line.takeWhile fun c => decide (c ≠ 35)) = uncommented line from rfl,
    expanded] at ran
  split_ifs at ran with empty parts
  · cases ran
    exact .refl _
  · refine (foldlM_alone ran).mono ?_
    rintro text ⟨piece, listed, same⟩
    exact ⟨piece, by rwa [Runnable, if_pos parts], same⟩
  · exact (execSingleLine_alone ran).mono fun text same =>
      ⟨uncommented line, by rw [Runnable, if_neg parts], same⟩

end Alone

/-- A line that is run as some words has a runnable piece that they are found in, no `if` or
`for`. -/
theorem ExecutesAs.piece {words : List Bytes} (executes : ExecutesAs words line)
    (short : line.length ≤ 1023) (plain : ∀ c ∈ line, c ≠ 36) :
    ∃ piece, Runnable line piece ∧ Ordinary (trim isBlank piece) ∧
      words.flatten.Sublist (trim isBlank piece) := by
  obtain ⟨text, cut, runs⟩ := executes
  let s : Shell Unit := { machine := { env := [], lastExit := 0, world := () }, log := [] }
  have ran := runs Unit (fun _ m => (0, m)) 0 s
  obtain ⟨run, log, all⟩ := execLine_alone short plain ran
  obtain ⟨run', log', ordinary⟩ := execLine_logs 1 line s _ _ ran
  have one : [text] = run := log
  have one' : [text] = run' := log'
  obtain ⟨piece, runnable, same⟩ := all text (by rw [← one]; exact List.mem_singleton_self text)
  have within := tokenize_sublist text
  rw [cut] at within
  subst same
  exact ⟨piece, runnable, ordinary _ (by rw [← one']; exact List.mem_singleton_self _), within⟩

/-- A line of words begins and ends like one of them. -/
theorem joined_ends {list : List Bytes} {P : UInt8 → Prop} (nonempty : list ≠ [])
    (ends : ∀ word ∈ list, word ≠ [] ∧ (∀ c, word.head? = some c → P c) ∧
      ∀ d, word.getLast? = some d → P d) :
    ∃ c back front d, joined list = c :: back ∧ joined list = front ++ [d] ∧ P c ∧ P d := by
  induction list with
  | nil => exact absurd rfl nonempty
  | cons word list ih =>
    obtain ⟨full, first, last⟩ := ends word List.mem_cons_self
    obtain ⟨c, back, starts⟩ := List.exists_cons_of_ne_nil full
    have fits : P c := first c (by rw [starts]; rfl)
    cases list with
    | nil =>
      have cut := List.dropLast_append_getLast full
      rw [joined, List.intercalate_singleton]
      exact ⟨c, back, word.dropLast, word.getLast full, starts, cut.symm, fits,
        last _ (List.getLast?_eq_some_getLast full)⟩
    | cons next list =>
      obtain ⟨c', back', front, d, -, closes, -, closed⟩ := ih
        (List.cons_ne_nil _ _) fun word listed => ends word (List.mem_cons_of_mem _ listed)
      have grown : joined (word :: next :: list) = word ++ [32] ++ joined (next :: list) :=
        List.intercalate_cons_cons
      rw [grown]
      refine ⟨c, back ++ [32] ++ joined (next :: list), word ++ [32] ++ front, d, ?_, ?_, fits,
        closed⟩
      · rw [starts, List.cons_append, List.cons_append]
      · rw [closes]
        exact (List.append_assoc _ front [d]).symm

/-! ## Quoted words -/

namespace Words

variable (words : Words)

/-- The words in quotes. -/
def quoted : Bytes := joined (words.list.map quote)

theorem mem_quoted {c : UInt8} (listed : c ∈ words.quoted) :
    c = 32 ∨ c = 34 ∨ ∃ word ∈ words.list, c ∈ word := by
  rcases mem_joined listed with space | ⟨form, among, inside⟩
  · exact .inl space
  · obtain ⟨word, listed, rfl⟩ := List.mem_map.mp among
    simp only [quote, List.mem_cons, List.mem_append, List.not_mem_nil, or_false] at inside
    rcases inside with open_ | inside | close
    · exact .inr (.inl open_)
    · exact .inr (.inr ⟨word, listed, inside⟩)
    · exact .inr (.inl close)

theorem quoted_no_dollar : ∀ c ∈ words.quoted, c ≠ 36 := by
  rintro c listed rfl
  rcases words.mem_quoted listed with space | quote | ⟨word, among, inside⟩
  · cases space
  · cases quote
  · exact (words.plain word among _ inside).2.2.1 rfl

theorem quoted_ends : ∃ back front, words.quoted = 34 :: back ∧ words.quoted = front ++ [34] := by
  obtain ⟨c, back, front, d, starts, ends, rfl, rfl⟩ := @joined_ends (words.list.map quote)
    (· = 34) (by simpa using words.nonempty) (by
      intro form listed
      obtain ⟨word, -, rfl⟩ := List.mem_map.mp listed
      refine ⟨List.cons_ne_nil _ _, by simp [quote], fun d last => ?_⟩
      rw [quote, ← List.cons_append, List.getLast?_concat] at last
      exact (Option.some.inj last).symm)
  exact ⟨back, front, starts, ends⟩

theorem trim_quoted : trim isBlank words.quoted = words.quoted := by
  obtain ⟨back, front, starts, ends⟩ := words.quoted_ends
  exact trim_of_ends starts ends (by decide) (by decide)

/-- A line of quoted words is run as its words exactly when no word holds a `#` or a bar. -/
theorem executes_quoted_iff : ExecutesAs words.list words.quoted ↔
    ∀ word ∈ words.list, 35 ∉ word ∧ 124 ∉ word := by
  have short : words.quoted.length ≤ 1023 := Nat.le_trans words.fits (by decide)
  obtain ⟨back, front, starts, ends⟩ := words.quoted_ends
  constructor
  · intro executes
    obtain ⟨piece, runnable, -, within⟩ := executes.piece short words.quoted_no_dollar
    have holds {c : UInt8} {word : Bytes} (listed : word ∈ words.list) (inside : c ∈ word) :
        c ∈ piece :=
      (within.trans (trim_sublist isBlank piece)).subset
        (List.mem_flatten.mpr ⟨word, listed, inside⟩)
    have cut : 35 ∉ uncommented words.quoted := fun inside => by
      have kept := List.mem_takeWhile_imp ((trim_sublist isBlank _).subset inside)
      exact absurd kept (by decide)
    have noComment : ∀ word ∈ words.list, 35 ∉ word := by
      intro word listed inside
      have among := holds listed inside
      unfold Runnable at runnable
      split_ifs at runnable
      · rcases mem_of_mem_pipeParts runnable among with zero | ⟨inside, -⟩
        · cases zero
        · exact cut inside
      · exact cut (runnable ▸ among)
    refine fun word listed => ⟨noComment word listed, fun inside => ?_⟩
    have whole : uncommented words.quoted = words.quoted := by
      have all : words.quoted.takeWhile (fun c => decide (c ≠ 35)) = words.quoted := by
        refine List.takeWhile_eq_self_iff.mpr fun c member => decide_eq_true ?_
        rintro rfl
        rcases words.mem_quoted member with space | quote | ⟨word, among, inside⟩
        · cases space
        · cases quote
        · exact noComment word among inside
      rw [uncommented, all, words.trim_quoted]
    have bar : 124 ∈ front := by
      have among : 124 ∈ words.quoted := by
        refine (sublist_joined (List.mem_map_of_mem listed)).subset ?_
        rw [quote]
        exact List.mem_cons_of_mem _ (List.mem_append_left _ inside)
      rw [ends] at among
      rcases List.mem_append.mp among with early | last
      · exact early
      · exact absurd (List.mem_singleton.mp last) (by decide)
    have pipe := @one_lt_length_pipeParts front 34 bar
    rw [Runnable, whole, ends, if_pos pipe] at runnable
    rcases mem_of_mem_pipeParts runnable (holds listed inside) with zero | ⟨-, other⟩
    · cases zero
    · exact other rfl
  · intro plain
    refine executesAs_of_clear ⟨fun c listed => ?_, short⟩
      (by rw [starts]; exact List.cons_ne_nil _ _) words.trim_quoted ⟨by rw [starts]; rfl, by rw [starts]; rfl⟩ words.tokenize_quoted
    refine ⟨?_, words.quoted_no_dollar c listed, ?_⟩
    · rintro rfl
      rcases words.mem_quoted listed with space | quote | ⟨word, among, inside⟩
      · cases space
      · cases quote
      · exact (plain word among).1 inside
    · rintro rfl
      rcases words.mem_quoted listed with space | quote | ⟨word, among, inside⟩
      · cases space
      · cases quote
      · exact (plain word among).2 inside

/-! ## Bare words -/

/-- The words as they are. -/
def unquoted : Bytes := joined words.list

variable {words}

theorem mem_unquoted (bare : Bare words.list) {c : UInt8} (listed : c ∈ words.unquoted) :
    c ≠ 35 ∧ c ≠ 36 ∧ c ≠ 124 := by
  rcases mem_joined listed with rfl | ⟨word, among, inside⟩
  · decide
  · obtain ⟨-, comment, bar, -⟩ := bare.solid word among c inside
    exact ⟨comment, (words.plain word among c inside).2.2.1, bar⟩

theorem length_unquoted (words : Words) : words.unquoted.length ≤ words.quoted.length := by
  have grows (list : List Bytes) : (joined list).length ≤ (joined (list.map quote)).length := by
    induction list with
    | nil => exact Nat.le_refl _
    | cons word list ih =>
      have wider : word.length ≤ (quote word).length := by
        rw [quote, List.length_cons, List.length_append]
        omega
      cases list with
      | nil =>
        rw [List.map_cons, List.map_nil, joined, joined, List.intercalate_singleton,
          List.intercalate_singleton]
        exact wider
      | cons next list =>
        rw [List.map_cons, List.map_cons, joined, joined, List.intercalate_cons_cons,
          List.intercalate_cons_cons, List.length_append, List.length_append,
          List.length_append, List.length_append]
        exact Nat.add_le_add (Nat.add_le_add_right wider _) ih
  exact grows words.list

theorem count_joined (list : List Bytes) : (joined list).count 13 = list.flatten.count 13 := by
  induction list with
  | nil => rfl
  | cons word list ih =>
    cases list with
    | nil => rw [joined, List.intercalate_singleton, List.flatten_singleton]
    | cons next list =>
      have grown : joined (word :: next :: list) = word ++ [32] ++ joined (next :: list) :=
        List.intercalate_cons_cons
      rw [grown, List.count_append, List.count_append, ih]
      exact List.count_append.symm

/-- The bytes of bare words are blanks to `trim` only when they are carriage returns. -/
theorem isBlank_of_bare (bare : Bare words.list) {word : Bytes} (listed : word ∈ words.list)
    {c : UInt8} (inside : c ∈ word) (other : c ≠ 13) : isBlank c = false := by
  obtain ⟨solid, -, -, -, -, semicolon⟩ := bare.solid word listed c inside
  simp only [isSpace, Bool.or_eq_false_iff, decide_eq_false_iff_not] at solid
  simp [isBlank, solid, other, semicolon, (words.plain word listed c inside).2.1]

/-- A line of bare words is run as its words exactly when it does not begin like an `if` or a `for`,
and has no carriage return at an end. -/
theorem executes_unquoted_iff (bare : Bare words.list) : ExecutesAs words.list words.unquoted ↔
    Ordinary words.unquoted ∧ words.unquoted.head? ≠ some 13 ∧
      words.unquoted.getLast? ≠ some 13 := by
  have short : words.unquoted.length ≤ 1023 :=
    Nat.le_trans words.length_unquoted (Nat.le_trans words.fits (by decide))
  obtain ⟨c, back, front, d, starts, ends, first, last⟩ := joined_ends
    (P := fun c => c ≠ 13 → isBlank c = false) words.nonempty fun word listed =>
      ⟨bare.nonempty word listed,
        fun c head => isBlank_of_bare bare listed (List.mem_of_mem_head? head),
        fun d last => isBlank_of_bare bare listed (List.mem_of_mem_getLast? last)⟩
  change words.unquoted = _ at starts ends
  have trimmed (head : c ≠ 13) (tail : d ≠ 13) : trim isBlank words.unquoted = words.unquoted :=
    trim_of_ends starts ends (first head) (last tail)
  have cs : words.unquoted.head? = some c := by rw [starts]; rfl
  have ds : words.unquoted.getLast? = some d := by rw [ends, List.getLast?_concat]
  rw [cs, ds]
  constructor
  · intro executes
    obtain ⟨piece, runnable, ordinary, within⟩ := executes.piece short fun c listed =>
      (mem_unquoted bare listed).2.1
    have all : words.unquoted.takeWhile (fun c => decide (c ≠ 35)) = words.unquoted :=
      List.takeWhile_eq_self_iff.mpr fun c listed => decide_eq_true (mem_unquoted bare listed).1
    have whole : uncommented words.unquoted = trim isBlank words.unquoted := by
      rw [uncommented, all]
    have bars : ∀ c ∈ trim isBlank words.unquoted, c ≠ 124 := fun c inside =>
      (mem_unquoted bare ((trim_sublist isBlank _).subset inside)).2.2
    rw [Runnable, whole, if_neg (Nat.not_lt.mpr (length_pipeParts bars))] at runnable
    subst runnable
    have counts : words.unquoted.count 13 ≤ (trim isBlank words.unquoted).count 13 := by
      rw [unquoted, count_joined]
      exact (within.trans (trim_sublist isBlank _)).count_le 13
    have head : c ≠ 13 := by
      rintro rfl
      rw [starts, trim_cons (by decide), List.count_cons_self] at counts
      have shorter := (trim_sublist isBlank back).count_le 13
      exact absurd counts (Nat.not_le.mpr (Nat.lt_succ_of_le shorter))
    have tail : d ≠ 13 := by
      rintro rfl
      rw [ends, trim_concat (by decide), List.count_append] at counts
      have shorter := (trim_sublist isBlank front).count_le 13
      exact absurd counts (Nat.not_le.mpr (Nat.lt_succ_of_le shorter))
    rw [trimmed head tail, trimmed head tail] at ordinary
    exact ⟨ordinary, mt Option.some.inj head, mt Option.some.inj tail⟩
  · rintro ⟨ordinary, head, tail⟩
    exact executesAs_of_clear ⟨fun c listed => mem_unquoted bare listed, short⟩
      (by rw [starts]; exact List.cons_ne_nil _ _)
      (trimmed (fun same => head (by rw [same])) fun same => tail (by rw [same])) ordinary
      (words.tokenize_bare bare)

/-- Just the quoted lines whose words hold no `#` and no bar, and just the bare lines that begin
like no block and keep their ends from `trim`, are run as their words. -/
theorem executes_iff (words : Words) :
    (ExecutesAs words.list words.quoted ↔ ∀ word ∈ words.list, 35 ∉ word ∧ 124 ∉ word) ∧
      (Bare words.list → (ExecutesAs words.list words.unquoted ↔ Ordinary words.unquoted ∧
        words.unquoted.head? ≠ some 13 ∧ words.unquoted.getLast? ≠ some 13)) :=
  ⟨words.executes_quoted_iff, executes_unquoted_iff⟩

end Words

/-- `"#"`. -/
def hash : Words where
  list := [[35]]
  nonempty := by decide
  few := by decide
  short := by decide
  plain := by simp [isQuote]
  fits := by decide

/-- `if-a`. -/
def ifDash : Words where
  list := [[105, 102, 45, 97]]
  nonempty := by decide
  few := by decide
  short := by decide
  plain := by simp [isQuote]
  fits := by decide

theorem ifDash_bare : Bare ifDash.list where
  nonempty := by decide
  solid := by simp [ifDash, isSpace]
  command := by decide

theorem executes_iff_ifDash : (ExecutesAs ifDash.list ifDash.quoted ↔
    ∀ word ∈ ifDash.list, 35 ∉ word ∧ 124 ∉ word) ∧
      (ExecutesAs ifDash.list ifDash.unquoted ↔ Ordinary ifDash.unquoted ∧
        ifDash.unquoted.head? ≠ some 13 ∧ ifDash.unquoted.getLast? ≠ some 13) :=
  ⟨(Words.executes_iff ifDash).1, (Words.executes_iff ifDash).2 ifDash_bare⟩

theorem not_executes_hash : ¬ExecutesAs hash.list hash.quoted ∧
    Bare ifDash.list ∧ ¬ExecutesAs ifDash.list ifDash.unquoted := by
  refine ⟨fun executes => ?_, ifDash_bare, fun executes => ?_⟩
  · exact absurd (hash.executes_quoted_iff.mp executes [35] (by decide)).1 (by decide)
  · exact absurd ((Words.executes_unquoted_iff ifDash_bare).mp executes).1 (by decide)

end DBSos.Script
