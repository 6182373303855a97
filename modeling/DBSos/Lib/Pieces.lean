import Mathlib.Data.List.DropRight

/-!
# Texts cut into pieces

A text is cut at break characters, the pieces are trimmed of blanks and the empty ones left out.
`Renders` says from the other side which texts show a list of pieces: blanks may stand anywhere
between them, and between two there is a break.
-/

namespace DBSos.Lib

variable {α : Type*} (blank brk : α → Bool)

/-- A text without the blanks at its ends. -/
def trim (s : List α) : List α := (s.dropWhile blank).rdropWhile blank

/-- The piece read so far, unless it is empty. -/
def emit (acc : List α) : List (List α) :=
  if (trim blank acc).isEmpty then [] else [trim blank acc]

/-- The pieces of a text behind what was read of the first. -/
def cut : List α → List α → List (List α)
  | acc, [] => emit blank acc
  | acc, c :: rest => if brk c then emit blank acc ++ cut [] rest else cut (acc ++ [c]) rest

/-- What can stand between breaks and is not changed by trimming. -/
structure Piece (p : List α) : Prop where
  nonempty : p ≠ []
  solid : ∀ c ∈ p, brk c = false
  trimmed : trim blank p = p

/-- The text goes on with blanks and a break. -/
def Ended (t : List α) : Prop :=
  ∃ gap c rest, t = gap ++ c :: rest ∧ (∀ b ∈ gap, blank b = true ∧ brk b = false) ∧ brk c = true

/-- The text shows the pieces. -/
inductive Renders : List (List α) → List α → Prop where
  | nil : Renders [] []
  | blank {c : α} {ps : List (List α)} {t : List α} (blanks : blank c = true)
      (rest : Renders ps t) : Renders ps (c :: t)
  | piece {p : List α} {ps : List (List α)} {t : List α} (piece : Piece blank brk p)
      (rest : Renders ps t) (ended : ps = [] ∨ Ended blank brk t) : Renders (p :: ps) (p ++ t)

variable {blank brk} {acc s t : List α} {c : α}

theorem trim_cons (blanks : blank c = true) : trim blank (c :: s) = trim blank s := by
  rw [trim, List.dropWhile_cons_of_pos blanks, trim]

theorem trim_concat (blanks : blank c = true) : trim blank (s ++ [c]) = trim blank s := by
  rw [trim, trim, List.dropWhile_append]
  split_ifs with none
  · rw [List.isEmpty_iff.mp none, List.dropWhile_cons_of_pos blanks, List.dropWhile_nil]
  · exact List.rdropWhile_concat_pos _ _ _ blanks

theorem trim_append_blanks (blanks : ∀ b ∈ t, blank b = true) :
    trim blank (s ++ t) = trim blank s := by
  induction t generalizing s with
  | nil => rw [List.append_nil]
  | cons b t ih =>
    rw [List.append_cons,
      ih fun other member => blanks other (List.mem_cons_of_mem b member),
      trim_concat (blanks b List.mem_cons_self)]

/-! ## Blanks at the ends do not count -/

theorem trim_sublist (blank : α → Bool) (s : List α) : (trim blank s).Sublist s :=
  (List.rdropWhile_prefix blank _).sublist.trans (List.dropWhile_sublist _)

theorem emit_congr (same : trim blank s = trim blank t) : emit blank s = emit blank t := by
  rw [emit, emit, same]

theorem emit_blanks (blanks : ∀ b ∈ s, blank b = true) : emit blank s = [] := by
  have none : trim blank s = [] := by
    have whole := trim_append_blanks (s := []) blanks
    rwa [List.nil_append] at whole
  rw [emit, none]
  rfl

theorem cut_cons_acc (blanks : blank c = true) :
    cut blank brk (c :: acc) t = cut blank brk acc t := by
  induction t generalizing acc with
  | nil => exact emit_congr (trim_cons blanks)
  | cons d t ih =>
    rw [cut, cut, emit_congr (trim_cons blanks)]
    split_ifs
    · rfl
    · exact ih

theorem cut_cons (blanks : blank c = true) :
    cut blank brk [] (c :: t) = cut blank brk [] t := by
  rw [cut]
  split_ifs
  · rfl
  · exact cut_cons_acc blanks

theorem cut_append_left (blanks : ∀ b ∈ s, blank b = true) :
    cut blank brk [] (s ++ t) = cut blank brk [] t := by
  induction s with
  | nil => rfl
  | cons b s ih =>
    rw [List.cons_append, cut_cons (blanks b List.mem_cons_self),
      ih fun other member => blanks other (List.mem_cons_of_mem b member)]

theorem cut_concat (blanks : blank c = true) :
    cut blank brk acc (t ++ [c]) = cut blank brk acc t := by
  induction t generalizing acc with
  | nil =>
    rw [List.nil_append, cut, cut]
    split_ifs
    · exact List.append_nil _
    · exact emit_congr (trim_concat blanks)
  | cons d t ih =>
    rw [List.cons_append, cut, cut]
    split_ifs
    · rw [ih]
    · exact ih

theorem cut_append_right (blanks : ∀ b ∈ t, blank b = true) :
    cut blank brk acc (s ++ t) = cut blank brk acc s := by
  induction t generalizing s with
  | nil => rw [List.append_nil]
  | cons b t ih =>
    rw [List.append_cons,
      ih fun other member => blanks other (List.mem_cons_of_mem b member),
      cut_concat (blanks b List.mem_cons_self)]

/-- A text may be trimmed before it is cut. -/
theorem cut_trim : cut blank brk [] (trim blank s) = cut blank brk [] s := by
  have front := List.takeWhile_append_dropWhile (p := blank) (l := s)
  have back : trim blank s ++ (s.dropWhile blank).rtakeWhile blank = s.dropWhile blank :=
    List.rdropWhile_append_rtakeWhile
  calc cut blank brk [] (trim blank s)
      = cut blank brk [] (trim blank s ++ (s.dropWhile blank).rtakeWhile blank) :=
        (cut_append_right fun _ member => List.mem_rtakeWhile_imp member).symm
    _ = cut blank brk [] (s.dropWhile blank) := by rw [back]
    _ = cut blank brk [] (s.takeWhile blank ++ s.dropWhile blank) :=
        (cut_append_left fun _ member => List.mem_takeWhile_imp member).symm
    _ = cut blank brk [] s := by rw [front]

/-- Blanks may be skipped before a text is cut. -/
theorem cut_dropWhile {p : α → Bool} (blanks : ∀ c, p c = true → blank c = true) :
    cut blank brk [] (s.dropWhile p) = cut blank brk [] s := by
  have front : cut blank brk [] (s.takeWhile p ++ s.dropWhile p) =
      cut blank brk [] (s.dropWhile p) :=
    cut_append_left fun c member => blanks c (List.mem_takeWhile_imp member)
  rw [List.takeWhile_append_dropWhile] at front
  exact front.symm

/-! ## Pieces come back -/

theorem cut_solid (solid : ∀ b ∈ s, brk b = false) :
    cut blank brk acc (s ++ t) = cut blank brk (acc ++ s) t := by
  induction s generalizing acc with
  | nil => rw [List.append_nil, List.nil_append]
  | cons b s ih =>
    have open' : ¬brk b = true := by rw [solid b List.mem_cons_self]; exact nofun
    rw [List.cons_append, cut, if_neg open',
      ih fun other member => solid other (List.mem_cons_of_mem b member),
      List.append_assoc, List.singleton_append]

/-- The first piece of a text, and the others. -/
theorem cut_takeWhile (blanks : ∀ c, brk c = true → blank c = true) :
    cut blank brk [] s =
      emit blank (s.takeWhile fun c => !brk c) ++
        cut blank brk [] (s.dropWhile fun c => !brk c) := by
  have solid : ∀ c ∈ s.takeWhile (fun c => !brk c), brk c = false := fun c member => by
    simpa using List.mem_takeWhile_imp member
  have whole : cut blank brk [] ((s.takeWhile fun c => !brk c) ++ s.dropWhile fun c => !brk c) =
      cut blank brk ([] ++ s.takeWhile fun c => !brk c) (s.dropWhile fun c => !brk c) :=
    cut_solid solid
  rw [List.takeWhile_append_dropWhile, List.nil_append] at whole
  rw [whole]
  cases rest : s.dropWhile fun c => !brk c with
  | nil => exact (List.append_nil _).symm
  | cons c later =>
    have breaks : brk c = true := by
      have head := List.head?_dropWhile_not (fun c => !brk c) s
      rw [rest] at head
      simpa using head
    rw [cut, if_pos breaks, cut_cons (blanks c breaks)]

theorem Piece.emit {p : List α} (piece : Piece blank brk p) : emit blank p = [p] := by
  have some' : ¬p.isEmpty = true := fun empty => piece.nonempty (List.isEmpty_iff.mp empty)
  rw [Lib.emit, piece.trimmed, if_neg some']

theorem Renders.blanks (renders : Renders blank brk [] t) : ∀ b ∈ t, blank b = true := by
  generalize none : ([] : List (List α)) = ps at renders
  induction renders with
  | nil => exact nofun
  | blank first rest ih =>
    intro b member
    rcases List.mem_cons.mp member with rfl | later
    · exact first
    · exact ih none b later
  | piece => exact absurd none nofun

theorem Renders.pieces {ps : List (List α)} (renders : Renders blank brk ps t) :
    ∀ p ∈ ps, Piece blank brk p := by
  induction renders with
  | nil => exact nofun
  | blank _ _ ih => exact ih
  | piece piece _ _ ih =>
    intro p member
    rcases List.mem_cons.mp member with rfl | later
    · exact piece
    · exact ih p later

/-- Cutting gives back the pieces that a text shows. -/
theorem Renders.cut {ps : List (List α)} (renders : Renders blank brk ps t) :
    cut blank brk [] t = ps := by
  induction renders with
  | nil => rfl
  | blank blanks rest ih => rw [cut_cons blanks, ih]
  | @piece p ps t piece rest ended ih =>
    rw [cut_solid piece.solid, List.nil_append]
    rcases ended with rfl | ⟨gap, c, later, rfl, gaps, breaks⟩
    · have whole : Lib.cut blank brk p ([] ++ t) = Lib.cut blank brk p [] :=
        cut_append_right rest.blanks
      rw [List.nil_append] at whole
      rw [whole]
      exact piece.emit
    · have blanks : ∀ b ∈ gap, blank b = true := fun b member => (gaps b member).1
      rw [cut_solid fun b member => (gaps b member).2, Lib.cut, if_pos breaks] at ih
      rw [List.nil_append, emit_blanks blanks, List.nil_append] at ih
      rw [cut_solid fun b member => (gaps b member).2, Lib.cut, if_pos breaks,
        emit_congr (trim_append_blanks blanks), piece.emit, ih,
        List.singleton_append]

/-- The parts of a cut list hold no break, and what they hold stands in the list. -/
theorem mem_splitOnP {brk : α → Bool} {items part : List α} (member : part ∈ items.splitOnP brk) :
    (∀ c ∈ part, brk c = false) ∧ part.Sublist items := by
  induction items generalizing part with
  | nil =>
    obtain rfl := List.mem_singleton.mp member
    exact ⟨nofun, List.Sublist.refl _⟩
  | cons item rest ih =>
    rw [List.splitOnP_cons_eq_if_modifyHead] at member
    obtain ⟨head, tail, split⟩ := List.exists_cons_of_ne_nil (List.splitOnP_ne_nil brk rest)
    rw [split] at member ih
    split_ifs at member with breaks
    · rcases List.mem_cons.mp member with rfl | later
      · exact ⟨nofun, List.nil_sublist _⟩
      · exact (ih later).imp_right fun within => within.cons item
    · rcases List.mem_cons.mp member with rfl | later
      · obtain ⟨solid, within⟩ := ih List.mem_cons_self
        refine ⟨fun c inside => ?_, within.cons_cons item⟩
        rcases List.mem_cons.mp inside with rfl | inside
        · exact Bool.eq_false_iff.mpr breaks
        · exact solid c inside
      · exact (ih (List.mem_cons_of_mem _ later)).imp_right
          fun within => within.cons item

/-- The parts of a split list do not contain the separator, nor anything new. -/
theorem mem_splitOn [DecidableEq α] {separator : α} {items part : List α}
    (member : part ∈ items.splitOn separator) : separator ∉ part ∧ part ⊆ items := by
  obtain ⟨solid, within⟩ := mem_splitOnP member
  exact ⟨fun inside => absurd (solid separator inside) (by simp), within.subset⟩

end DBSos.Lib
