import Mathlib.Order.Lattice

/-!
# Programs that call themselves

What a recursive program does with one argument is a plan: it asks for the results of further
calls, passes places at which it could fail, and ends with a value. `Plan.eval` runs a plan with
calls nested to some depth. A program comes to an end when a measure falls with every call that
it really makes, and every place it passes holds.
-/

namespace DBSos.Lib

/-- A program over calls `ι` with results `ρ` that may fail at places `κ`. -/
inductive Plan (ι ρ κ : Type*) (α : Type*) where
  | done (value : α)
  | check (place : κ) (next : Plan ι ρ κ α)
  | call (input : ι) (next : ρ → Plan ι ρ κ α)

namespace Plan

variable {ι ρ κ α β γ : Type*}

def bind : Plan ι ρ κ α → (α → Plan ι ρ κ β) → Plan ι ρ κ β
  | done value, f => f value
  | check place next, f => check place (next.bind f)
  | call input next, f => call input fun result => (next result).bind f

/-- The plan over the elements of a list, one after the other. -/
def fold (f : β → γ → Plan ι ρ κ β) : β → List γ → Plan ι ρ κ β
  | acc, [] => done acc
  | acc, item :: items => (f acc item).bind fun acc => fold f acc items

section Run

variable (holds : κ → Prop) [DecidablePred holds] (answer : ι → Option ρ)

/-- A plan run with answers to its calls; it fails at a place that does not hold. -/
def run : Plan ι ρ κ α → Option α
  | done value => some value
  | check place next => if holds place then next.run else none
  | call input next => (answer input).bind fun result => (next result).run

@[simp] theorem run_call (input : ι) (next : ρ → Plan ι ρ κ α) : (call input next).run holds answer =
    (answer input).bind fun result => (next result).run holds answer := rfl

theorem run_check (place : κ) (next : Plan ι ρ κ α) : (check place next).run holds answer =
    if holds place then next.run holds answer else none := rfl

@[simp] theorem run_bind (plan : Plan ι ρ κ α) (f : α → Plan ι ρ κ β) :
    (plan.bind f).run holds answer =
      (plan.run holds answer).bind fun value => (f value).run holds answer := by
  induction plan with
  | done value => rfl
  | check place next ih =>
    rw [bind, run_check, run_check, ih]
    split_ifs
    · rfl
    · rfl
  | call input next ih =>
    rw [bind, run_call, run_call, Option.bind_assoc]
    exact congrArg _ (funext ih)

theorem run_fold (f : β → γ → Plan ι ρ κ β) (acc : β) (items : List γ) :
    (fold f acc items).run holds answer =
      items.foldlM (fun acc item => (f acc item).run holds answer) acc := by
  induction items generalizing acc with
  | nil => rfl
  | cons item items ih =>
    rw [fold, run_bind, List.foldlM_cons]
    exact congrArg _ (funext ih)

end Run

/-! ## Recursion -/

variable (plan : ι → Plan ι ρ κ ρ) (holds : κ → Prop) [DecidablePred holds]

/-- The program with calls nested at most so deep. -/
def eval : Nat → ι → Option ρ
  | 0, _ => none
  | depth + 1, input => (plan input).run holds (eval depth)

/-- What a call gives when it may nest as deep as it needs. -/
def Answers (input : ι) (result : ρ) : Prop := ∃ depth, eval plan holds depth input = some result

/-- What happens in a plan, the calls inside its own calls apart. -/
inductive Meets (answers : ι → ρ → Prop) : Plan ι ρ κ α → κ ⊕ ι → Prop where
  | place {place : κ} {next : Plan ι ρ κ α} : Meets answers (.check place next) (.inl place)
  | passed {place : κ} {next : Plan ι ρ κ α} {event : κ ⊕ ι} (later : Meets answers next event) :
      Meets answers (.check place next) event
  | call {input : ι} {next : ρ → Plan ι ρ κ α} : Meets answers (.call input next) (.inr input)
  | answered {input : ι} {next : ρ → Plan ι ρ κ α} {result : ρ} {event : κ ⊕ ι}
      (answer : answers input result) (later : Meets answers (next result) event) :
      Meets answers (.call input next) event

/-- What happens in a plan and in the calls that it makes, at any depth. -/
inductive Reached (start : Plan ι ρ κ α) : κ ⊕ ι → Prop where
  | outer {event : κ ⊕ ι} (meets : Meets (Answers plan holds) start event) : Reached start event
  | inner {input : ι} {event : κ ⊕ ι} (reached : Reached start (.inr input))
      (meets : Meets (Answers plan holds) (plan input) event) : Reached start event

variable {plan holds} {start : Plan ι ρ κ α} {m n : Nat} {input : ι} {result : ρ}

/-- A run that succeeds goes the same way with more answers. -/
theorem run_mono {answer more : ι → Option ρ}
    (extending : ∀ input result, answer input = some result → more input = some result) {value : α}
    (ran : start.run holds answer = some value) : start.run holds more = some value := by
  induction start with
  | done _ => exact ran
  | check place next ih =>
    rw [run_check] at ran ⊢
    split_ifs at ran ⊢
    exact ih ran
  | call input next ih =>
    obtain ⟨result, answered, later⟩ := Option.bind_eq_some_iff.mp ran
    rw [run_call, extending input result answered]
    exact ih result later

theorem eval_succ (ran : eval plan holds n input = some result) :
    eval plan holds (n + 1) input = some result := by
  induction n generalizing input result with
  | zero => cases ran
  | succ n ih => exact run_mono (fun _ _ => ih) ran

theorem eval_mono (deeper : n ≤ m) (ran : eval plan holds n input = some result) :
    eval plan holds m input = some result := by
  induction deeper with
  | refl => exact ran
  | step _ ih => exact eval_succ ih

theorem run_eval_mono (deeper : n ≤ m) {value : α}
    (ran : start.run holds (eval plan holds n) = some value) :
    start.run holds (eval plan holds m) = some value :=
  run_mono (fun _ _ => eval_mono deeper) ran

theorem Answers.unique {other : ρ} (first : Answers plan holds input result)
    (second : Answers plan holds input other) : result = other := by
  obtain ⟨n, first⟩ := first
  obtain ⟨m, second⟩ := second
  have one := eval_mono (le_max_left n m) first
  rw [eval_mono (le_max_right n m) second] at one
  exact (Option.some.inj one).symm

/-- A plan ends when the calls that it makes do and the places that it passes hold. -/
theorem exists_run (places : ∀ place, Meets (Answers plan holds) start (.inl place) → holds place)
    (calls : ∀ input, Meets (Answers plan holds) start (.inr input) →
      ∃ result, Answers plan holds input result) :
    ∃ depth value, start.run holds (eval plan holds depth) = some value := by
  induction start with
  | done value => exact ⟨0, value, rfl⟩
  | check place next ih =>
    obtain ⟨depth, value, ran⟩ := ih
      (fun other meets => places other (.passed meets))
      (fun input meets => calls input (.passed meets))
    exact ⟨depth, value, by rwa [run_check, if_pos (places place .place)]⟩
  | call input next ih =>
    obtain ⟨result, n, answered⟩ := calls input .call
    obtain ⟨m, value, ran⟩ := ih result
      (fun place meets => places place (.answered ⟨n, answered⟩ meets))
      (fun other meets => calls other (.answered ⟨n, answered⟩ meets))
    refine ⟨max n m, value, ?_⟩
    rw [run_call, eval_mono (le_max_left n m) answered]
    exact run_eval_mono (le_max_right n m) ran

/-- A program ends when a measure falls from every call to those inside it, and all places that it
comes to hold. -/
theorem ends (measure : ι → Nat)
    (places : ∀ place, Reached plan holds start (.inl place) → holds place)
    (falls : ∀ input inner, Reached plan holds start (.inr input) →
      Meets (Answers plan holds) (plan input) (.inr inner) → measure inner < measure input) :
    ∃ depth value, start.run holds (eval plan holds depth) = some value := by
  have calls : ∀ bound input, measure input < bound → Reached plan holds start (.inr input) →
      ∃ result, Answers plan holds input result := by
    intro bound
    induction bound with
    | zero => exact fun _ below => absurd below (Nat.not_lt_zero _)
    | succ bound ih =>
      intro input below reached
      obtain ⟨depth, result, ran⟩ := exists_run
        (fun place (meets : Meets (Answers plan holds) (plan input) _) =>
          places place (.inner reached meets))
        (fun inner meets => ih inner
          (Nat.lt_of_lt_of_le (falls input inner reached meets) (Nat.lt_succ_iff.mp below))
          (.inner reached meets))
      exact ⟨result, depth + 1, ran⟩
  exact exists_run (fun place meets => places place (.outer meets))
    (fun input meets => calls _ input (Nat.lt_succ_self _) (.outer meets))

theorem Meets.of_bind {answers : ι → ρ → Prop} {f : α → Plan ι ρ κ β} {event : κ ⊕ ι}
    (meets : Meets answers (start.bind f) event) :
    Meets answers start event ∨ ∃ value, Meets answers (f value) event := by
  induction start with
  | done value => exact .inr ⟨value, meets⟩
  | check place next ih =>
    cases meets with
    | place => exact .inl .place
    | passed later => exact (ih later).imp_left .passed
  | call input next ih =>
    cases meets with
    | call => exact .inl .call
    | answered answer later => exact (ih _ later).imp_left (.answered answer)

theorem Meets.of_fold {answers : ι → ρ → Prop} {f : β → γ → Plan ι ρ κ β} {acc : β} {items : List γ}
    {event : κ ⊕ ι} (meets : Meets answers (fold f acc items) event) :
    ∃ acc, ∃ item ∈ items, Meets answers (f acc item) event := by
  induction items generalizing acc with
  | nil => cases meets
  | cons item items ih =>
    rcases meets.of_bind with first | ⟨acc, later⟩
    · exact ⟨acc, item, List.mem_cons_self, first⟩
    · obtain ⟨acc, item, listed, happens⟩ := ih later
      exact ⟨acc, item, List.mem_cons_of_mem _ listed, happens⟩

/-- In a plan that ends, the places hold and the calls end. -/
theorem Meets.of_run {value : α} {event : κ ⊕ ι}
    (meets : Meets (Answers plan holds) start event)
    (ran : start.run holds (eval plan holds n) = some value) :
    (∀ place, event = .inl place → holds place) ∧
      ∀ input, event = .inr input → ∃ result, eval plan holds n input = some result := by
  induction meets with
  | place =>
    rw [run_check] at ran
    split_ifs at ran with held
    exact ⟨fun _ same => Sum.inl.inj same ▸ held, nofun⟩
  | passed _ ih =>
    rw [run_check] at ran
    split_ifs at ran
    exact ih ran
  | call =>
    obtain ⟨result, answered, -⟩ := Option.bind_eq_some_iff.mp ran
    exact ⟨nofun, fun _ same => Sum.inr.inj same ▸ ⟨result, answered⟩⟩
  | answered answer _ ih =>
    obtain ⟨result, answered, later⟩ := Option.bind_eq_some_iff.mp ran
    rw [Answers.unique ⟨n, answered⟩ answer] at later
    exact ih later

theorem Reached.of_run {value : α} {event : κ ⊕ ι} (reached : Reached plan holds start event)
    (ran : start.run holds (eval plan holds n) = some value) :
    (∀ place, event = .inl place → holds place) ∧
      ∀ input, event = .inr input → ∃ result depth, eval plan holds depth input = some result := by
  induction reached with
  | outer meets =>
    obtain ⟨places, calls⟩ := meets.of_run ran
    exact ⟨places, fun input same => ⟨(calls input same).choose, n, (calls input same).choose_spec⟩⟩
  | inner _ meets ih =>
    obtain ⟨result, depth, ended⟩ := ih.2 _ rfl
    cases depth with
    | zero => cases ended
    | succ depth =>
      obtain ⟨places, calls⟩ := meets.of_run ended
      exact ⟨places, fun input same =>
        ⟨(calls input same).choose, depth, (calls input same).choose_spec⟩⟩

/-- A program that ends has passed only places that hold. -/
theorem holds_of_run {value : α} {place : κ} (reached : Reached plan holds start (.inl place))
    (ran : start.run holds (eval plan holds n) = some value) : holds place :=
  (reached.of_run ran).1 place rfl

end Plan

end DBSos.Lib
