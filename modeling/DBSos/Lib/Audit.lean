import DBSos.Lib.Scan

/-!
# Audited computations

A computation on a state may stop with an error, and reports on the way what it should
not have done; it goes on behind a report. The rules of `Clean` read off what it takes to
reach the end without a report, those of `Returns` what it takes to reach it at all, those
of `Ends` what holds there, those of `Makes` what changes the state has gone through, and
those of `Owes` what is still owed wherever the computation stops.
-/

namespace DBSos.Lib

universe u

variable {State Fault Stop : Type} {α β : Type}

/-- The reports, the result and the state behind a computation. -/
structure Audited (State Fault Stop α : Type) where
  faults : List Fault
  result : Except Stop α
  state : State

/-- A computation on a state. -/
def Audit (State Fault Stop α : Type) : Type := State → Audited State Fault Stop α

namespace Audit

/-- The second computation runs behind the first, unless that has stopped. -/
def andThen (x : Audit State Fault Stop α) (f : α → Audit State Fault Stop β) :
    Audit State Fault Stop β := fun s =>
  match x s with
  | ⟨faults, .error stop, s⟩ => ⟨faults, .error stop, s⟩
  | ⟨faults, .ok a, s⟩ => { f a s with faults := faults ++ (f a s).faults }

instance : Monad (Audit State Fault Stop) where
  pure a s := ⟨[], .ok a, s⟩
  bind := andThen

/-- Stop with an error. -/
def stop (error : Stop) : Audit State Fault Stop α := fun s => ⟨[], .error error, s⟩

/-- Report a fault, and go on. -/
def report (fault : Fault) : Audit State Fault Stop Unit := fun s => ⟨[fault], .ok (), s⟩

/-- Report a fault unless a condition holds. -/
def ensure (fits : Prop) [Decidable fits] (fault : Fault) : Audit State Fault Stop Unit :=
  if fits then pure () else report fault

/-- The state. -/
def get : Audit State Fault Stop State := fun s => ⟨[], .ok s, s⟩

/-- Change the state. -/
def modify (change : State → State) : Audit State Fault Stop Unit := fun s =>
  ⟨[], .ok (), change s⟩

/-- The turns `0..n` of a loop. -/
def upTo (body : Nat → Audit State Fault Stop Unit) : Nat → Audit State Fault Stop Unit
  | 0 => pure ()
  | n + 1 => do
    upTo body n
    body n

variable {s : State} {x : Audit State Fault Stop α} {f : α → Audit State Fault Stop β}

theorem run_pure_bind (a : α) : ((pure a : Audit State Fault Stop α) >>= f) s = f a s := rfl

theorem bind_of_ok {a : α} {after : State} (result : x s = ⟨[], .ok a, after⟩) :
    (x >>= f) s = f a after := by
  rw [show (x >>= f) s = andThen x f s from rfl, andThen, result]
  rfl

theorem bind_of_error {error : Stop} {faults : List Fault} {after : State}
    (result : x s = ⟨faults, .error error, after⟩) :
    (x >>= f) s = ⟨faults, .error error, after⟩ := by
  rw [show (x >>= f) s = andThen x f s from rfl, andThen, result]

/-- A report stays. -/
theorem bind_faults (reported : (x s).faults ≠ []) : ((x >>= f) s).faults ≠ [] := by
  rw [show (x >>= f) s = andThen x f s from rfl, andThen]
  rcases step : x s with ⟨faults, stop | a, after⟩
  · rw [step] at reported
    exact reported
  · rw [step] at reported
    exact List.append_ne_nil_of_left_ne_nil reported _

/-! ## Ends without a report -/

/-- The computation reports nothing and comes to its end. -/
def Clean (x : Audit State Fault Stop α) (s : State) (post : α → State → Prop) : Prop :=
  (x s).faults = [] ∧ ∃ a, (x s).result = .ok a ∧ post a (x s).state

variable {post post' : α → State → Prop} {final : β → State → Prop}

theorem ok_of_clean (clean : Clean x s post) : ∃ a, (x s).result = .ok a := by
  obtain ⟨-, a, ended, -⟩ := clean
  exact ⟨a, ended⟩

@[simp] theorem clean_pure {a : α} :
    Clean (pure a : Audit State Fault Stop α) s post ↔ post a s := by
  constructor
  · rintro ⟨-, b, same, holds⟩
    cases same
    exact holds
  · exact fun holds => ⟨rfl, a, rfl, holds⟩

@[simp] theorem clean_bind :
    Clean (x >>= f) s final ↔ Clean x s fun a s => Clean (f a) s final := by
  change Clean (andThen x f) s final ↔ _
  unfold Clean andThen
  rcases x s with ⟨faults, stop | a, s⟩
  · simp
  · simp [and_assoc]

@[simp] theorem clean_stop {error : Stop} :
    ¬ Clean (stop error : Audit State Fault Stop α) s post := by
  rintro ⟨-, a, same, -⟩
  cases same

@[simp] theorem clean_ensure {fits : Prop} [Decidable fits] {fault : Fault}
    {post : Unit → State → Prop} :
    Clean (ensure fits fault : Audit State Fault Stop Unit) s post ↔ fits ∧ post () s := by
  unfold ensure
  by_cases holds : fits
  · simp [holds]
  · rw [if_neg holds]
    constructor
    · rintro ⟨reported, -⟩
      cases reported
    · exact fun both => absurd both.1 holds

@[simp] theorem clean_get {post : State → State → Prop} :
    Clean (get : Audit State Fault Stop State) s post ↔ post s s := by
  constructor
  · rintro ⟨-, b, same, holds⟩
    cases same
    exact holds
  · exact fun holds => ⟨rfl, s, rfl, holds⟩

@[simp] theorem clean_modify {change : State → State} {post : Unit → State → Prop} :
    Clean (modify change : Audit State Fault Stop Unit) s post ↔ post () (change s) := by
  constructor
  · rintro ⟨-, b, -, holds⟩
    exact holds
  · exact fun holds => ⟨rfl, (), rfl, holds⟩

@[simp] theorem clean_ite {test : Prop} [Decidable test] {y : Audit State Fault Stop α} :
    Clean (if test then x else y) s post ↔ if test then Clean x s post else Clean y s post := by
  split_ifs <;> rfl

/-- What does not depend on the end can be read off before. -/
theorem clean_and {p : Prop} : Clean x s (fun a s => p ∧ post a s) ↔ p ∧ Clean x s post := by
  constructor
  · rintro ⟨clean, a, result, holds, also⟩
    exact ⟨holds, clean, a, result, also⟩
  · rintro ⟨holds, clean, a, result, also⟩
    exact ⟨clean, a, result, holds, also⟩

/-- A loop is clean when each turn is, wherever it starts from. -/
theorem clean_upTo {body : Nat → Audit State Fault Stop Unit} {good : Nat → Prop} {n : Nat}
    (each : ∀ i < n, ∀ s, Clean (body i) s (fun _ _ => True) ↔ good i) :
    Clean (upTo body n) s (fun _ _ => True) ↔ ∀ i < n, good i := by
  induction n with
  | zero => simp [upTo]
  | succ n ih =>
    have last (s : State) := each n (Nat.lt_succ_self n) s
    rw [upTo, clean_bind]
    simp only [last]
    rw [show (fun (_ : Unit) (_ : State) => good n) = fun _ _ => good n ∧ True from
      funext fun _ => funext fun _ => (and_true _).symm, clean_and,
      ih fun i below => each i (Nat.lt_succ_of_lt below)]
    constructor
    · rintro ⟨atLast, earlier⟩ i below
      rcases Nat.lt_succ_iff_lt_or_eq.mp below with before | rfl
      · exact earlier i before
      · exact atLast
    · exact fun all => ⟨all n (Nat.lt_succ_self n), fun i below =>
        all i (Nat.lt_succ_of_lt below)⟩

/-! ## Ends -/

/-- What holds where the computation comes to its end. -/
def Ends (x : Audit State Fault Stop α) (s : State) (post : α → State → Prop) : Prop :=
  ∀ a, (x s).result = .ok a → post a (x s).state

theorem ends_mono (holds : Ends x s post) (weaker : ∀ a s, post a s → post' a s) :
    Ends x s post' := fun a ended => weaker a _ (holds a ended)

theorem ends_pure {a : α} (holds : post a s) :
    Ends (pure a : Audit State Fault Stop α) s post := by
  rintro b same
  cases same
  exact holds

theorem ends_bind (holds : Ends x s fun a s => Ends (f a) s final) : Ends (x >>= f) s final := by
  change Ends (andThen x f) s final
  unfold Ends andThen at *
  rcases step : x s with ⟨faults, stop | a, after⟩
  · nofun
  · have there := holds a
    rw [step] at there
    exact there rfl

theorem ends_of_bind (holds : Ends (x >>= f) s final) : Ends x s fun a s => Ends (f a) s final := by
  change Ends (andThen x f) s final at holds
  unfold Ends andThen at *
  intro a ended
  rcases step : x s with ⟨faults, stop | b, after⟩
  · rw [step] at ended
    cases ended
  · rw [step] at ended holds
    cases ended
    exact holds

theorem ends_stop {error : Stop} : Ends (stop error : Audit State Fault Stop α) s post := nofun

theorem ends_ensure {fits : Prop} [Decidable fits] {fault : Fault} {post : Unit → State → Prop}
    (holds : post () s) : Ends (ensure fits fault : Audit State Fault Stop Unit) s post := by
  unfold ensure
  split_ifs
  · exact ends_pure holds
  · rintro ⟨⟩ -
    exact holds

theorem ends_get {post : State → State → Prop} (holds : post s s) :
    Ends (get : Audit State Fault Stop State) s post := by
  rintro b same
  cases same
  exact holds

theorem ends_modify {change : State → State} {post : Unit → State → Prop}
    (holds : post () (change s)) :
    Ends (modify change : Audit State Fault Stop Unit) s post := by
  rintro ⟨⟩ -
  exact holds

theorem ends_ite {test : Prop} [Decidable test] {y : Audit State Fault Stop α}
    (holds : test → Ends x s post) (fails : ¬ test → Ends y s post) :
    Ends (if test then x else y) s post := by
  split_ifs with taken
  · exact holds taken
  · exact fails taken

/-! ## Returns -/

/-- The computation comes to its end, whatever it reports. -/
def Returns (x : Audit State Fault Stop α) (s : State) (post : α → State → Prop) : Prop :=
  ∃ a, (x s).result = .ok a ∧ post a (x s).state

@[simp] theorem returns_pure {a : α} :
    Returns (pure a : Audit State Fault Stop α) s post ↔ post a s := by
  constructor
  · rintro ⟨b, same, holds⟩
    cases same
    exact holds
  · exact fun holds => ⟨a, rfl, holds⟩

@[simp] theorem returns_bind :
    Returns (x >>= f) s final ↔ Returns x s fun a s => Returns (f a) s final := by
  change Returns (andThen x f) s final ↔ _
  unfold Returns andThen
  rcases x s with ⟨faults, stop | a, s⟩
  · simp
  · simp

@[simp] theorem returns_stop {error : Stop} :
    ¬ Returns (stop error : Audit State Fault Stop α) s post := by
  rintro ⟨a, same, -⟩
  cases same

@[simp] theorem returns_ensure {fits : Prop} [Decidable fits] {fault : Fault}
    {post : Unit → State → Prop} :
    Returns (ensure fits fault : Audit State Fault Stop Unit) s post ↔ post () s := by
  unfold ensure
  split_ifs
  · exact returns_pure
  · exact ⟨fun ⟨_, _, holds⟩ => holds, fun holds => ⟨(), rfl, holds⟩⟩

@[simp] theorem returns_modify {change : State → State} {post : Unit → State → Prop} :
    Returns (modify change : Audit State Fault Stop Unit) s post ↔ post () (change s) :=
  ⟨fun ⟨_, _, holds⟩ => holds, fun holds => ⟨(), rfl, holds⟩⟩

@[simp] theorem returns_ite {test : Prop} [Decidable test] {y : Audit State Fault Stop α} :
    Returns (if test then x else y) s post ↔
      if test then Returns x s post else Returns y s post := by
  split_ifs <;> rfl

/-- A loop returns where each turn does, wherever the turn starts from. -/
theorem returns_upTo {body : Nat → Audit State Fault Stop Unit} {good : Nat → Prop} {n : Nat}
    (each : ∀ i < n, ∀ s, Returns (body i) s (fun _ _ => True) ↔ good i) :
    Returns (upTo body n) s (fun _ _ => True) ↔ ∀ i < n, good i := by
  induction n with
  | zero => simp [upTo]
  | succ n ih =>
    have earlier := ih fun i below => each i (Nat.lt_succ_of_lt below)
    rw [upTo, returns_bind]
    simp only [each n (Nat.lt_succ_self n)]
    constructor
    · rintro ⟨_, ended, last⟩ i below
      rcases Nat.lt_succ_iff_lt_or_eq.mp below with before | rfl
      · exact earlier.mp ⟨_, ended, trivial⟩ i before
      · exact last
    · intro all
      obtain ⟨_, ended, -⟩ := earlier.mpr fun i below => all i (Nat.lt_succ_of_lt below)
      exact ⟨_, ended, all n (Nat.lt_succ_self n)⟩

/-! ## Changes -/

section Changes

variable {Change : Type} {apply : State → Change → State}

/-- Where the computation comes to its end, it has made the changes of a list; `none` is no
end. -/
def Makes (apply : State → Change → State) (x : Audit State Fault Stop Unit)
    (changes : Option (List Change)) : Prop :=
  ∀ s, Ends x s fun _ after => ∃ made, changes = some made ∧ after = made.foldl apply s

theorem makes_pure : Makes apply (pure () : Audit State Fault Stop Unit) (some []) :=
  fun _ => ends_pure ⟨[], rfl, rfl⟩

/-- A loop makes the changes of its turns. -/
theorem makes_upTo {body : Nat → Audit State Fault Stop Unit}
    {turn : Nat → Option (List Change)} {n : Nat}
    (each : ∀ i < n, Makes apply (body i) (turn i)) :
    Makes apply (upTo body n) (gather turn (List.range n)) := by
  induction n with
  | zero => exact makes_pure
  | succ n ih =>
    intro s
    refine ends_bind (ends_mono (ih (fun i below => each i
      (Nat.lt_succ_of_lt below)) s) ?_)
    rintro - _ ⟨earlier, gathered, rfl⟩
    refine ends_mono (each n (Nat.lt_succ_self n) _) ?_
    rintro - _ ⟨last, turned, rfl⟩
    refine ⟨earlier ++ last, ?_, by rw [List.foldl_append]⟩
    rw [List.range_succ]
    refine gather_append gathered ?_
    simp only [gather, turned, Option.bind_some, Option.map_some, List.append_nil]

end Changes

/-! ## What is owed -/

variable {debt : State → Prop} {excused : Stop → Prop}

/-- A debt stays, wherever the computation stops; an excused stop has been reported. -/
def Owes (debt : State → Prop) (excused : Stop → Prop) (x : Audit State Fault Stop α) : Prop :=
  ∀ s, debt s → debt (x s).state ∧ ∀ stop, (x s).result = .error stop → excused stop →
    (x s).faults ≠ []

theorem owes_pure {a : α} : Owes debt excused (pure a : Audit State Fault Stop α) :=
  fun _ owed => ⟨owed, nofun⟩

theorem owes_bind (first : Owes debt excused x) (rest : ∀ a, Owes debt excused (f a)) :
    Owes debt excused (x >>= f) := by
  intro s owed
  have before := first s owed
  rw [show (x >>= f) s = andThen x f s from rfl]
  unfold andThen
  rcases step : x s with ⟨faults, stop | a, after⟩
  · rw [step] at before
    refine ⟨before.1, fun error stopped excuse => before.2 error ?_ excuse⟩
    cases stopped
    rfl
  · rw [step] at before
    obtain ⟨last, reported⟩ := rest a after before.1
    refine ⟨last, fun stop stopped excuse => ?_⟩
    exact List.append_ne_nil_of_right_ne_nil _ (reported stop stopped excuse)

theorem owes_stop {error : Stop} (unexcused : ¬ excused error) :
    Owes debt excused (stop error : Audit State Fault Stop α) := by
  intro s owed
  refine ⟨owed, fun stop stopped excuse => ?_⟩
  cases stopped
  exact absurd excuse unexcused

/-- A report, and the stop that it excuses. -/
theorem owes_report_stop {fault : Fault} {error : Stop} :
    Owes debt excused (do report fault; stop error : Audit State Fault Stop α) :=
  fun _ owed => ⟨owed, fun _ _ _ => List.cons_ne_nil _ _⟩

theorem owes_ensure {fits : Prop} [Decidable fits] {fault : Fault} :
    Owes debt excused (ensure fits fault : Audit State Fault Stop Unit) := by
  intro s owed
  unfold ensure
  split_ifs <;> exact ⟨owed, nofun⟩

theorem owes_get : Owes debt excused (get : Audit State Fault Stop State) :=
  fun _ owed => ⟨owed, nofun⟩

theorem owes_modify {change : State → State} (keeps : ∀ s, debt s → debt (change s)) :
    Owes debt excused (modify change : Audit State Fault Stop Unit) :=
  fun s owed => ⟨keeps s owed, nofun⟩

theorem owes_ite {test : Prop} [Decidable test] {y : Audit State Fault Stop α}
    (holds : Owes debt excused x) (fails : Owes debt excused y) :
    Owes debt excused (if test then x else y) := by
  split_ifs
  · exact holds
  · exact fails

theorem owes_foldlM {ι : Type} {body : β → ι → Audit State Fault Stop β}
    (each : ∀ acc i, Owes debt excused (body acc i)) (list : List ι) (acc : β) :
    Owes debt excused (list.foldlM body acc) := by
  induction list generalizing acc with
  | nil => exact owes_pure
  | cons i rest ih =>
    rw [List.foldlM_cons]
    exact owes_bind (each acc i) ih

end Audit

end DBSos.Lib
