import Mathlib.Data.List.Basic

/-!
# Finite traces of a labelled transition relation

A trace keeps every transition it takes as data, so that a property of its
states and a condition on its steps can both be read off the same list. The
rules below are the only inductions over runs in the development: a safety
result supplies what one step preserves and cites the rule.
-/

namespace DBSos.Lib

universe u v

variable {State : Type u} {Label : Type v}

/-- One recorded transition: the state it leaves, its label and the state it enters. -/
structure Transition (State : Type u) (Label : Type v) where
  before : State
  label : Label
  after : State

/-- A finite trace from `start`, with every transition it takes in order. -/
inductive Trace (step : State → Label → State → Prop) (start : State) :
    List (Transition State Label) → State → Prop where
  | nil : Trace step start [] start
  | snoc {taken : List (Transition State Label)} {state : State} {label : Label} {next : State}
      (prior : Trace step start taken state) (valid : step state label next) :
      Trace step start (taken ++ [⟨state, label, next⟩]) next

/-- The property holds at the start and after every transition taken. -/
def Throughout (property : State → Prop) (start : State)
    (taken : List (Transition State Label)) : Prop :=
  property start ∧ ∀ transition ∈ taken, property transition.after

/-- Every transition taken meets the guard in the state it leaves. -/
def Guarded (guard : State → Label → Prop) (taken : List (Transition State Label)) : Prop :=
  ∀ transition ∈ taken, guard transition.before transition.label

theorem throughout_nil {property : State → Prop} {start : State} :
    Throughout property start ([] : List (Transition State Label)) ↔ property start := by
  simp [Throughout]

theorem throughout_snoc {property : State → Prop} {start : State}
    {taken : List (Transition State Label)} {last : Transition State Label} :
    Throughout property start (taken ++ [last]) ↔
      Throughout property start taken ∧ property last.after := by
  simp only [Throughout, List.mem_append, List.mem_singleton]
  constructor
  · rintro ⟨initial, holds⟩
    exact ⟨⟨initial, fun transition member => holds transition (.inl member)⟩,
      holds last (.inr rfl)⟩
  · rintro ⟨⟨initial, holds⟩, atLast⟩
    refine ⟨initial, fun transition member => ?_⟩
    rcases member with member | rfl
    · exact holds transition member
    · exact atLast

theorem guarded_snoc {guard : State → Label → Prop}
    {taken : List (Transition State Label)} {last : Transition State Label} :
    Guarded guard (taken ++ [last]) ↔
      Guarded guard taken ∧ guard last.before last.label := by
  simp only [Guarded, List.mem_append, List.mem_singleton]
  constructor
  · intro holds
    exact ⟨fun transition member => holds transition (.inl member), holds last (.inr rfl)⟩
  · rintro ⟨holds, atLast⟩ transition member
    rcases member with member | rfl
    · exact holds transition member
    · exact atLast

namespace Trace

variable {step : State → Label → State → Prop} {start final : State}
  {taken : List (Transition State Label)}

/-- An invariant that every guarded step preserves holds in the final state of
a guarded trace. -/
theorem final_of_guarded (inv : State → Prop) {guard : State → Label → Prop}
    (initial : inv start)
    (preserved : ∀ before label after, inv before → guard before label →
      step before label after → inv after)
    (trace : Trace step start taken final) (guarded : Guarded guard taken) : inv final := by
  induction trace with
  | nil => exact initial
  | snoc prior valid ih =>
    obtain ⟨guardedPrior, guardedLast⟩ := guarded_snoc.mp guarded
    exact preserved _ _ _ (ih guardedPrior) guardedLast valid

/-- The same invariant holds in every state that a guarded trace visits. -/
theorem throughout_of_guarded (inv : State → Prop) {guard : State → Label → Prop}
    (initial : inv start)
    (preserved : ∀ before label after, inv before → guard before label →
      step before label after → inv after)
    (trace : Trace step start taken final) (guarded : Guarded guard taken) :
    Throughout inv start taken := by
  induction trace with
  | nil => exact throughout_nil.mpr initial
  | snoc prior valid ih =>
    obtain ⟨guardedPrior, guardedLast⟩ := guarded_snoc.mp guarded
    have before := final_of_guarded inv initial preserved prior guardedPrior
    exact throughout_snoc.mpr
      ⟨ih guardedPrior, preserved _ _ _ before guardedLast valid⟩

/-- A guard is exact for a property when guarded steps keep an invariant that
implies it and any other step from the invariant destroys it: then the property
holds throughout a trace exactly when every step of the trace is guarded. -/
theorem throughout_iff_guarded (inv : State → Prop) {good : State → Prop}
    {guard : State → Label → Prop}
    (initial : inv start) (sound : ∀ state, inv state → good state)
    (preserved : ∀ before label after, inv before → guard before label →
      step before label after → inv after)
    (exact : ∀ before label after, inv before → ¬ guard before label →
      step before label after → ¬ good after)
    (trace : Trace step start taken final) :
    Throughout good start taken ↔ Guarded guard taken := by
  induction trace with
  | nil => simp [Throughout, Guarded, sound start initial]
  | snoc prior valid ih =>
    rw [throughout_snoc, guarded_snoc, ih]
    refine and_congr_right fun guardedPrior => ?_
    have before := final_of_guarded inv initial preserved prior guardedPrior
    constructor
    · intro goodLast
      by_contra unguarded
      exact exact _ _ _ before unguarded valid goodLast
    · intro guardedLast
      exact sound _ (preserved _ _ _ before guardedLast valid)

/-- The final state of a trace is one of the states it visits. -/
theorem final_of_throughout {property : State → Prop} (trace : Trace step start taken final)
    (holds : Throughout property start taken) : property final := by
  cases trace with
  | nil => exact throughout_nil.mp holds
  | snoc _ _ => exact (throughout_snoc.mp holds).2

/-- Every transition taken is a step of the relation. -/
theorem step_of_mem (trace : Trace step start taken final) {transition : Transition State Label}
    (member : transition ∈ taken) : step transition.before transition.label transition.after := by
  induction trace with
  | nil => cases member
  | snoc prior valid ih =>
    rcases List.mem_append.mp member with earlier | last
    · exact ih earlier
    · obtain rfl := List.mem_singleton.mp last
      exact valid

/-- A property that guarded steps from the invariant have, and with it keep the invariant, is
one of every step of a guarded trace. -/
theorem forall_of_guarded (inv : State → Prop) {lawful : State → Label → State → Prop}
    {guard : State → Label → Prop} (initial : inv start)
    (kept : ∀ before label after, inv before → guard before label →
      step before label after → inv after ∧ lawful before label after)
    (trace : Trace step start taken final) (guarded : Guarded guard taken) :
    ∀ transition ∈ taken, lawful transition.before transition.label transition.after := by
  induction trace with
  | nil => exact nofun
  | snoc prior valid ih =>
    obtain ⟨guardedPrior, guardedLast⟩ := guarded_snoc.mp guarded
    have before := final_of_guarded inv initial
      (fun _ _ _ holds meets taken => (kept _ _ _ holds meets taken).1) prior guardedPrior
    intro transition member
    rcases List.mem_append.mp member with earlier | last
    · exact ih guardedPrior transition earlier
    · obtain rfl := List.mem_singleton.mp last
      exact (kept _ _ _ before guardedLast valid).2

/-- The same for an exact guard: when a property holds of a step from the invariant exactly
where the guard does, it holds of every step of a trace exactly when all are guarded. -/
theorem forall_iff_guarded (inv : State → Prop) {lawful : State → Label → State → Prop}
    {guard : State → Label → Prop} (initial : inv start)
    (preserved : ∀ before label after, inv before → guard before label →
      step before label after → inv after)
    (exact : ∀ before label after, inv before → step before label after →
      (lawful before label after ↔ guard before label))
    (trace : Trace step start taken final) :
    (∀ transition ∈ taken, lawful transition.before transition.label transition.after) ↔
      Guarded guard taken := by
  induction trace with
  | nil => simp [Guarded]
  | snoc prior valid ih =>
    rw [guarded_snoc, ← ih]
    simp only [List.mem_append, List.mem_singleton]
    constructor
    · intro holds
      have earlier := fun transition member => holds transition (.inl member)
      have before := final_of_guarded inv initial preserved prior (ih.mp earlier)
      exact ⟨earlier, (exact _ _ _ before valid).mp (holds _ (.inr rfl))⟩
    · rintro ⟨earlier, last⟩ transition (member | rfl)
      · exact earlier transition member
      · have before := final_of_guarded inv initial preserved prior (ih.mp earlier)
        exact (exact _ _ _ before valid).mpr last

/-- Labels that a guarded step uses up for good are all different. -/
theorem nodup_of_guarded (inv : State → Prop) (used : State → Label → Prop)
    {guard : State → Label → Prop} (initial : inv start)
    (preserved : ∀ before label after, inv before → guard before label →
      step before label after → inv after)
    (fresh : ∀ before label after, inv before → guard before label →
      step before label after → ¬ used before label ∧ used after label)
    (stays : ∀ before label after, inv before → guard before label →
      step before label after → ∀ other, used before other → used after other)
    (trace : Trace step start taken final) (guarded : Guarded guard taken) :
    (taken.map Transition.label).Nodup := by
  suffices both : (taken.map Transition.label).Nodup ∧
      ∀ transition ∈ taken, used final transition.label from both.1
  induction trace with
  | nil => exact ⟨List.nodup_nil, nofun⟩
  | snoc prior valid ih =>
    obtain ⟨guardedPrior, guardedLast⟩ := guarded_snoc.mp guarded
    obtain ⟨distinct, earlier⟩ := ih guardedPrior
    have before := final_of_guarded inv initial preserved prior guardedPrior
    obtain ⟨unused, last⟩ := fresh _ _ _ before guardedLast valid
    constructor
    · rw [List.map_append, List.nodup_append]
      refine ⟨distinct, List.pairwise_singleton _ _, fun label taken other single same => ?_⟩
      obtain ⟨transition, member, rfl⟩ := List.mem_map.mp taken
      obtain rfl := List.mem_singleton.mp single
      exact unused (same ▸ earlier transition member)
    · intro transition member
      rcases List.mem_append.mp member with member | member
      · exact stays _ _ _ before guardedLast valid _ (earlier transition member)
      · obtain rfl := List.mem_singleton.mp member
        exact last

/-- Put one transition in front of a trace. -/
theorem cons {label : Label} {next : State} (valid : step start label next)
    (trace : Trace step next taken final) :
    Trace step start (⟨start, label, next⟩ :: taken) final := by
  induction trace with
  | nil => exact snoc nil valid
  | snoc _ last ih => exact snoc ih last

/-- A trace is a trace of any relation that allows its steps. -/
theorem mono {wider : State → Label → State → Prop}
    (allowed : ∀ {state label next}, step state label next → wider state label next)
    (trace : Trace step start taken final) : Trace wider start taken final := by
  induction trace with
  | nil => exact nil
  | snoc _ valid ih => exact snoc ih (allowed valid)

end Trace

/-- Run a partial step function along a list of labels and keep the transitions;
`none` when a label is not enabled. -/
def record (step : State → Label → Option State) :
    State → List Label → Option (List (Transition State Label) × State)
  | state, [] => some ([], state)
  | state, label :: rest =>
    (step state label).bind fun next =>
      (record step next rest).map fun later => (⟨state, label, next⟩ :: later.1, later.2)

/-- A recorded run is a trace of the step function's graph. -/
theorem trace_of_record {step : State → Label → Option State} {start : State}
    {labels : List Label} {run : List (Transition State Label) × State}
    (recorded : record step start labels = some run) :
    Trace (fun state label next => step state label = some next) start run.1 run.2 := by
  induction labels generalizing start run with
  | nil =>
    obtain rfl := Option.some.inj recorded
    exact .nil
  | cons label rest ih =>
    obtain ⟨next, valid, mapped⟩ := Option.bind_eq_some_iff.mp recorded
    obtain ⟨later, recordedLater, rfl⟩ := Option.map_eq_some_iff.mp mapped
    exact .cons valid (ih recordedLater)

end DBSos.Lib
