import Mathlib.Data.List.Induction

/-!
# Leases and ledgers

Resources are occupied on behalf of tickets. `Accounted`: a resource that was not
occupied from the start is occupied exactly while some ticket stands for it. A
ticket that is forgotten while its resource stays occupied breaks that, and nothing
else here does.
-/

namespace DBSos.Lib

universe u v

/-- The resources in use, and the resource that each ticket stands for. -/
structure Leases (Ticket : Type u) (Resource : Type v) where
  occupied : Resource → Bool
  lease : Ticket → Option Resource

namespace Leases

variable {Ticket : Type u} {Resource : Type v} {base : Resource → Bool}
  {s : Leases Ticket Resource} {ticket : Ticket} {resource : Resource}

def Accounted (base : Resource → Bool) (s : Leases Ticket Resource) : Prop :=
  ∀ resource, s.occupied resource = true ↔
    base resource = true ∨ ∃ ticket, s.lease ticket = some resource

/-- Every lease is of a resource of its own that was free at the start. -/
structure Sound (base : Resource → Bool) (s : Leases Ticket Resource) : Prop where
  accounted : s.Accounted base
  foreign : ∀ {ticket resource}, s.lease ticket = some resource → base resource = false
  alone : ∀ {ticket other resource}, s.lease ticket = some resource →
    s.lease other = some resource → ticket = other

theorem sound_start (unused : ∀ ticket, s.lease ticket = none) : s.Sound s.occupied where
  accounted resource := by simp [unused]
  foreign leased := by simp [unused] at leased
  alone leased := by simp [unused] at leased

section Moves

variable [DecidableEq Ticket]

/-- The ticket no longer stands for anything; the resource stays as it is. -/
def forget (s : Leases Ticket Resource) (ticket : Ticket) : Leases Ticket Resource :=
  { s with lease := Function.update s.lease ticket none }

theorem forget_idle (idle : s.lease ticket = none) : s.forget ticket = s := by
  rw [forget, ← idle, Function.update_eq_self]

theorem Sound.not_accounted_forget (sound : s.Sound base)
    (leased : s.lease ticket = some resource) : ¬ (s.forget ticket).Accounted base := by
  intro accounted
  have occupied := (sound.accounted resource).mpr (.inr ⟨ticket, leased⟩)
  rcases (accounted resource).mp occupied with atStart | ⟨other, still⟩
  · rw [sound.foreign leased] at atStart
    cases atStart
  · by_cases here : other = ticket
    · subst here
      simp [forget] at still
    · simp only [forget, Function.update_of_ne here] at still
      exact here (sound.alone still leased)

variable [DecidableEq Resource]

/-- A free resource is taken for a ticket. -/
def grant (s : Leases Ticket Resource) (ticket : Ticket) (resource : Resource) :
    Leases Ticket Resource where
  occupied := Function.update s.occupied resource true
  lease := Function.update s.lease ticket (some resource)

theorem Sound.grant (sound : s.Sound base) (free : s.occupied resource = false)
    (idle : s.lease ticket = none) : (s.grant ticket resource).Sound base := by
  have unleased {other : Ticket} : s.lease other ≠ some resource := by
    intro leased
    rw [(sound.accounted resource).mpr (.inr ⟨other, leased⟩)] at free
    cases free
  have cases' {other : Ticket} {r : Resource}
      (leased : (s.grant ticket resource).lease other = some r) :
      other = ticket ∧ r = resource ∨ s.lease other = some r := by
    by_cases here : other = ticket
    · subst here
      simp only [Leases.grant, Function.update_self, Option.some.injEq] at leased
      exact .inl ⟨rfl, leased.symm⟩
    · simp only [Leases.grant, Function.update_of_ne here] at leased
      exact .inr leased
  have kept {other : Ticket} {r : Resource} (leased : s.lease other = some r) :
      (s.grant ticket resource).lease other = some r := by
    have apart : other ≠ ticket := by
      rintro rfl
      rw [idle] at leased
      cases leased
    exact (Function.update_of_ne apart _ _).trans leased
  have baseFree : base resource = false := by
    by_contra atStart
    rw [Bool.not_eq_false] at atStart
    rw [(sound.accounted resource).mpr (.inl atStart)] at free
    cases free
  refine ⟨fun r => ?_, fun {other r} leased => ?_, fun {one two r} first second => ?_⟩
  · by_cases here : r = resource
    · subst here
      exact iff_of_true (Function.update_self _ _ _) (.inr ⟨ticket, Function.update_self _ _ _⟩)
    · have same : (s.grant ticket resource).occupied r = s.occupied r :=
        Function.update_of_ne here _ _
      rw [same, sound.accounted r]
      refine or_congr_right ⟨fun ⟨other, leased⟩ => ⟨other, kept leased⟩, fun ⟨other, leased⟩ => ?_⟩
      exact ⟨other, (cases' leased).resolve_left fun new => here new.2⟩
  · rcases cases' leased with ⟨-, rfl⟩ | leased
    · exact baseFree
    · exact sound.foreign leased
  · rcases cases' first with ⟨sameOne, rfl⟩ | oldOne
    · rcases cases' second with ⟨sameTwo, -⟩ | oldTwo
      · rw [sameOne, sameTwo]
      · exact absurd oldTwo unleased
    · rcases cases' second with ⟨-, rfl⟩ | oldTwo
      · exact absurd oldOne unleased
      · exact sound.alone oldOne oldTwo

end Moves

end Leases

end DBSos.Lib

/-!
## Ledgers

Items are taken and given back, and the same item may be taken again later. A ledger is
sound when every free is of an item that has been taken more often than freed before.
-/

namespace DBSos.Lib

universe u

/-- What happens to an item. -/
inductive Entry (Item : Type u) where
  | taken (item : Item)
  | freed (item : Item)
deriving DecidableEq

/-- What has happened, in order. -/
abbrev Ledger (Item : Type u) := List (Entry Item)

namespace Ledger

variable {Item : Type u} [DecidableEq Item] {ledger : Ledger Item} {item other : Item}

/-- The item has been taken and not been freed since. -/
def Owed (ledger : Ledger Item) (item : Item) : Prop :=
  ledger.count (.freed item) < ledger.count (.taken item)

/-- Every free is of an item that is owed at that time. -/
def FreedOnce (ledger : Ledger Item) : Prop :=
  ∀ before item after, ledger = before ++ .freed item :: after → Owed before item

theorem freedOnce_nil : FreedOnce ([] : Ledger Item) := by
  intro before item after same
  simp at same

/-- The last entry is sound if it takes an item or frees one that is owed. -/
theorem freedOnce_concat {entry : Entry Item} :
    FreedOnce (ledger ++ [entry]) ↔
      FreedOnce ledger ∧ ∀ item, entry = .freed item → ledger.Owed item := by
  constructor
  · intro sound
    refine ⟨fun before item after same => ?_, fun item last => ?_⟩
    · exact sound before item (after ++ [entry]) (by simp [same])
    · exact sound ledger item [] (by rw [last])
  · rintro ⟨sound, last⟩ before item after same
    rcases List.eq_nil_or_concat after with rfl | ⟨rest, final, rfl⟩
    · obtain ⟨rfl, rfl⟩ := List.append_inj' same rfl |>.imp_right fun one => List.cons.inj one |>.1
      exact last item rfl
    · rw [List.concat_eq_append, ← List.cons_append, ← List.append_assoc] at same
      exact sound before item rest (List.append_inj' same rfl).1

theorem FreedOnce.taken (sound : ledger.FreedOnce) (item : Item) :
    FreedOnce (ledger ++ [.taken item]) :=
  freedOnce_concat.mpr ⟨sound, nofun⟩

theorem FreedOnce.freed (sound : ledger.FreedOnce) (owed : ledger.Owed item) :
    FreedOnce (ledger ++ [.freed item]) := by
  refine freedOnce_concat.mpr ⟨sound, fun other same => ?_⟩
  cases same
  exact owed

/-- In a sound ledger no item is freed more often than taken. -/
theorem FreedOnce.count_le (sound : ledger.FreedOnce) (item : Item) :
    ledger.count (.freed item) ≤ ledger.count (.taken item) := by
  induction ledger using List.reverseRecOn with
  | nil => simp
  | append_singleton ledger entry ih =>
    obtain ⟨before, last⟩ := freedOnce_concat.mp sound
    have earlier := ih before
    cases entry with
    | taken other =>
      simp only [List.count_append, List.count_singleton]
      simp only [beq_iff_eq, reduceCtorEq, if_false]
      omega
    | freed other =>
      simp only [List.count_append, List.count_singleton]
      by_cases same : other = item
      · subst same
        have owed := last other rfl
        unfold Owed at owed
        simp only [beq_self_eq_true, if_true, beq_iff_eq, reduceCtorEq, if_false]
        omega
      · simp only [beq_iff_eq, Entry.freed.injEq, same, reduceCtorEq, if_false]
        omega

theorem owed_taken (sound : ledger.FreedOnce) (item : Item) :
    Owed (ledger ++ [.taken item]) item := by
  have balanced := sound.count_le item
  simp only [Owed, List.count_append, List.count_singleton, beq_self_eq_true, if_true, beq_iff_eq,
    reduceCtorEq, if_false]
  omega

/-- What takes an item at least as often as it frees it leaves the item owed. -/
theorem Owed.append {entries : Ledger Item} (owed : ledger.Owed item)
    (balanced : entries.count (.freed item) ≤ entries.count (.taken item)) :
    Owed (ledger ++ entries) item := by
  unfold Owed at owed ⊢
  simp only [List.count_append]
  omega

end Ledger

end DBSos.Lib
