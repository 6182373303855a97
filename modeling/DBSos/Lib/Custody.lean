import Mathlib.Data.List.Nodup

/-!
# Items in custody

An item is issued, lies in some place, and is handed over. `Custody` keeps the
three records and `Event` lists what a system may do to them. Two properties
matter to whoever relies on such a system. `Faithful`: what is handed over was
issued, and is handed over once. `Kept`: what was issued has been handed over or
lies in exactly one place, unless it is excused. Each is lost by exactly one kind
of event (`faithful_apply_iff`, `kept_apply_iff`).
-/

namespace DBSos.Lib

universe u v

/-- The items issued so far, the item in each place, the items handed over. -/
@[ext] structure Custody (Place : Type u) (Item : Type v) where
  issued : List Item
  held : Place → Option Item
  handed : List Item

/-- One change of custody. An item may be issued without being stored, and
handed over from a place that does not hold it. -/
inductive Event (Place : Type u) (Item : Type v) where
  | idle
  | issue (place : Place) (item : Item) (stored : Prop)
  | hand (place : Place) (item : Item)
  | drop (place : Place)

namespace Custody

variable {Place : Type u} {Item : Type v} {c : Custody Place Item}

/-- An item lies in at most one place, was issued and has not been handed over. -/
structure Sound (c : Custody Place Item) : Prop where
  nodup : c.issued.Nodup
  genuine : ∀ {place item}, c.held place = some item → item ∈ c.issued
  unhanded : ∀ {place item}, c.held place = some item → item ∉ c.handed
  unique : ∀ {place other item}, c.held place = some item → c.held other = some item →
    place = other

/-- Whatever is handed over was issued, and is handed over once. -/
def Faithful (c : Custody Place Item) : Prop :=
  (∀ item ∈ c.handed, item ∈ c.issued) ∧ c.handed.Nodup

/-- Whatever was issued is excused, has been handed over or lies in exactly one
place. -/
def Kept (c : Custody Place Item) (excused : Item → Prop) : Prop :=
  ∀ item ∈ c.issued, excused item ∨ item ∈ c.handed ∨ ∃! place, c.held place = some item

/-- In sound custody an item that lies somewhere lies in exactly one place. -/
theorem Sound.existsUnique (sound : c.Sound) {item : Item} :
    (∃! place, c.held place = some item) ↔ ∃ place, c.held place = some item :=
  ⟨fun ⟨place, here, _⟩ => ⟨place, here⟩,
    fun ⟨place, here⟩ => ⟨place, here, fun _ there => sound.unique there here⟩⟩

/-- An item held by a place that is overwritten is lost with it. -/
private theorem Sound.lost_of_overwritten (sound : c.Sound) {later : Item → Prop}
    {place : Place} {old : Item} (here : c.held place = some old) (unexcused : ¬ later old)
    {c' : Custody Place Item} (kept : c'.Kept later) (issued : old ∈ c'.issued)
    (handed : c'.handed = c.handed)
    (gone : ∀ other, c'.held other = some old → other ≠ place ∧ c.held other = some old) :
    False := by
  rcases kept old issued with excuse | delivered | ⟨other, there, _⟩
  · exact unexcused excuse
  · exact sound.unhanded here (handed ▸ delivered)
  · obtain ⟨differs, before⟩ := gone other there
    exact differs (sound.unique before here)

variable [DecidableEq Place]

open Classical in
/-- What an event does: every event but `idle` empties its place or fills it anew. -/
noncomputable def apply (c : Custody Place Item) : Event Place Item → Custody Place Item
  | .idle => c
  | .issue place item stored =>
    { c with
      issued := c.issued ++ [item]
      held := Function.update c.held place (if stored then some item else none) }
  | .hand place item =>
    { c with held := Function.update c.held place none, handed := c.handed ++ [item] }
  | .drop place => { c with held := Function.update c.held place none }

/-- The event issues a new item, and hands over what the place holds or an item
that is no longer, or never was, in custody. -/
def Admissible (c : Custody Place Item) : Event Place Item → Prop
  | .idle => True
  | .issue _ item _ => item ∉ c.issued ∧ item ∉ c.handed
  | .hand place item =>
    c.held place = some item ∨
      c.held place = none ∧ (item ∈ c.issued → item ∈ c.handed)
  | .drop _ => True

/-- The event hands over an item that its place does not hold. -/
def Stale (c : Custody Place Item) : Event Place Item → Prop
  | .hand place _ => c.held place = none
  | _ => False

/-- The event overwrites or drops an item, or issues one without storing it,
and the item is not excused. -/
def Loses (c : Custody Place Item) (excused : Item → Prop) : Event Place Item → Prop
  | .issue place item stored =>
    (∃ old, c.held place = some old ∧ ¬ excused old) ∨ ¬ stored ∧ ¬ excused item
  | .drop place => ∃ old, c.held place = some old ∧ ¬ excused old
  | _ => False

/-- A place other than the one named holds afterwards what it held before. -/
private theorem of_update_eq_some {held : Place → Option Item} {place other : Place}
    {value : Option Item} {item : Item}
    (holds : Function.update held place value other = some item) :
    other = place ∧ value = some item ∨ other ≠ place ∧ held other = some item := by
  by_cases same : other = place
  · subst same
    exact .inl ⟨rfl, by simpa using holds⟩
  · exact .inr ⟨same, by simpa [same] using holds⟩

/-- Emptying one place keeps custody sound. -/
theorem Sound.drop (sound : c.Sound) (place : Place) : (c.apply (.drop place)).Sound := by
  have before : ∀ {other item}, (c.apply (.drop place)).held other = some item →
      c.held other = some item := by
    intro other item holds
    rcases of_update_eq_some holds with ⟨_, impossible⟩ | ⟨_, held⟩
    · cases impossible
    · exact held
  exact {
    nodup := sound.nodup
    genuine := fun holds => sound.genuine (before holds)
    unhanded := fun holds => sound.unhanded (before holds)
    unique := fun first second => sound.unique (before first) (before second) }

/-- Issuing a new item keeps custody sound. -/
theorem Sound.issue (sound : c.Sound) {item : Item} (fresh : item ∉ c.issued)
    (unhanded : item ∉ c.handed) (place : Place) (stored : Prop) :
    (c.apply (.issue place item stored)).Sound := by
  have before : ∀ {other held}, (c.apply (.issue place item stored)).held other = some held →
      other = place ∧ held = item ∨ c.held other = some held := by
    intro other held holds
    rcases of_update_eq_some holds with ⟨same, value⟩ | ⟨_, kept⟩
    · split_ifs at value
      exact .inl ⟨same, (Option.some.inj value).symm⟩
    · exact .inr kept
  refine ⟨?_, ?_, ?_, ?_⟩
  · exact List.nodup_append.mpr ⟨sound.nodup, List.nodup_singleton item, by
      intro old member new isNew same
      rw [same, List.mem_singleton.mp isNew] at member
      exact fresh member⟩
  · intro other held holds
    rcases before holds with ⟨_, rfl⟩ | kept
    · exact List.mem_append_right _ (List.mem_singleton.mpr rfl)
    · exact List.mem_append_left _ (sound.genuine kept)
  · intro other held holds
    rcases before holds with ⟨_, rfl⟩ | kept
    · exact unhanded
    · exact sound.unhanded kept
  · intro first second held atFirst atSecond
    rcases before atFirst with ⟨rfl, rfl⟩ | keptFirst
    · rcases before atSecond with ⟨rfl, _⟩ | keptSecond
      · rfl
      · exact absurd (sound.genuine keptSecond) fresh
    · rcases before atSecond with ⟨_, rfl⟩ | keptSecond
      · exact absurd (sound.genuine keptFirst) fresh
      · exact sound.unique keptFirst keptSecond

/-- Handing over keeps custody sound, even when the item is stale. -/
theorem Sound.hand (sound : c.Sound) {place : Place} {item : Item}
    (admissible : c.Admissible (.hand place item)) : (c.apply (.hand place item)).Sound := by
  have before : ∀ {other held}, (c.apply (.hand place item)).held other = some held →
      c.held other = some held ∧ held ≠ item := by
    intro other held holds
    rcases of_update_eq_some holds with ⟨_, impossible⟩ | ⟨elsewhere, kept⟩
    · cases impossible
    · refine ⟨kept, ?_⟩
      rintro rfl
      rcases admissible with here | ⟨_, gone⟩
      · exact elsewhere (sound.unique kept here)
      · exact sound.unhanded kept (gone (sound.genuine kept))
  exact {
    nodup := sound.nodup
    genuine := fun holds => sound.genuine (before holds).1
    unhanded := by
      intro other held holds member
      rcases List.mem_append.mp member with earlier | last
      · exact sound.unhanded (before holds).1 earlier
      · exact (before holds).2 (List.mem_singleton.mp last)
    unique := fun first second => sound.unique (before first).1 (before second).1 }

/-- Every admissible event keeps custody sound. -/
theorem Sound.apply (sound : c.Sound) {event : Event Place Item}
    (admissible : c.Admissible event) : (c.apply event).Sound := by
  cases event with
  | idle => exact sound
  | issue place item stored => exact sound.issue admissible.1 admissible.2 place stored
  | hand place item => exact sound.hand admissible
  | drop place => exact sound.drop place

/-- A faithful record stays faithful unless a stale item is handed over, and no
longer. -/
theorem faithful_apply_iff (sound : c.Sound) (faithful : c.Faithful) {event : Event Place Item}
    (admissible : c.Admissible event) : (c.apply event).Faithful ↔ ¬ c.Stale event := by
  cases event with
  | idle => simpa [Custody.apply, Stale] using faithful
  | issue place item stored =>
    simp only [Stale, not_false_iff, iff_true]
    exact ⟨fun old member => List.mem_append_left _ (faithful.1 old member), faithful.2⟩
  | drop place => simpa [Custody.apply, Stale, Faithful] using faithful
  | hand place item =>
    simp only [Stale]
    rcases admissible with here | ⟨absent, gone⟩
    · have held : ¬ c.held place = none := by simp [here]
      simp only [held, not_false_iff, iff_true]
      refine ⟨fun old member => ?_, ?_⟩
      · rcases List.mem_append.mp member with earlier | last
        · exact faithful.1 old earlier
        · rw [List.mem_singleton.mp last]
          exact sound.genuine here
      · exact faithful.2.append (List.nodup_singleton item)
          (by simpa using sound.unhanded here)
    · simp only [absent, not_true, iff_false]
      rintro ⟨issued, nodup⟩
      have repeated : item ∈ c.handed :=
        gone (issued item (List.mem_append_right _ (List.mem_singleton.mpr rfl)))
      exact (List.nodup_append.mp nodup).2.2 item repeated item
        (List.mem_singleton.mpr rfl) rfl

/-- Custody that has lost nothing loses something by an event exactly when the
event overwrites, drops or fails to store an item that is not excused. -/
theorem kept_apply_iff {excused later : Item → Prop} (sound : c.Sound) (kept : c.Kept excused)
    (grows : ∀ item, excused item → later item) {event : Event Place Item}
    (admissible : c.Admissible event) : (c.apply event).Kept later ↔ ¬ c.Loses later event := by
  have after := sound.apply admissible
  -- an item that its place keeps stays accounted for
  have unchanged : ∀ item ∈ c.issued, (∀ place, c.held place = some item →
      later item ∨ item ∈ (c.apply event).handed ∨
        ∃ place, (c.apply event).held place = some item) →
      (∀ old ∈ c.handed, old ∈ (c.apply event).handed) →
      later item ∨ item ∈ (c.apply event).handed ∨
        ∃! place, (c.apply event).held place = some item := by
    intro item issued carried handed
    rw [after.existsUnique]
    rcases kept item issued with excuse | delivered | ⟨place, here, _⟩
    · exact .inl (grows item excuse)
    · exact .inr (.inl (handed item delivered))
    · exact carried place here
  cases event with
  | idle =>
    simp only [Loses, not_false_iff, iff_true]
    exact fun item issued => unchanged item issued
      (fun place here => .inr (.inr ⟨place, here⟩)) fun _ => id
  | hand place item =>
    simp only [Loses, not_false_iff, iff_true]
    refine fun old issued => unchanged old issued (fun other here => ?_)
      fun _ member => List.mem_append_left _ member
    by_cases same : other = place
    · subst same
      rcases admissible with held | ⟨absent, _⟩
      · rw [held] at here
        rw [Option.some.inj here]
        exact .inr (.inl (List.mem_append_right _ (List.mem_singleton.mpr rfl)))
      · rw [absent] at here
        cases here
    · exact .inr (.inr ⟨other, by simpa [Custody.apply, same] using here⟩)
  | drop place =>
    constructor
    · rintro keptAfter ⟨old, here, unexcused⟩
      refine sound.lost_of_overwritten here unexcused keptAfter (sound.genuine here) rfl ?_
      intro other there
      rcases of_update_eq_some there with ⟨_, impossible⟩ | moved
      · cases impossible
      · exact moved
    · intro safe
      refine fun old issued => unchanged old issued (fun other here => ?_) fun _ => id
      by_cases same : other = place
      · subst same
        exact .inl (by_contra fun unexcused => safe ⟨old, here, unexcused⟩)
      · exact .inr (.inr ⟨other, by simpa [Custody.apply, same] using here⟩)
  | issue place item stored =>
    obtain ⟨fresh, unhanded⟩ := admissible
    constructor
    · rintro keptAfter (⟨old, here, unexcused⟩ | ⟨unstored, unexcused⟩)
      · refine sound.lost_of_overwritten here unexcused keptAfter
          (List.mem_append_left _ (sound.genuine here)) rfl ?_
        intro other there
        rcases of_update_eq_some there with ⟨_, value⟩ | moved
        · split_ifs at value
          rw [Option.some.inj value] at fresh
          exact absurd (sound.genuine here) fresh
        · exact moved
      · rcases keptAfter item (List.mem_append_right _ (List.mem_singleton.mpr rfl)) with
          excuse | delivered | ⟨other, there, _⟩
        · exact unexcused excuse
        · exact unhanded delivered
        · rcases of_update_eq_some there with ⟨_, value⟩ | ⟨_, before⟩
          · simp [unstored] at value
          · exact fresh (sound.genuine before)
    · intro safe old issued
      rcases List.mem_append.mp issued with earlier | last
      · refine unchanged old earlier (fun other here => ?_) fun _ => id
        by_cases same : other = place
        · subst same
          exact .inl (by_contra fun unexcused => safe (.inl ⟨old, here, unexcused⟩))
        · exact .inr (.inr ⟨other, by simpa [Custody.apply, same] using here⟩)
      · rw [List.mem_singleton.mp last]
        rw [after.existsUnique]
        by_cases isStored : stored
        · exact .inr (.inr ⟨place, by simp [Custody.apply, isStored]⟩)
        · exact .inl (by_contra fun unexcused => safe (.inr ⟨isStored, unexcused⟩))

end Custody

end DBSos.Lib
