import Mathlib.Order.Nat

/-!
# Handles on recycled slots

A client holds a handle, a handle is bound to a slot, a slot is live or free. Slots
and handles are used again; `born` and `opened` record which tenant of a slot a
client came for. Removing a slot unbinds its handles under their holders, and the
one move after which a client can reach another tenant is to bind a handle that
somebody still holds.
-/

namespace DBSos.Lib

universe u v w

/-- The clients' handles, the handles' slots, and the records beside them. -/
structure Handles (Client : Type u) (Handle : Type v) (Slot : Type w) where
  held : Client → Option Handle
  bound : Handle → Option Slot
  live : Slot → Bool
  born : Slot → Nat
  opened : Client → Nat
  clock : Nat

namespace Handles

variable {Client : Type u} {Handle : Type v} {Slot : Type w}
  {s : Handles Client Handle Slot} {client other : Client} {handle : Handle} {slot : Slot}

/-- Whatever a client reaches is what it came for. -/
def Faithful (s : Handles Client Handle Slot) : Prop :=
  ∀ client handle slot, s.held client = some handle → s.bound handle = some slot →
    s.born slot = s.opened client

/-- Handles have one holder each, and a client whose handle is unbound came for a
tenant that is gone. -/
structure Sound (s : Handles Client Handle Slot) : Prop where
  faithful : s.Faithful
  alone : ∀ {client other handle}, s.held client = some handle → s.held other = some handle →
    client = other
  boundLive : ∀ {handle slot}, s.bound handle = some slot → s.live slot = true
  gone : ∀ {client handle slot}, s.held client = some handle → s.bound handle = none →
    s.live slot = true → s.born slot ≠ s.opened client
  bornBefore : ∀ {slot}, s.live slot = true → s.born slot < s.clock
  openedBefore : ∀ {client handle}, s.held client = some handle → s.opened client < s.clock
  distinct : ∀ {slot other}, s.live slot = true → s.live other = true →
    s.born slot = s.born other → slot = other

/-- Time passes. -/
def tick (s : Handles Client Handle Slot) : Handles Client Handle Slot :=
  { s with clock := s.clock + 1 }

theorem Sound.tick (sound : s.Sound) : s.tick.Sound :=
  { sound with
    bornBefore := fun live => Nat.lt_succ_of_lt (sound.bornBefore live)
    openedBefore := fun held => Nat.lt_succ_of_lt (sound.openedBefore held) }

section Slots

variable [DecidableEq Slot]

/-- A new tenant moves into a slot. -/
def create (s : Handles Client Handle Slot) (slot : Slot) : Handles Client Handle Slot :=
  { s with
    live := Function.update s.live slot true
    born := Function.update s.born slot s.clock
    clock := s.clock + 1 }

/-- The tenant of a slot leaves, and the slot's handles are unbound. -/
def remove (s : Handles Client Handle Slot) (slot : Slot) : Handles Client Handle Slot :=
  { s with
    live := Function.update s.live slot false
    bound := fun handle => if s.bound handle = some slot then none else s.bound handle }

theorem create_live (slot other : Slot) :
    (s.create slot).live other = if other = slot then true else s.live other :=
  Function.update_apply _ _ _ _

theorem remove_live (slot other : Slot) :
    (s.remove slot).live other = if other = slot then false else s.live other :=
  Function.update_apply _ _ _ _

theorem Sound.create (sound : s.Sound) (free : s.live slot = false) :
    (s.create slot).Sound := by
  have old {other : Slot} (live : s.live other = true) : other ≠ slot := by
    rintro rfl
    rw [free] at live
    cases live
  have bornOld {other : Slot} (live : s.live other = true) :
      (s.create slot).born other = s.born other := Function.update_of_ne (old live) _ _
  have bornNew : (s.create slot).born slot = s.clock := Function.update_self _ _ _
  have cases' {other : Slot} (live : (s.create slot).live other = true) :
      other = slot ∨ s.live other = true := by
    by_cases here : other = slot
    · exact .inl here
    · exact .inr ((Function.update_of_ne here _ _).symm.trans live)
  refine ⟨?_, sound.alone, ?_, ?_, ?_, ?_, ?_⟩
  · intro client handle other held bound
    rw [bornOld (sound.boundLive bound)]
    exact sound.faithful _ _ _ held bound
  · intro handle other bound
    have live := sound.boundLive bound
    exact (Function.update_of_ne (old live) _ _).trans live
  · intro client handle other held unbound live
    rcases cases' live with rfl | live
    · rw [bornNew]
      exact (sound.openedBefore held).ne'
    · rw [bornOld live]
      exact sound.gone held unbound live
  · intro other live
    rcases cases' live with rfl | live
    · rw [bornNew]
      exact Nat.lt_succ_self _
    · rw [bornOld live]
      exact Nat.lt_succ_of_lt (sound.bornBefore live)
  · exact fun held => Nat.lt_succ_of_lt (sound.openedBefore held)
  · intro one two liveOne liveTwo same
    rcases cases' liveOne with rfl | oldOne <;> rcases cases' liveTwo with rfl | oldTwo
    · rfl
    · rw [bornNew, bornOld oldTwo] at same
      exact absurd same (sound.bornBefore oldTwo).ne'
    · rw [bornNew, bornOld oldOne] at same
      exact absurd same (sound.bornBefore oldOne).ne
    · rw [bornOld oldOne, bornOld oldTwo] at same
      exact sound.distinct oldOne oldTwo same

theorem Sound.remove (sound : s.Sound) (live : s.live slot = true) : (s.remove slot).Sound := by
  have stays {handle : Handle} {other : Slot}
      (bound : (s.remove slot).bound handle = some other) :
      s.bound handle = some other ∧ other ≠ slot := by
    simp only [Handles.remove] at bound
    split_ifs at bound with removed
    exact ⟨bound, fun same => removed (same ▸ bound)⟩
  have liveBefore {other : Slot} (stillLive : (s.remove slot).live other = true) :
      s.live other = true ∧ other ≠ slot := by
    by_cases here : other = slot
    · subst here
      simp [Handles.remove] at stillLive
    · exact ⟨(Function.update_of_ne here _ _).symm.trans stillLive, here⟩
  refine ⟨?_, sound.alone, ?_, ?_, ?_, sound.openedBefore, ?_⟩
  · intro client handle other held bound
    exact sound.faithful _ _ _ held (stays bound).1
  · intro handle other bound
    obtain ⟨before, apart⟩ := stays bound
    exact (Function.update_of_ne apart _ _).trans (sound.boundLive before)
  · intro client handle other held unbound stillLive
    obtain ⟨liveOther, apart⟩ := liveBefore stillLive
    simp only [Handles.remove] at unbound
    split_ifs at unbound with removed
    · -- the client came for the tenant that leaves
      have came := sound.faithful _ _ _ held removed
      exact fun same => apart (sound.distinct liveOther live (same.trans came.symm))
    · exact sound.gone held unbound liveOther
  · exact fun stillLive => sound.bornBefore (liveBefore stillLive).1
  · exact fun one two same => sound.distinct (liveBefore one).1 (liveBefore two).1 same

end Slots

section Holders

variable [DecidableEq Client] [DecidableEq Handle]

/-- A client takes a handle on a slot. -/
def take (s : Handles Client Handle Slot) (client : Client) (handle : Handle) (slot : Slot) :
    Handles Client Handle Slot :=
  { s with
    held := Function.update s.held client (some handle)
    bound := Function.update s.bound handle (some slot)
    opened := Function.update s.opened client (s.born slot) }

/-- A client gives its handle back. -/
def giveBack (s : Handles Client Handle Slot) (client : Client) (handle : Handle) :
    Handles Client Handle Slot :=
  { s with
    held := Function.update s.held client none
    bound := Function.update s.bound handle none }

/-- Nobody holds the handle. -/
def Unheld (s : Handles Client Handle Slot) (handle : Handle) : Prop :=
  ∀ client, s.held client ≠ some handle

theorem Sound.take (sound : s.Sound) (idle : s.held client = none) (unheld : s.Unheld handle)
    (live : s.live slot = true) : (s.take client handle slot).Sound := by
  have cases' {other : Client} {h : Handle}
      (held : (s.take client handle slot).held other = some h) :
      other = client ∧ h = handle ∨ other ≠ client ∧ h ≠ handle ∧ s.held other = some h := by
    by_cases here : other = client
    · subst here
      simp only [Handles.take, Function.update_self, Option.some.injEq] at held
      exact .inl ⟨rfl, held.symm⟩
    · simp only [Handles.take, Function.update_of_ne here] at held
      exact .inr ⟨here, fun same => unheld other (same ▸ held), held⟩
  have self : (s.take client handle slot).bound handle = some slot := Function.update_self _ _ _
  have openedSelf : (s.take client handle slot).opened client = s.born slot :=
    Function.update_self _ _ _
  have openedOther {other : Client} (apart : other ≠ client) :
      (s.take client handle slot).opened other = s.opened other := Function.update_of_ne apart _ _
  have boundOther {h : Handle} (apart : h ≠ handle) :
      (s.take client handle slot).bound h = s.bound h := Function.update_of_ne apart _ _
  refine ⟨?_, ?_, ?_, ?_, sound.bornBefore, ?_, sound.distinct⟩
  · intro other h target held bound
    obtain ⟨rfl, rfl⟩ | ⟨apart, apartHandle, held⟩ := cases' held
    · rw [self, Option.some.injEq] at bound
      rw [openedSelf, ← bound]
      rfl
    · rw [boundOther apartHandle] at bound
      rw [openedOther apart]
      exact sound.faithful _ _ _ held bound
  · intro one two h heldOne heldTwo
    obtain ⟨sameOne, handleOne⟩ | ⟨-, apartOne, oldOne⟩ := cases' heldOne <;>
      obtain ⟨sameTwo, handleTwo⟩ | ⟨-, apartTwo, oldTwo⟩ := cases' heldTwo
    · rw [sameOne, sameTwo]
    · exact absurd handleOne apartTwo
    · exact absurd handleTwo apartOne
    · exact sound.alone oldOne oldTwo
  · intro h target bound
    by_cases here : h = handle
    · subst here
      rw [self, Option.some.injEq] at bound
      exact bound ▸ live
    · rw [boundOther here] at bound
      exact sound.boundLive bound
  · intro other h target held unbound liveTarget
    obtain ⟨rfl, rfl⟩ | ⟨apart, apartHandle, held⟩ := cases' held
    · rw [self] at unbound
      cases unbound
    · rw [boundOther apartHandle] at unbound
      rw [openedOther apart]
      exact sound.gone held unbound liveTarget
  · intro other h held
    obtain ⟨rfl, rfl⟩ | ⟨apart, -, held⟩ := cases' held
    · rw [openedSelf]
      exact sound.bornBefore live
    · rw [openedOther apart]
      exact sound.openedBefore held

/-- To bind a handle that another client holds leads that client to a stranger. -/
theorem Sound.not_faithful_take (sound : s.Sound) (idle : s.held client = none)
    (holder : s.held other = some handle) (unbound : s.bound handle = none)
    (live : s.live slot = true) : ¬ (s.take client handle slot).Faithful := by
  intro faithful
  have apart : other ≠ client := by
    rintro rfl
    rw [idle] at holder
    cases holder
  have still : (s.take client handle slot).held other = some handle :=
    (Function.update_of_ne apart _ _).trans holder
  have reached := faithful other handle slot still (Function.update_self _ _ _)
  have opened : (s.take client handle slot).opened other = s.opened other :=
    Function.update_of_ne apart _ _
  exact sound.gone holder unbound live (reached.trans opened)

theorem Sound.giveBack (sound : s.Sound) (holder : s.held client = some handle) :
    (s.giveBack client handle).Sound := by
  have before {other : Client} {h : Handle}
      (held : (s.giveBack client handle).held other = some h) :
      h ≠ handle ∧ s.held other = some h := by
    by_cases here : other = client
    · subst here
      simp [Handles.giveBack] at held
    · simp only [Handles.giveBack, Function.update_of_ne here] at held
      exact ⟨fun same => here (sound.alone (same ▸ held) holder), held⟩
  have boundOther {h : Handle} (apart : h ≠ handle) :
      (s.giveBack client handle).bound h = s.bound h := Function.update_of_ne apart _ _
  refine ⟨?_, ?_, ?_, ?_, sound.bornBefore, ?_, sound.distinct⟩
  · intro other h target held bound
    obtain ⟨apart, held⟩ := before held
    exact sound.faithful _ _ _ held ((boundOther apart).symm.trans bound)
  · exact fun one two => sound.alone (before one).2 (before two).2
  · intro h target bound
    by_cases here : h = handle
    · subst here
      simp [Handles.giveBack] at bound
    · exact sound.boundLive ((boundOther here).symm.trans bound)
  · intro other h target held unbound liveTarget
    obtain ⟨apart, held⟩ := before held
    exact sound.gone held ((boundOther apart).symm.trans unbound) liveTarget
  · exact fun held => sound.openedBefore (before held).2

end Holders

end Handles

end DBSos.Lib
