import DBSos.Lib.Trace
import DBSos.Netman.Records

/-!
# Profiles as a map

What the manager should hold after any calls: for each network the secret that was added
last, in the order in which the networks came, and the network that was joined last. The
marker of that network is an index, which `forget` does not move with the profiles.
-/

namespace DBSos.Netman

open DBSos.Crypto DBSos.Lib

/-- The secrets that were added last, the networks in their order and the one joined last. -/
structure Book where
  psk : Bytes → Option Bytes
  names : List Bytes
  last : Option Bytes

namespace Book

variable (b : Book)

/-- A secret is added, if there is room for the network. -/
def add (ssid psk : Bytes) : Book :=
  if ssid = [] ∨ 32 < ssid.length ∨ 63 < psk.length then b
  else if ssid ∈ b.names then { b with psk := Function.update b.psk ssid (some psk) }
  else if 8 ≤ b.names.length then b
  else { b with psk := Function.update b.psk ssid (some psk), names := b.names ++ [ssid] }

/-- A network is forgotten. -/
def forget (ssid : Bytes) : Book where
  psk := Function.update b.psk ssid none
  names := b.names.erase ssid
  last := b.last.filter fun last => last ≠ ssid

/-- The network at an index is joined. -/
def connect (idx : Nat) : Book :=
  match b.names[idx]? with
  | none => b
  | some ssid => { b with last := some ssid }

end Book

/-- A call, with the random bytes of `add`. -/
inductive Call where
  | add (ssid psk : Bytes) (salt iv : Block)
  | forget (ssid : Bytes)
  | connect (idx : Nat)
  | save
  | load

/-- The manager, and what it should hold. -/
structure World where
  manager : Manager
  book : Book

namespace World

variable (deviceKey : Block → Bytes) (w : World)

/-- The state behind a call. -/
def next : Call → World
  | .add ssid psk salt iv =>
    ⟨(w.manager.add deviceKey ssid psk salt iv).2, w.book.add ssid psk⟩
  | .forget ssid => ⟨(w.manager.forget ssid).2, w.book.forget ssid⟩
  | .connect idx => ⟨w.manager.connect idx, w.book.connect idx⟩
  | .save => ⟨w.manager.save, w.book⟩
  | .load => ⟨w.manager.load, w.book⟩

/-- The manager holds what it should. -/
structure Faithful (w : World) : Prop where
  few : w.manager.nprof ≤ 8
  names : ∀ i < w.manager.nprof, 1 ≤ (w.manager.profiles i).name.length ∧
    (w.manager.profiles i).name.length ≤ 32
  distinct : ∀ i < w.manager.nprof, ∀ j < w.manager.nprof,
    (w.manager.profiles i).name = (w.manager.profiles j).name → i = j
  secrets : ∀ ssid psk, w.book.psk ssid = some psk → psk.length ≤ 63
  found : ∀ ssid, (w.manager.find ssid).bind (w.manager.reveal deviceKey) = w.book.psk ssid
  last : w.manager.last?.map (fun i => (w.manager.profiles i).name) = w.book.last

/-- A profile is forgotten behind the marker, or it is the last one and marked. -/
def Guard (w : World) : Call → Prop
  | .forget ssid => ∀ i, w.manager.find ssid = some i → w.manager.last < w.manager.nprof →
      w.manager.last < i ∨ w.manager.last = i ∧ i + 1 = w.manager.nprof
  | _ => True

/-- What every call keeps: the profiles are those of the book. -/
structure Core (w : World) : Prop where
  size : w.manager.nprof = w.book.names.length
  few : w.manager.nprof ≤ 8
  nodup : w.book.names.Nodup
  profiles : ∀ i ssid, w.book.names[i]? = some ssid →
    ∃ psk, w.book.psk ssid = some psk ∧ Sealed deviceKey (w.manager.profiles i) ssid psk
  strangers : ∀ ssid, ssid ∉ w.book.names → w.book.psk ssid = none
  marker : w.manager.last < w.manager.nprof ∨ w.manager.last = 0xFF

/-- The file is what `save` would write, or there is nothing to write. -/
def Synced (m : Manager) : Prop :=
  m.file = some m.contents ∨ m.file = none ∧ m.nprof = 0

/-- The marker is at the network joined last. -/
def Marked (w : World) : Prop := w.book.last = w.book.names[w.manager.last]?

variable {deviceKey w}

/-! ## What the profiles show -/

theorem Core.getElem? (core : w.Core deviceKey) {i : Nat} (inside : i < w.manager.nprof) :
    ∃ ssid psk, w.book.names[i]? = some ssid ∧ w.book.psk ssid = some psk ∧
      Sealed deviceKey (w.manager.profiles i) ssid psk := by
  rw [core.size] at inside
  obtain ⟨psk, secret, is⟩ := core.profiles i _ (List.getElem?_eq_getElem inside)
  exact ⟨_, psk, List.getElem?_eq_getElem inside, secret, is⟩

theorem Core.inside (core : w.Core deviceKey) {i : Nat} {ssid : Bytes}
    (found : w.book.names[i]? = some ssid) : i < w.manager.nprof := by
  rw [core.size]
  exact (List.getElem?_eq_some_iff.mp found).1

theorem Core.index_inj (core : w.Core deviceKey) {i j : Nat} {ssid : Bytes}
    (first : w.book.names[i]? = some ssid) (second : w.book.names[j]? = some ssid) : i = j :=
  (List.getElem?_inj (List.getElem?_eq_some_iff.mp first).1 core.nodup).mp
    (first.trans second.symm)

/-- `find` finds the place of a network in the book. -/
theorem Core.find_some (core : w.Core deviceKey) {i : Nat} {ssid : Bytes} :
    w.manager.find ssid = some i ↔ w.book.names[i]? = some ssid := by
  constructor
  · intro found
    have inside := List.mem_range.mp (List.mem_of_find?_eq_some found)
    have answers := List.find?_some found
    obtain ⟨name, psk, place, -, is⟩ := core.getElem? inside
    rw [place, is.answers_iff.mp (of_decide_eq_true answers)]
  · intro place
    have inside := core.inside place
    obtain ⟨psk, -, is⟩ := core.profiles i ssid place
    refine List.find?_range_eq_some.mpr ⟨?_, List.mem_range.mpr inside, fun j before => ?_⟩
    · exact decide_eq_true (is.answers_iff.mpr rfl)
    · obtain ⟨other, psk', place', -, is'⟩ := core.getElem? (before.trans inside)
      rw [Bool.not_eq_true', decide_eq_false_iff_not, is'.answers_iff]
      rintro rfl
      have same := core.index_inj place place'
      omega

theorem Core.find_none (core : w.Core deviceKey) {ssid : Bytes} :
    w.manager.find ssid = none ↔ ssid ∉ w.book.names := by
  constructor
  · intro none member
    obtain ⟨i, place⟩ := List.mem_iff_getElem?.mp member
    rw [core.find_some.mpr place] at none
    cases none
  · intro stranger
    refine Option.eq_none_iff_forall_ne_some.mpr fun i found => stranger ?_
    exact List.mem_iff_getElem?.mpr ⟨i, core.find_some.mp found⟩

theorem Core.name (core : w.Core deviceKey) {i : Nat} (inside : i < w.manager.nprof) :
    w.book.names[i]? = some (w.manager.profiles i).name := by
  obtain ⟨ssid, psk, place, -, is⟩ := core.getElem? inside
  rw [place, is.name_eq]

theorem Core.last (core : w.Core deviceKey) :
    w.manager.last?.map (fun i => (w.manager.profiles i).name) =
      w.book.names[w.manager.last]? := by
  have few := core.few
  unfold Manager.last?
  split_ifs with live
  · rw [core.name live.2]
    rfl
  · refine (List.getElem?_eq_none ?_).symm
    rw [← core.size]
    rcases core.marker with marked | none <;> omega

/-- With the profiles of the book, all that matters is where the marker is. -/
theorem Core.faithful_iff (core : w.Core deviceKey) : w.Faithful deviceKey ↔ w.Marked := by
  constructor
  · intro faithful
    exact faithful.last.symm.trans core.last
  · intro marked
    refine ⟨core.few, ?_, ?_, ?_, ?_, core.last.trans marked.symm⟩
    · intro i inside
      obtain ⟨ssid, psk, -, -, is⟩ := core.getElem? inside
      rw [is.name_eq]
      exact is.name
    · intro i inside j inside' same
      have place := core.name inside
      rw [same] at place
      exact core.index_inj place (core.name inside')
    · intro ssid psk secret
      have member : ssid ∈ w.book.names := by
        by_contra stranger
        rw [core.strangers ssid stranger] at secret
        cases secret
      obtain ⟨i, place⟩ := List.mem_iff_getElem?.mp member
      obtain ⟨psk', secret', is⟩ := core.profiles i ssid place
      rw [secret'] at secret
      obtain rfl := Option.some.inj secret
      exact is.secret
    · intro ssid
      rcases found : w.manager.find ssid with _ | i
      · exact (core.strangers ssid (core.find_none.mp found)).symm
      · have place := core.find_some.mp found
        obtain ⟨psk, secret, is⟩ := core.profiles i ssid place
        rw [secret]
        exact is.reveal (core.inside place)

/-! ## What a call keeps -/

/-- A profile takes the place of one of the same network. -/
theorem Core.replace (core : w.Core deviceKey) {slot : Nat} {ssid psk : Bytes} {p : Profile}
    (place : w.book.names[slot]? = some ssid) (is : Sealed deviceKey p ssid psk) :
    Core deviceKey
      ⟨{ w.manager with profiles := Function.update w.manager.profiles slot p },
        { w.book with psk := Function.update w.book.psk ssid (some psk) }⟩ := by
  refine ⟨core.size, core.few, core.nodup, fun i other place' => ?_, fun other stranger => ?_,
    core.marker⟩
  · dsimp only at place' ⊢
    by_cases same : i = slot
    · subst same
      obtain rfl : ssid = other := Option.some.inj (place.symm.trans place')
      rw [Function.update_self, Function.update_self]
      exact ⟨psk, rfl, is⟩
    · have apart : other ≠ ssid := by
        rintro rfl
        exact same (core.index_inj place' place)
      rw [Function.update_of_ne same, Function.update_of_ne apart]
      exact core.profiles i other place'
  · have apart : other ≠ ssid := by
      rintro rfl
      exact stranger (List.mem_of_getElem? place)
    exact (Function.update_of_ne apart ..).trans (core.strangers other stranger)

/-- A profile comes behind the others. -/
theorem Core.append (core : w.Core deviceKey) {ssid psk : Bytes} {p : Profile}
    (room : w.manager.nprof < 8) (stranger : ssid ∉ w.book.names)
    (is : Sealed deviceKey p ssid psk) :
    Core deviceKey
      ⟨{ w.manager with
          profiles := Function.update w.manager.profiles w.manager.nprof p
          nprof := w.manager.nprof + 1 },
        { w.book with
          psk := Function.update w.book.psk ssid (some psk)
          names := w.book.names ++ [ssid] }⟩ := by
  refine ⟨?_, room, ?_, fun i other place => ?_, fun other absent => ?_, ?_⟩
  · simp [core.size]
  · refine List.nodup_append.mpr ⟨core.nodup, List.nodup_singleton _, ?_⟩
    intro name member last isLast same
    rw [List.mem_singleton] at isLast
    subst isLast same
    exact stranger member
  · dsimp only at place ⊢
    rw [core.size]
    rcases lt_trichotomy i w.book.names.length with before | last | behind
    · rw [List.getElem?_append_left before] at place
      have apart : other ≠ ssid := by
        rintro rfl
        exact stranger (List.mem_of_getElem? place)
      rw [Function.update_of_ne before.ne, Function.update_of_ne apart]
      exact core.profiles i other place
    · subst last
      rw [List.getElem?_concat_length] at place
      obtain rfl := Option.some.inj place
      rw [Function.update_self, Function.update_self]
      exact ⟨psk, rfl, is⟩
    · rw [List.getElem?_eq_none (by simp; omega)] at place
      cases place
  · rw [List.mem_append, List.mem_singleton, not_or] at absent
    exact (Function.update_of_ne absent.2 ..).trans (core.strangers other absent.1)
  · dsimp only
    rcases core.marker with marked | none
    · exact .inl (by omega)
    · exact .inr none

/-- A profile is removed, and those behind it move up. -/
theorem Core.forget (core : w.Core deviceKey) {ssid : Bytes} {i : Nat}
    (found : w.manager.find ssid = some i) :
    Core deviceKey ⟨(w.manager.forget ssid).2, w.book.forget ssid⟩ := by
  have place := core.find_some.mp found
  have inside := core.inside place
  obtain ⟨bound, rfl⟩ := List.getElem?_eq_some_iff.mp place
  have names : w.book.names.erase w.book.names[i] = w.book.names.eraseIdx i :=
    List.Nodup.erase_getElem core.nodup i bound
  have size := core.size
  unfold Manager.forget Book.forget
  rw [found]
  refine ⟨?_, ?_, ?_, fun j other there => ?_, fun other absent => ?_, ?_⟩
  · simp [names, List.length_eraseIdx, bound, size, Manager.save]
  · have few := core.few
    simp only [Manager.save]
    omega
  · exact core.nodup.erase _
  · dsimp only at there ⊢
    rw [names] at there
    have apart : other ≠ w.book.names[i] := by
      rintro rfl
      have member := List.mem_of_getElem? there
      rw [← names] at member
      exact core.nodup.not_mem_erase member
    have short := (List.getElem?_eq_some_iff.mp there).1
    rw [List.length_eraseIdx_of_lt bound] at short
    rw [Function.update_of_ne apart]
    simp only [Manager.save]
    rw [if_neg (by omega)]
    rw [List.getElem?_eraseIdx] at there
    by_cases before : j < i
    · rw [if_pos before] at there
      rw [if_neg (by omega)]
      exact core.profiles j other there
    · rw [if_neg before] at there
      rw [if_pos (by omega)]
      exact core.profiles (j + 1) other there
  · dsimp only at absent ⊢
    by_cases same : other = w.book.names[i]
    · rw [same, Function.update_self]
    · rw [Function.update_of_ne same]
      exact core.strangers other fun member =>
        absent (core.nodup.mem_erase_iff.mpr ⟨same, member⟩)
  · simp only [Manager.save]
    split_ifs
    · exact .inr rfl
    · exact .inl (by omega)

/-- The same profiles under the same marker. -/
theorem Core.congr (core : w.Core deviceKey) {m : Manager} (nprof : m.nprof = w.manager.nprof)
    (profiles : ∀ i < m.nprof, m.profiles i = w.manager.profiles i)
    (marker : m.last = w.manager.last) : Core deviceKey ⟨m, w.book⟩ := by
  refine ⟨nprof.trans core.size, nprof.trans_le core.few, core.nodup, fun i ssid place => ?_,
    core.strangers, ?_⟩
  · rw [profiles i (nprof ▸ core.inside place)]
    exact core.profiles i ssid place
  · dsimp only
    rw [nprof, marker]
    exact core.marker

theorem Core.written (core : w.Core deviceKey) : w.manager.Written := by
  refine ⟨core.few, core.marker, fun i inside => ?_⟩
  obtain ⟨ssid, psk, -, -, is⟩ := core.getElem? inside
  exact is.shaped

theorem contents_congr {m m' : Manager} (nprof : m'.nprof = m.nprof) (last : m'.last = m.last)
    (profiles : ∀ i < m.nprof, m'.profiles i = m.profiles i) : m'.contents = m.contents := by
  unfold Manager.contents
  rw [nprof, last]
  congr 1
  refine List.flatMap_congr fun i member => ?_
  rw [profiles i (List.mem_range.mp member)]

/-- `load` reads back what `save` has written. -/
theorem Core.load (core : w.Core deviceKey) (synced : Synced w.manager) :
    w.manager.load.nprof = w.manager.nprof ∧ w.manager.load.last = w.manager.last ∧
      w.manager.load.file = w.manager.file ∧
      ∀ i < w.manager.nprof, w.manager.load.profiles i = w.manager.profiles i := by
  rcases synced with written | ⟨none, zero⟩
  · have few := core.few
    have marker := core.marker
    have contents := core.written.buffer_contents
    have count : Manager.headerCount (Manager.buffer w.manager.contents) = w.manager.nprof := by
      rw [Manager.headerCount, contents]
      change min (UInt8.ofNat w.manager.nprof).toNat 8 = _
      rw [UInt8.toNat_ofNat']
      omega
    have last : ((Manager.buffer w.manager.contents).getD 9 0).toNat = w.manager.last := by
      rw [contents]
      change (UInt8.ofNat w.manager.last).toNat = _
      rw [UInt8.toNat_ofNat']
      omega
    have headed : Manager.Headed w.manager.contents := by
      refine ⟨?_, ?_⟩
      · rw [core.written.length_contents, Manager.recordAt]
        omega
      · rw [contents]
        rfl
    unfold Manager.load
    rw [written]
    unfold Manager.loadBytes
    dsimp only
    rw [if_pos headed, count, last]
    refine ⟨rfl, ?_, written, fun i inside => ?_⟩
    · dsimp only
      split_ifs <;> omega
    · dsimp only
      rw [Manager.loadFrom_of_fits _ _ (fun j member => ?_) (List.mem_range.mpr inside)
        List.nodup_range, core.written.ofRecord_buffer inside]
      have below := List.mem_range.mp member
      rw [core.written.ofRecord_buffer below]
      exact (core.written.shaped j below).encLen
  · have marker := core.marker
    unfold Manager.load
    rw [none]
    exact ⟨zero.symm, by dsimp only; omega, rfl, fun i inside => by omega⟩

variable (deviceKey) in
/-- What a run keeps. -/
structure Inv (w : World) : Prop where
  core : w.Core deviceKey
  marked : w.Marked
  synced : Synced w.manager

theorem Core.save (core : w.Core deviceKey) : Core deviceKey ⟨w.manager.save, w.book⟩ :=
  core.congr rfl (fun _ _ => rfl) rfl

theorem synced_save (m : Manager) : Synced m.save := .inl rfl

/-- A network that is not in the book is forgotten in vain. -/
theorem Core.forget_stranger (core : w.Core deviceKey) (marked : w.Marked) {ssid : Bytes}
    (stranger : ssid ∉ w.book.names) : w.book.forget ssid = w.book := by
  have psk : Function.update w.book.psk ssid none = w.book.psk := by
    rw [← core.strangers ssid stranger, Function.update_eq_self]
  have last : (w.book.last.filter fun last => last ≠ ssid) = w.book.last := by
    rw [marked]
    rcases there : w.book.names[w.manager.last]? with _ | last
    · rfl
    · refine Option.filter_some_pos (decide_eq_true ?_)
      rintro rfl
      exact stranger (List.mem_of_getElem? there)
  rw [Book.forget, psk, last, List.erase_of_not_mem stranger]

/-- Where the marker is after a profile is forgotten. -/
theorem Core.marked_forget_iff (core : w.Core deviceKey) (marked : w.Marked) {ssid : Bytes}
    {i : Nat} (found : w.manager.find ssid = some i) :
    Marked ⟨(w.manager.forget ssid).2, w.book.forget ssid⟩ ↔ w.Guard (.forget ssid) := by
  have place := core.find_some.mp found
  have inside := core.inside place
  have size := core.size
  have few := core.few
  have guard : w.Guard (.forget ssid) ↔ (w.manager.last < w.manager.nprof →
      w.manager.last < i ∨ w.manager.last = i ∧ i + 1 = w.manager.nprof) := by
    constructor
    · exact fun guard => guard i found
    · rintro guard j found'
      obtain rfl := Option.some.inj (found.symm.trans found')
      exact guard
  have names : w.book.names.erase ssid = w.book.names.eraseIdx i := by
    obtain ⟨bound, rfl⟩ := List.getElem?_eq_some_iff.mp place
    exact List.Nodup.erase_getElem core.nodup i bound
  rw [guard]
  unfold Marked Manager.forget Book.forget
  rw [found]
  simp only [Manager.save]
  rw [marked, names]
  rcases core.marker with live | none
  · obtain ⟨last, there⟩ : ∃ last, w.book.names[w.manager.last]? = some last :=
      ⟨_, List.getElem?_eq_getElem (size ▸ live)⟩
    have kept (apart : last ≠ ssid) :
        ((some last).filter fun last => last ≠ ssid) = some last := by simp [apart]
    rw [there]
    rcases lt_trichotomy w.manager.last i with before | same | behind
    · have apart : last ≠ ssid := by
        rintro rfl
        exact before.ne (core.index_inj there place)
      rw [kept apart, if_neg (by omega),
        List.getElem?_eraseIdx_of_lt before, there]
      exact iff_of_true rfl fun _ => .inl before
    · rw [same, place] at there
      obtain rfl := Option.some.inj there
      rw [Option.filter_some_neg (by simp), same]
      split_ifs with atEnd
      · rw [List.getElem?_eq_none (by rw [List.length_eraseIdx]; split_ifs <;> omega)]
        exact iff_of_true rfl fun _ => .inr ⟨rfl, by omega⟩
      · rw [List.getElem?_eraseIdx_of_ge le_rfl, List.getElem?_eq_getElem (by omega)]
        exact iff_of_false nofun fun guard => by
          rcases guard inside with before | ⟨-, isLast⟩ <;> omega
    · have apart : last ≠ ssid := by
        rintro rfl
        exact behind.ne (core.index_inj place there)
      rw [kept apart]
      refine iff_of_false (fun marked => ?_) fun guard => ?_
      · split_ifs at marked with atEnd
        · rw [List.getElem?_eq_none (by rw [List.length_eraseIdx]; split_ifs <;> omega)] at marked
          cases marked
        · rw [List.getElem?_eraseIdx_of_ge behind.le] at marked
          have same := core.index_inj there marked.symm
          omega
      · rcases guard live with before | ⟨same, -⟩ <;> omega
  · rw [none, List.getElem?_eq_none (by omega)]
    refine iff_of_true ?_ fun live => by omega
    rw [if_pos (by omega),
      List.getElem?_eq_none (by rw [List.length_eraseIdx]; split_ifs <;> omega)]
    rfl

theorem Inv.forget (inv : w.Inv deviceKey) (ssid : Bytes) :
    Core deviceKey (w.next deviceKey (.forget ssid)) ∧
      Synced (w.next deviceKey (.forget ssid)).manager ∧
      (Marked (w.next deviceKey (.forget ssid)) ↔ w.Guard (.forget ssid)) := by
  rcases found : w.manager.find ssid with _ | i
  · have stranger := inv.core.find_none.mp found
    have same : w.next deviceKey (.forget ssid) = w := by
      have book := inv.core.forget_stranger inv.marked stranger
      rw [next, book, Manager.forget, found]
    rw [same]
    refine ⟨inv.core, inv.synced, iff_of_true inv.marked fun i found' => ?_⟩
    rw [found] at found'
    cases found'
  · refine ⟨inv.core.forget found, ?_, inv.core.marked_forget_iff inv.marked found⟩
    rw [next, Manager.forget, found]
    exact synced_save _

theorem Inv.add (inv : w.Inv deviceKey) (ssid psk : Bytes) (salt iv : Block) :
    (w.next deviceKey (.add ssid psk salt iv)).Inv deviceKey := by
  have core := inv.core
  have size := core.size
  unfold next Manager.add Book.add
  by_cases invalid : ssid = [] ∨ 32 < ssid.length ∨ 63 < psk.length
  · simp only [if_pos invalid]
    exact inv
  simp only [if_neg invalid]
  obtain ⟨named, short, secret⟩ : ssid ≠ [] ∧ ¬ 32 < ssid.length ∧ ¬ 63 < psk.length := by
    simpa only [not_or] using invalid
  have positive := List.length_pos_iff.mpr named
  obtain ⟨p, encrypts, is⟩ := @encrypted_sealed deviceKey ssid psk ⟨positive, by omega⟩
    (by omega) salt iv
  rcases found : w.manager.find ssid with _ | slot
  · have stranger := core.find_none.mp found
    by_cases full : 8 ≤ w.manager.nprof
    · simp only [if_pos full, if_neg stranger, if_pos (size ▸ full)]
      exact inv
    · simp only [if_neg full, if_neg stranger, if_neg (size ▸ full), encrypts]
      refine ⟨(core.append (not_le.mp full) stranger is).save, ?_, synced_save _⟩
      have marked := inv.marked
      unfold Marked at marked ⊢
      simp only [Manager.save]
      rcases core.marker with live | none
      · rw [marked, List.getElem?_append_left (size ▸ live)]
      · rw [marked, none, List.getElem?_eq_none (by omega),
          List.getElem?_eq_none (by rw [List.length_append]; simp; omega)]
  · have place := core.find_some.mp found
    simp only [if_pos (List.mem_of_getElem? place), encrypts]
    exact ⟨(core.replace place is).save, inv.marked, synced_save _⟩

theorem Inv.connect (inv : w.Inv deviceKey) (idx : Nat) :
    (w.next deviceKey (.connect idx)).Inv deviceKey := by
  have core := inv.core
  have size := core.size
  unfold next Manager.connect Book.connect
  by_cases inside : idx < w.manager.nprof
  · have place := core.name inside
    simp only [if_pos inside, place]
    exact ⟨⟨core.size, core.few, core.nodup, core.profiles, core.strangers, .inl inside⟩,
      place.symm, synced_save _⟩
  · have place : w.book.names[idx]? = none := List.getElem?_eq_none (by omega)
    simp only [if_neg inside, place]
    exact inv

theorem Inv.load (inv : w.Inv deviceKey) : (w.next deviceKey .load).Inv deviceKey := by
  obtain ⟨nprof, last, file, profiles⟩ := inv.core.load inv.synced
  refine ⟨inv.core.congr nprof (fun i inside => profiles i (nprof ▸ inside)) last, ?_, ?_⟩
  · have marked := inv.marked
    unfold Marked next at *
    rw [last]
    exact marked
  · unfold Synced next
    rw [file, nprof, contents_congr nprof last profiles]
    exact inv.synced

/-- A call keeps everything but, where it is not guarded, the place of the marker. -/
theorem Inv.step (inv : w.Inv deviceKey) (call : Call) :
    Core deviceKey (w.next deviceKey call) ∧ Synced (w.next deviceKey call).manager ∧
      (Marked (w.next deviceKey call) ↔ w.Guard call) := by
  cases call with
  | add ssid psk salt iv =>
    have after := inv.add ssid psk salt iv
    exact ⟨after.core, after.synced, iff_of_true after.marked trivial⟩
  | forget ssid => exact inv.forget ssid
  | connect idx =>
    have after := inv.connect idx
    exact ⟨after.core, after.synced, iff_of_true after.marked trivial⟩
  | save => exact ⟨inv.core.save, synced_save _, iff_of_true inv.marked trivial⟩
  | load =>
    have after := inv.load
    exact ⟨after.core, after.synced, iff_of_true after.marked trivial⟩

/-- No profiles, and no file. -/
structure Initial (w : World) : Prop where
  nprof : w.manager.nprof = 0
  last : w.manager.last = 0xFF
  file : w.manager.file = none
  names : w.book.names = []
  psk : ∀ ssid, w.book.psk ssid = none
  joined : w.book.last = none

theorem Initial.inv (initial : w.Initial) : w.Inv deviceKey := by
  refine ⟨⟨?_, ?_, ?_, fun i ssid place => ?_, fun ssid _ => initial.psk ssid, .inr initial.last⟩,
    ?_, .inr ⟨initial.file, initial.nprof⟩⟩
  · rw [initial.nprof, initial.names]
    rfl
  · rw [initial.nprof]
    omega
  · rw [initial.names]
    exact List.nodup_nil
  · rw [initial.names] at place
    cases place
  · rw [Marked, initial.joined, initial.names]
    rfl

/-- The manager holds what it should throughout a run exactly where nothing is forgotten in
front of the marker, nor at it with profiles behind. -/
theorem faithful_throughout_iff {start final : World} {taken : List (Transition World Call)}
    (initial : start.Initial)
    (trace : Trace (fun w call after => after = w.next deviceKey call) start taken final) :
    Throughout (Faithful deviceKey) start taken ↔ Guarded Guard taken := by
  refine trace.throughout_iff_guarded (Inv deviceKey) initial.inv
    (fun w inv => inv.core.faithful_iff.mpr inv.marked) ?_ ?_
  · rintro before call _ inv guard rfl
    obtain ⟨core, synced, marked⟩ := inv.step call
    exact ⟨core, marked.mpr guard, synced⟩
  · rintro before call _ inv unguarded rfl faithful
    obtain ⟨core, -, marked⟩ := inv.step call
    exact unguarded (marked.mp (core.faithful_iff.mp faithful))

/-- The same, and a load of any file yields records of the file alone exactly where the file
has all that its header counts. -/
theorem profiles_kept_iff {start final : World} {taken : List (Transition World Call)}
    (initial : start.Initial)
    (trace : Trace (fun w call after => after = w.next deviceKey call) start taken final) :
    (Throughout (Faithful deviceKey) start taken ↔ Guarded Guard taken) ∧
      ∀ (m : Manager) (bytes : Bytes), (m.loadBytes bytes).Within bytes ↔ Manager.Fits bytes :=
  ⟨faithful_throughout_iff initial trace, Manager.within_loadBytes_iff⟩

/-- A manager without profiles. -/
def blank : World where
  manager := ⟨fun _ => .empty, 0, 0xFF, none⟩
  book := ⟨fun _ => none, [], none⟩

theorem initial_blank : blank.Initial := ⟨rfl, rfl, rfl, rfl, fun _ => rfl, rfl⟩

/-- Two open networks, of which the first is joined and one is forgotten. -/
def forgetting (ssid : Bytes) : List Call :=
  [.add [0x61] [] zeroBlock zeroBlock, .add [0x62] [] zeroBlock zeroBlock, .connect 0,
    .forget ssid]

/-- A run of the manager. -/
def run (calls : List Call) : Option (List (Transition World Call) × World) :=
  Lib.record (fun w call => some (w.next (fun _ => []) call)) blank calls

theorem trace_of_run {calls : List Call} {r : List (Transition World Call) × World}
    (recorded : run calls = some r) :
    Trace (fun w call after => after = w.next (fun _ => []) call) blank r.1 r.2 :=
  (trace_of_record recorded).mono fun taken => (Option.some.inj taken).symm

instance (w : World) : DecidablePred w.Guard
  | .forget ssid => inferInstanceAs (Decidable (∀ i ∈ w.manager.find ssid,
      w.manager.last < w.manager.nprof → w.manager.last < i ∨ w.manager.last = i ∧
        i + 1 = w.manager.nprof))
  | .add .. | .connect _ | .save | .load => instDecidableTrue

/-- The second network is forgotten, and the first is still the one joined last. -/
theorem kept_forgetting :
    ∃ r, run (forgetting [0x62]) = some r ∧ r.2.book.last = some [0x61] ∧
      Throughout (Faithful fun _ => []) blank r.1 := by
  have ok : ((run (forgetting [0x62])).map fun r => decide (r.2.book.last = some [0x61] ∧
      ∀ transition ∈ r.1, transition.before.Guard transition.label)) = some true := by
    decide +kernel
  obtain ⟨r, recorded, checked⟩ := Option.map_eq_some_iff.mp ok
  obtain ⟨last, guarded⟩ := of_decide_eq_true checked
  exact ⟨r, recorded, last,
    (profiles_kept_iff initial_blank (trace_of_run recorded)).1.mpr guarded⟩

/-- The network joined last is forgotten, and the one behind it takes its place. -/
theorem marker_stays :
    ¬ ∀ (deviceKey : Block → Bytes) (start final : World) (taken : List (Transition World Call)),
      start.Initial → Trace (fun w call after => after = w.next deviceKey call) start taken final →
        Throughout (Faithful deviceKey) start taken := by
  intro always
  have ok : ((run (forgetting [0x61])).map fun r => decide (r.2.book.last = none ∧
      r.2.manager.last?.map (fun i => (r.2.manager.profiles i).name) = some [0x62])) =
        some true := by decide +kernel
  obtain ⟨r, recorded, checked⟩ := Option.map_eq_some_iff.mp ok
  obtain ⟨forgotten, marked⟩ := of_decide_eq_true checked
  have trace := trace_of_run recorded
  have faithful := trace.final_of_throughout (always _ _ _ _ initial_blank trace)
  have same := faithful.last
  rw [forgotten, marked] at same
  cases same

end World

end DBSos.Netman
