import DBSos.Nvme.Commands

/-!
# Waiting for a completion

What the controller may do is said once (`Acts`). A command that is alone in a queue in step is
open until the controller completes it and closed from then on; the wait ends at the first poll
that finds it closed.
-/

namespace DBSos.Nvme

open DBSos.Lib

section Entries

variable {cid : UInt16} {phase : Nat} {status : Fin (2 ^ 15)}

theorem phaseBit_le (entry : Nat) : phaseBit entry ≤ 1 := by
  rw [phaseBit, Nat.and_one_is_mod]
  omega

theorem phaseBit_completion (binary : phase ≤ 1) :
    phaseBit (completion cid phase status) = phase := by
  have bound := cid.toNat_lt
  rw [phaseBit, Nat.and_one_is_mod, Nat.shiftRight_eq_div_pow, completion]
  omega

theorem entryStatus_completion (binary : phase ≤ 1) :
    entryStatus (completion cid phase status) = status.val := by
  have bound := cid.toNat_lt
  rw [entryStatus, Nat.shiftRight_eq_div_pow, completion]
  omega

theorem entryCid_completion : entryCid (completion cid phase status) = cid := by
  have bound := cid.toNat_lt
  have low : completion cid phase status &&& 0xFFFF = cid.toNat := by
    have mask : 0xFFFF = 2 ^ 16 - 1 := rfl
    rw [mask, Nat.and_two_pow_sub_one_eq_mod, completion]
    omega
  rw [entryCid, low]
  exact UInt16.ofNat_toNat

end Entries

section Rings

variable {q : Queue} {index : Nat} {c : Command} {status : Fin (2 ^ 15)}

/-- A completion is one step of the producer. -/
theorem ring_answer (binary : q.cqPhase ≤ 1) :
    (q.answer index c status).ring = q.ring.push qd := by
  ext i
  · simp only [Queue.ring, Queue.answer, PhaseRing.push]
    by_cases here : i = q.cqTail
    · rw [here, Function.update_self, Function.update_self, phaseBit_completion binary]
    · rw [Function.update_of_ne here, Function.update_of_ne here]
  · rfl
  · rfl

theorem Queue.tidy_answer (tidy : q.ring.Tidy qd) : (q.answer index c status).ring.Tidy qd := by
  rw [ring_answer tidy.binary]
  exact tidy.push

theorem fresh_tidy (fresh : q.Fresh) : q.ring.Tidy qd := by
  obtain ⟨-, -, -, -, entries, -, tail, phase⟩ := fresh
  have zeros : q.ring = ⟨fun _ => 0, 0, 1⟩ := by
    rw [Queue.ring, entries, tail, phase]
    simp only [phaseBit, Nat.zero_shiftRight, Nat.zero_and]
  rw [zeros]
  exact PhaseRing.tidy_zeros (by decide)

end Rings

/-- What any activity of the controller keeps. -/
structure Acts (s s' : State) : Prop where
  addresses : ∀ id, (s'.queue id).sq = (s.queue id).sq ∧ (s'.queue id).cq = (s.queue id).cq
  driver : ∀ id, (s'.queue id).cqh = (s.queue id).cqh ∧ (s'.queue id).phase = (s.queue id).phase
  memory : s'.memory = s.memory
  issued : s'.issued = s.issued
  tidy : (∀ id, (s.queue id).ring.Tidy qd) → ∀ id, (s'.queue id).ring.Tidy qd
  idle : ∀ id, (s.queue id).outstanding = [] → s'.queue id = s.queue id
  remaining : ∀ id, ∀ c ∈ (s'.queue id).outstanding, c ∈ (s.queue id).outstanding
  grows : ∀ done ∈ s.posted, done ∈ s'.posted
  answered : ∀ done ∈ s'.posted, done ∈ s.posted ∨
    ∃ id, ∃ c ∈ (s.queue id).outstanding, c.ticket = done.1

section Activity

variable {s s' s'' : State} {p : Posting} {polls : Polls}

theorem Acts.refl (s : State) : Acts s s where
  addresses _ := ⟨rfl, rfl⟩
  driver _ := ⟨rfl, rfl⟩
  memory := rfl
  issued := rfl
  tidy := id
  idle _ _ := rfl
  remaining _ _ := id
  grows _ := id
  answered _ := .inl

theorem Acts.trans (first : Acts s s') (second : Acts s' s'') : Acts s s'' where
  addresses id :=
    ⟨(second.addresses id).1.trans (first.addresses id).1,
      (second.addresses id).2.trans (first.addresses id).2⟩
  driver id :=
    ⟨(second.driver id).1.trans (first.driver id).1,
      (second.driver id).2.trans (first.driver id).2⟩
  memory := second.memory.trans first.memory
  issued := second.issued.trans first.issued
  tidy := second.tidy ∘ first.tidy
  idle id none := by
    have same := first.idle id none
    rw [second.idle id (by rw [same, none]), same]
  remaining id c := first.remaining id c ∘ second.remaining id c
  grows done := second.grows done ∘ first.grows done
  answered done member := by
    rcases second.answered done member with before | ⟨id, c, open', ticket⟩
    · exact first.answered done before
    · exact .inr ⟨id, c, first.remaining id c open', ticket⟩

/-- A posting completes an open command or does nothing. -/
theorem post_cases (s : State) (p : Posting) :
    post s p = s ∨ ∃ c, (s.queue p.id).outstanding[p.index]? = some c ∧
      post s p = { s with
        queue := Function.update s.queue p.id ((s.queue p.id).answer p.index c p.status)
        posted := (c.ticket, p.status) :: s.posted } := by
  unfold post
  cases found : (s.queue p.id).outstanding[p.index]? with
  | none => exact .inl rfl
  | some c => exact .inr ⟨c, rfl, rfl⟩

theorem post_acts (s : State) (p : Posting) : Acts s (post s p) := by
  rcases post_cases s p with same | ⟨c, found, result⟩
  · rw [same]
    exact .refl s
  · have member := List.mem_of_getElem? found
    have here : (post s p).queue p.id = (s.queue p.id).answer p.index c p.status := by
      rw [result]
      exact Function.update_self ..
    have away (id : QueueId) (other : id ≠ p.id) : (post s p).queue id = s.queue id := by
      rw [result]
      exact Function.update_of_ne other ..
    constructor
    case memory => rw [result]
    case issued => rw [result]
    case grows =>
      rw [result]
      exact fun done => List.mem_cons_of_mem _
    case answered =>
      rw [result]
      intro done after
      rcases List.mem_cons.mp after with rfl | before
      · exact .inr ⟨p.id, c, member, rfl⟩
      · exact .inl before
    case idle =>
      intro id none
      refine away id fun same => ?_
      rw [← same, none] at member
      exact absurd member List.not_mem_nil
    case tidy =>
      intro tidy id
      by_cases same : id = p.id
      · rw [same, here]
        exact Queue.tidy_answer (tidy p.id)
      · rw [away id same]
        exact tidy id
    case remaining =>
      intro id d
      by_cases same : id = p.id
      · rw [same, here]
        exact List.mem_of_mem_eraseIdx
      · rw [away id same]
        exact fun before => before
    all_goals
      intro id
      by_cases same : id = p.id
      · rw [same, here]
        exact ⟨rfl, rfl⟩
      · rw [away id same]
        exact ⟨rfl, rfl⟩

theorem activity_acts (postings : List Posting) (s : State) : Acts s (activity postings s) := by
  induction postings generalizing s with
  | nil => exact .refl s
  | cons first rest ih =>
    exact (post_acts s first).trans (ih (post s first))

theorem drive_acts (i n : Nat) (s : State) : Acts s (drive polls i n s) := by
  induction n generalizing i s with
  | zero => exact .refl s
  | succ n ih =>
    exact (activity_acts (polls i) s).trans (ih (i + 1) _)

theorem drive_add (i m n : Nat) (s : State) :
    drive polls i (m + n) s = drive polls (i + m) n (drive polls i m s) := by
  induction m generalizing i s with
  | zero => rw [Nat.zero_add, Nat.add_zero, drive]
  | succ m ih =>
    rw [Nat.add_right_comm, drive, ih, drive, Nat.add_right_comm i 1 m,
      Nat.add_assoc i m 1]

end Activity

/-! ## One command -/

/-- The command is the only one open in a queue that is otherwise in step. -/
structure Open (id : QueueId) (c : Command) (s : State) : Prop where
  only : (s.queue id).outstanding = [c]
  head : (s.queue id).cqh = (s.queue id).cqTail
  phase : (s.queue id).phase = (s.queue id).cqPhase
  tidy : ∀ id, (s.queue id).ring.Tidy qd
  unposted : ∀ done ∈ s.posted, done.1 ≠ c.ticket
  others : ∀ other, other ≠ id → ∀ d ∈ (s.queue other).outstanding, d.ticket ≠ c.ticket

/-- Its completion is at the driver's head, and the only one. -/
structure Closed (id : QueueId) (c : Command) (status : Fin (2 ^ 15)) (s : State) : Prop where
  none : (s.queue id).outstanding = []
  entry : (s.queue id).entries (s.queue id).cqh =
    completion c.cid (s.queue id).phase status
  tail : (s.queue id).cqTail = ((s.queue id).cqh + 1) % qd
  phase : (s.queue id).cqPhase =
    PhaseRing.nextPhase (((s.queue id).cqh + 1) % qd) (s.queue id).phase
  binary : (s.queue id).phase ≤ 1
  posted : (c.ticket, status) ∈ s.posted
  unique : ∀ other, (c.ticket, other) ∈ s.posted → other = status
  others : ∀ other, other ≠ id → ∀ d ∈ (s.queue other).outstanding, d.ticket ≠ c.ticket

section Completion

variable {id : QueueId} {c : Command} {status : Fin (2 ^ 15)} {s : State} {polls : Polls}

/-- A closed command stays closed, with the same status. -/
theorem Closed.acts {s' : State} (closed : Closed id c status s) (acts : Acts s s') :
    Closed id c status s' := by
  have same := acts.idle id closed.none
  refine ⟨?_, ?_, ?_, ?_, ?_, acts.grows _ closed.posted, ?_, ?_⟩
  · rw [same, closed.none]
  · rw [same, closed.entry]
  · rw [same, closed.tail]
  · rw [same, closed.phase]
  · rw [same]
    exact closed.binary
  · intro other member
    rcases acts.answered _ member with before | ⟨i, d, open', ticket⟩
    · exact closed.unique other before
    · by_cases here : i = id
      · rw [here, closed.none] at open'
        exact absurd open' List.not_mem_nil
      · exact absurd ticket (closed.others i here d open')
  · exact fun other away d member => closed.others other away d (acts.remaining other d member)

/-- While the command is open there is no new entry at the head. -/
theorem Open.blank (opened : Open id c s) :
    phaseBit ((s.queue id).entries (s.queue id).cqh) ≠ (s.queue id).phase := by
  rw [opened.head, opened.phase]
  exact (opened.tidy id).bit_tail

/-- The controller leaves an open command open or closes it. -/
theorem Open.post (opened : Open id c s) (p : Posting) :
    Open id c (post s p) ∨ ∃ status, Closed id c status (post s p) := by
  have acts := post_acts s p
  rcases post_cases s p with same | ⟨d, found, result⟩
  · rw [same]
    exact .inl opened
  · by_cases here : p.id = id
    · subst here
      have first : p.index = 0 ∧ d = c := by
        rw [opened.only] at found
        cases index : p.index with
        | zero =>
          rw [index] at found
          exact ⟨rfl, (Option.some.inj found).symm⟩
        | succ i =>
          rw [index] at found
          exact absurd found nofun
      obtain ⟨index, rfl⟩ := first
      have queue : (Nvme.post s p).queue p.id = (s.queue p.id).answer p.index d p.status := by
        rw [result]
        exact Function.update_self ..
      refine .inr ⟨p.status, ?_, ?_, ?_, ?_, ?_, ?_, ?_, ?_⟩
      · rw [queue, index]
        simp [Queue.answer, opened.only]
      · rw [queue]
        simp only [Queue.answer, opened.head, opened.phase, Function.update_self]
      · rw [queue]
        simp only [Queue.answer, opened.head]
      · rw [queue]
        simp only [Queue.answer, opened.head, opened.phase]
      · rw [queue]
        exact opened.phase ▸ (opened.tidy p.id).binary
      · rw [result]
        exact List.mem_cons_self
      · rw [result]
        intro other member
        rcases List.mem_cons.mp member with same | before
        · exact (Prod.mk.inj same).2
        · exact absurd rfl (opened.unposted _ before)
      · exact fun other away e member =>
          opened.others other away e (acts.remaining other e member)
    · have queue : (Nvme.post s p).queue id = s.queue id := by
        rw [result]
        exact Function.update_of_ne (Ne.symm here) ..
      refine .inl ⟨?_, ?_, ?_, acts.tidy opened.tidy, ?_, ?_⟩
      · rw [queue, opened.only]
      · rw [queue, opened.head]
      · rw [queue, opened.phase]
      · rw [result]
        intro done member
        rcases List.mem_cons.mp member with rfl | before
        · exact opened.others p.id here d (List.mem_of_getElem? found)
        · exact opened.unposted done before
      · exact fun other away e member =>
          opened.others other away e (acts.remaining other e member)

theorem Open.activity (opened : Open id c s) (postings : List Posting) :
    Open id c (activity postings s) ∨ ∃ status, Closed id c status (activity postings s) := by
  induction postings generalizing s with
  | nil => exact .inl opened
  | cons first rest ih =>
    rcases opened.post first with opened | ⟨status, closed⟩
    · exact ih opened
    · exact .inr ⟨status, closed.acts (activity_acts rest _)⟩

/-- The wait takes the first completion it sees, which is that of the command, or sees none. -/
theorem waitFor_open {fresh : Nat → Nat → Bool} (polls : Polls) (i n : Nat) (opened : Open id c s)
    (exact' : ∀ bit ≤ 1, fresh bit (s.queue id).phase = true ↔ bit = (s.queue id).phase) :
    (Open id c (drive polls i n s) ∧
      waitFor id fresh c.cid polls i n s = (false, drive polls i n s)) ∨
    ∃ k ≤ n, ∃ status, Closed id c status (drive polls i k s) ∧
      waitFor id fresh c.cid polls i n s =
        (decide (status = 0),
          { drive polls i k s with
            queue := Function.update (drive polls i k s).queue id
              ((drive polls i k s).queue id).take }) := by
  induction n generalizing i s with
  | zero => exact .inl ⟨opened, rfl⟩
  | succ n ih =>
    have driver := ((activity_acts (polls i) s).driver id).2
    rcases opened.activity (polls i) with opened | ⟨status, closed⟩
    · have unseen : ¬fresh (phaseBit (((Nvme.activity (polls i) s).queue id).entries
          ((Nvme.activity (polls i) s).queue id).cqh))
          ((Nvme.activity (polls i) s).queue id).phase = true := by
        rw [driver, exact' _ (phaseBit_le _), ← driver]
        exact opened.blank
      have later := ih (i + 1) opened (by rw [driver]; exact exact')
      rw [waitFor]
      dsimp only
      rw [if_neg unseen]
      rcases later with ⟨opened, result⟩ | ⟨k, bound, status, closed, result⟩
      · exact .inl ⟨opened, result⟩
      · exact .inr ⟨k + 1, Nat.succ_le_succ bound, status, closed, result⟩
    · have seen : fresh (phaseBit (((Nvme.activity (polls i) s).queue id).entries
          ((Nvme.activity (polls i) s).queue id).cqh))
          ((Nvme.activity (polls i) s).queue id).phase = true := by
        have binary := closed.binary
        rw [closed.entry, phaseBit_completion binary, driver]
        rw [driver] at binary
        exact (exact' _ binary).mpr rfl
      refine .inr ⟨1, Nat.succ_le_succ (Nat.zero_le n), status, closed, ?_⟩
      rw [waitFor]
      dsimp only
      rw [if_pos seen, closed.entry, entryStatus_completion closed.binary, entryCid_completion]
      simp only [drive, and_true, Fin.val_eq_zero_iff]

end Completion

end DBSos.Nvme
