import DBSos.Nvme.Waiting
import Mathlib.Data.List.GetD

/-!
# Runs of NVMe commands

The I/O queue stays in step as long as every transfer is completed in time, and an admin command
that finds its queue in step and in the first pass is judged rightly. Both are wanted: a
completion that comes late is left at the head for the next command, and the pages of its command
have gone back by then; `admin_wait` takes the entries of its first pass for new ones in the
second.
-/

namespace DBSos.Nvme

open DBSos.Memory

/-- What holds of both queues whatever the controller does. -/
structure Base (s : State) : Prop where
  addressed : ∀ id, (s.queue id).sq ≠ 0 → (s.queue id).cq ≠ 0
  tidy : ∀ id, (s.queue id).ring.Tidy qd
  open_lt : ∀ id, ∀ c ∈ (s.queue id).outstanding, c.ticket < s.issued
  posted_lt : ∀ done ∈ s.posted, done.1 < s.issued

/-- The invariant of careful runs. -/
structure Inv (s : State) : Prop extends Base s where
  io : InStep (s.queue .io)

section Steps

variable {id : QueueId} {c : Command} {s s' sent : State} {polls : Polls}

theorem Base.acts (base : Base s) (acts : Acts s s') : Base s' where
  addressed id := by
    rw [(acts.addresses id).1, (acts.addresses id).2]
    exact base.addressed id
  tidy := acts.tidy base.tidy
  open_lt id c member := acts.issued ▸ base.open_lt id c (acts.remaining id c member)
  posted_lt done member := by
    rw [acts.issued]
    rcases acts.answered done member with before | ⟨id, c, opened, ticket⟩
    · exact base.posted_lt done before
    · exact ticket ▸ base.open_lt id c opened

theorem Inv.acts (inv : Inv s) (acts : Acts s s') : Inv s' := by
  refine ⟨inv.toBase.acts acts, ?_⟩
  rw [acts.idle .io inv.io.idle]
  exact inv.io

/-- Only the memory, the ids or the flag of readiness differ. -/
theorem Base.congr (base : Base s) (queue : s'.queue = s.queue) (issued : s'.issued = s.issued)
    (posted : s'.posted = s.posted) : Base s' := by
  refine ⟨?_, ?_, ?_, ?_⟩
  · rw [queue]
    exact base.addressed
  · rw [queue]
    exact base.tidy
  · rw [queue, issued]
    exact base.open_lt
  · rw [posted, issued]
    exact base.posted_lt

theorem Inv.congr (inv : Inv s) (queue : s'.queue = s.queue) (issued : s'.issued = s.issued)
    (posted : s'.posted = s.posted) : Inv s' :=
  ⟨inv.toBase.congr queue issued posted, by rw [queue]; exact inv.io⟩

/-- What submitting a command does. -/
structure Submitted (id : QueueId) (c : Command) (s sent : State) : Prop where
  here : (sent.queue id).cqh = (s.queue id).cqh ∧ (sent.queue id).phase = (s.queue id).phase ∧
    (sent.queue id).cq = (s.queue id).cq ∧
    (sent.queue id).outstanding = (s.queue id).outstanding ++ [c]
  address : (s.queue id).sq ≠ 0 ∧ (sent.queue id).sq = (s.queue id).sq
  ring : (sent.queue id).ring = (s.queue id).ring
  away : ∀ other, other ≠ id → sent.queue other = s.queue other
  issued : sent.issued = s.issued + 1
  posted : sent.posted = s.posted
  memory : sent.memory = s.memory

theorem send_some (submitted : send id c s = some sent) : Submitted id c s sent := by
  unfold send at submitted
  dsimp only at submitted
  split_ifs at submitted with absent
  cases submitted
  refine ⟨?_, ⟨absent, ?_⟩, ?_, fun other away => ?_, rfl, rfl, rfl⟩
  · simp only [Function.update_self, and_self]
  · simp only [Function.update_self]
  · simp only [Function.update_self]
    rfl
  · exact Function.update_of_ne away ..

theorem Base.submitted (base : Base s) (ticket : c.ticket = s.issued)
    (submitted : Submitted id c s sent) : Base sent where
  addressed other := by
    by_cases here : other = id
    · subst here
      rw [submitted.address.2, submitted.here.2.2.1]
      exact base.addressed other
    · rw [submitted.away other here]
      exact base.addressed other
  tidy other := by
    by_cases here : other = id
    · subst here
      rw [submitted.ring]
      exact base.tidy other
    · rw [submitted.away other here]
      exact base.tidy other
  open_lt other d member := by
    rw [submitted.issued]
    by_cases here : other = id
    · subst here
      rw [submitted.here.2.2.2] at member
      rcases List.mem_append.mp member with before | new
      · exact Nat.lt_succ_of_lt (base.open_lt other d before)
      · rw [List.mem_singleton.mp new, ticket]
        exact Nat.lt_succ_self _
    · rw [submitted.away other here] at member
      exact Nat.lt_succ_of_lt (base.open_lt other d member)
  posted_lt done member := by
    rw [submitted.issued]
    rw [submitted.posted] at member
    exact Nat.lt_succ_of_lt (base.posted_lt done member)

/-- A command sent to a queue in step is the only open one there. -/
theorem Base.opened (base : Base s) (ticket : c.ticket = s.issued) (inStep : InStep (s.queue id))
    (submitted : Submitted id c s sent) : Open id c sent where
  only := by rw [submitted.here.2.2.2, inStep.idle, List.nil_append]
  head := by
    have tail : (sent.queue id).cqTail = (s.queue id).cqTail := congrArg (·.tail) submitted.ring
    rw [submitted.here.1, tail, inStep.head]
  phase := by
    have phase : (sent.queue id).cqPhase = (s.queue id).cqPhase :=
      congrArg (·.phase) submitted.ring
    rw [submitted.here.2.1, phase, inStep.phase]
  tidy := (base.submitted ticket submitted).tidy
  unposted done member := by
    rw [submitted.posted] at member
    exact ticket ▸ Nat.ne_of_lt (base.posted_lt done member)
  others other away d member := by
    rw [submitted.away other away] at member
    exact ticket ▸ Nat.ne_of_lt (base.open_lt other d member)

theorem Base.take (base : Base s) :
    Base { s with queue := Function.update s.queue id (s.queue id).take } := by
  refine ⟨fun other => ?_, fun other => ?_, fun other d => ?_, base.posted_lt⟩
  all_goals
    by_cases here : other = id
    · subst here
      simp only [Function.update_self]
      first
      | exact base.addressed other
      | exact base.tidy other
      | exact base.open_lt other d
    · simp only [Function.update_of_ne here]
      first
      | exact base.addressed other
      | exact base.tidy other
      | exact base.open_lt other d

/-! ## The end of a wait -/

/-- How a wait for the only open command of a queue ends. -/
structure Waited (id : QueueId) (c : Command) (polls : Polls) (sent : State)
    (result : Bool × State) : Prop where
  own : result.1 = true → (c.ticket, 0) ∈ result.2.posted
  completes : PostedWithin polls sent c.ticket 0 → result.1 = true
  inStep : ∀ status, PostedWithin polls sent c.ticket status → InStep (result.2.queue id)
  base : Base sent → Base result.2
  away : ∀ other, other ≠ id →
    ∃ s, Acts sent s ∧ result.2.queue other = s.queue other
  late : (∀ status, ¬ PostedWithin polls sent c.ticket status) →
    c ∈ (result.2.queue id).outstanding

theorem waited_of_open {fresh : Nat → Nat → Bool} (opened : Open id c sent)
    (exact' : ∀ bit ≤ 1, fresh bit (sent.queue id).phase = true ↔ bit = (sent.queue id).phase) :
    Waited id c polls sent (waitFor id fresh c.cid polls 0 pollLimit sent) := by
  rcases waitFor_open polls 0 pollLimit opened exact' with
    ⟨opened, result⟩ | ⟨k, bound, status, closed, result⟩
  · have unposted (status) (within : PostedWithin polls sent c.ticket status) : False := by
      obtain ⟨m, bound, posted⟩ := within
      obtain ⟨rest, sum⟩ := Nat.exists_eq_add_of_le bound
      rw [sum, drive_add] at opened
      exact opened.unposted _ ((drive_acts _ rest _).grows _ posted) rfl
    rw [result]
    exact ⟨nofun, fun within => (unposted 0 within).elim,
      fun status within => (unposted status within).elim,
      fun base => base.acts (drive_acts 0 pollLimit sent),
      fun other _ => ⟨drive polls 0 pollLimit sent, drive_acts 0 pollLimit sent, rfl⟩,
      fun _ => opened.only ▸ List.mem_singleton_self c⟩
  · have same (other) (within : PostedWithin polls sent c.ticket other) : other = status := by
      obtain ⟨m, -, posted⟩ := within
      rcases Nat.le_total m k with before | after
      · obtain ⟨rest, sum⟩ := Nat.exists_eq_add_of_le before
        rw [sum, drive_add] at closed
        exact closed.unique other ((drive_acts _ rest _).grows _ posted)
      · obtain ⟨rest, sum⟩ := Nat.exists_eq_add_of_le after
        rw [sum, drive_add] at posted
        exact (closed.acts (drive_acts _ rest _)).unique other posted
    rw [result]
    refine ⟨fun success => ?_, fun within => ?_, fun other _ => ?_, fun base => ?_,
      fun other away => ⟨drive polls 0 k sent, drive_acts 0 k sent,
        Function.update_of_ne away ..⟩,
      fun late => absurd ⟨k, bound, closed.posted⟩ (late status)⟩
    · exact of_decide_eq_true success ▸ closed.posted
    · exact decide_eq_true (same 0 within).symm
    · simp only [Function.update_self]
      exact ⟨closed.none, closed.tail.symm, closed.phase.symm⟩
    · exact (base.acts (drive_acts 0 k sent)).take

end Steps

section Calls

variable {s : State} {polls : Polls}

/-- The second clause of an address says that the wait does not give up at once. -/
theorem adminWait_open (polls : Polls) {c : Command} {sent : State} (opened : Open .admin c sent)
    (addressed : (sent.queue .admin).cq ≠ 0) (first : (sent.queue .admin).phase = 1) :
    Waited .admin c polls sent (adminWait c.cid polls sent) := by
  unfold adminWait
  rw [if_neg addressed]
  refine waited_of_open opened fun bit bound => ?_
  rw [first, adminFresh, decide_eq_true_eq]
  omega

theorem ioWait_open (polls : Polls) {c : Command} {sent : State} (opened : Open .io c sent)
    (addressed : (sent.queue .io).cq ≠ 0) :
    Waited .io c polls sent (ioWait c.cid polls sent) := by
  unfold ioWait
  rw [if_neg addressed]
  refine waited_of_open opened fun bit _ => ?_
  rw [ioFresh, decide_eq_true_eq]

theorem submitted_addressed {id : QueueId} {c : Command} {sent : State} (base : Base s)
    (submitted : Submitted id c s sent) : (sent.queue id).cq ≠ 0 := by
  rw [submitted.here.2.2.1]
  exact base.addressed id submitted.address.1

/-- An admin command that finds its queue in step and in the first pass. -/
theorem submitAdmin_sound {opcode : UInt8} {nsid : UInt32} {prp1 prp2 : Nat}
    {cdw10 cdw11 : UInt32} (inv : Inv s) (inStep : InStep (s.queue .admin))
    (first : (s.queue .admin).phase = 1) :
    Sound s polls (submitAdmin opcode nsid prp1 prp2 cdw10 cdw11 polls s) ∧
      Inv (submitAdmin opcode nsid prp1 prp2 cdw10 cdw11 polls s).state := by
  have counted : Inv { s with cid := s.cid + 1 } := inv.congr rfl rfl rfl
  unfold submitAdmin
  dsimp only
  cases result : send .admin _ _ with
  | none => exact ⟨⟨nofun, nofun, nofun⟩, counted⟩
  | some sent =>
    have submitted := send_some result
    have opened := counted.toBase.opened rfl inStep submitted
    have waited := adminWait_open polls opened
      (submitted_addressed counted.toBase submitted) (submitted.here.2.1.trans first)
    refine ⟨⟨fun success => ⟨nofun, waited.own success⟩, ?_, nofun⟩,
      waited.base (counted.toBase.submitted rfl submitted), ?_⟩
    · intro state same within
      cases same
      exact waited.completes within
    · obtain ⟨after, acts, queue⟩ := waited.away .io nofun
      have before : sent.queue .io = s.queue .io := submitted.away .io nofun
      rw [queue, acts.idle .io (by rw [before, inv.io.idle]), before]
      exact inv.io

/-! ## Pages -/

/-- The page that `palloc` finds was in no use. -/
theorem not_hits_palloc {a : PhysAllocator} {phys : Nat} (taken : a.palloc.1 ≠ 0)
    (allocated : Allocated a phys) : ¬ a.Hits a.palloc.1 phys := by
  rintro ⟨-, same⟩
  rcases a.palloc_cases with failed | ⟨i, hint, clear, -, -, -, result⟩
  · exact taken (by rw [failed])
  · rw [result, a.pageOf_pageAddr] at same
    exact clear (same ▸ allocated.used)

/-- A transfer only takes pages that were in no use, and what was in use stays so. -/
structure Spares (a : PhysAllocator) (addrs : List Nat) (b : PhysAllocator) : Prop where
  keeps : PhysAllocator.Keeps a b
  spares : ∀ freed ∈ addrs, ∀ phys, Allocated a phys → ¬ a.Hits freed phys

theorem Spares.palloc {a b : PhysAllocator} {addrs : List Nat} (spares : Spares a addrs b)
    (taken : b.palloc.1 ≠ 0) : Spares a (addrs ++ [b.palloc.1]) b.palloc.2 := by
  refine ⟨spares.keeps.trans b.palloc_keeps, fun freed member phys allocated => ?_⟩
  rcases List.mem_append.mp member with before | last
  · exact spares.spares freed before phys allocated
  · rw [List.mem_singleton.mp last, ← spares.keeps.toSameRegion.hits_iff]
    exact not_hits_palloc taken (spares.keeps.kept phys allocated)

theorem allocAddrs_spares {a b : PhysAllocator} {addrs : List Nat} {n : Nat}
    (spares : Spares a addrs b) :
    (∀ freed ∈ (allocAddrs n addrs b).2.1, ∀ phys, Allocated a phys → ¬ a.Hits freed phys) ∧
      ((allocAddrs n addrs b).1 = true →
        Spares a (allocAddrs n addrs b).2.1 (allocAddrs n addrs b).2.2) := by
  induction n generalizing addrs b with
  | zero => exact ⟨spares.spares, fun _ => spares⟩
  | succ n ih =>
    unfold allocAddrs
    dsimp only
    split_ifs with missing
    · exact ⟨spares.spares, nofun⟩
    · exact ih (spares.palloc missing)

/-- The loop finds as many pages as it is asked for, none of them 0. -/
theorem allocAddrs_found {b : PhysAllocator} {addrs : List Nat} {n : Nat} (start : Nat)
    (complete : (allocAddrs n addrs b).1 = true)
    (found : ∀ page ∈ addrs, page ≠ 0 ∧ start ≤ page) (region : b.physStart = start) :
    (allocAddrs n addrs b).2.1.length = addrs.length + n ∧
      ∀ page ∈ (allocAddrs n addrs b).2.1, page ≠ 0 ∧ start ≤ page := by
  induction n generalizing addrs b with
  | zero => exact ⟨rfl, found⟩
  | succ n ih =>
    unfold allocAddrs at complete ⊢
    dsimp only at complete ⊢
    split_ifs at complete ⊢ with missing
    have above : start ≤ b.palloc.1 := by
      rcases b.palloc_cases with failed | ⟨i, hint, -, -, -, -, result⟩
      · exact absurd (by rw [failed]) missing
      · rw [result, ← region]
        exact Nat.le_add_right ..
    have extended : ∀ page ∈ addrs ++ [b.palloc.1], page ≠ 0 ∧ start ≤ page := by
      intro page member
      rcases List.mem_append.mp member with before | last
      · exact found page before
      · exact List.mem_singleton.mp last ▸ ⟨missing, above⟩
    have later := ih complete extended (b.palloc_sameRegion.start.trans region)
    rw [List.length_append, List.length_singleton] at later
    exact ⟨by omega, later.2⟩

/-- What a transfer gives back was in no use before it. -/
theorem allocList_spares {a b : PhysAllocator} {addrs : List Nat} {pages : Nat}
    (spares : Spares a addrs b) :
    ∀ freed ∈ givenBack addrs (allocList pages b).1,
      ∀ phys, Allocated a phys → ¬ a.Hits freed phys := by
  unfold givenBack allocList
  split_ifs with few missing missing
  · rw [List.append_nil]
    exact spares.spares
  · exact absurd rfl missing
  · rw [List.append_nil]
    exact spares.spares
  · exact (spares.palloc missing).spares

/-! ## Transfers -/

/-- What `nvme_rw` has done when it submits its command, or has given up before. -/
theorem nvmeRw_cases (opcode : UInt8) (lba : UInt64) (count : UInt16) (polls : Polls)
    (s : State) :
    (∃ freed memory, nvmeRw opcode lba count polls s = ⟨false, none, freed, { s with memory }⟩ ∧
      ∀ one ∈ freed, ∀ phys, Allocated s.memory phys → ¬ s.memory.Hits one phys) ∨
    ∃ cmd freed memory, nvmeRw opcode lba count polls s =
        transfer cmd freed polls { s with cid := s.cid + 1, memory } ∧
      cmd.ticket = s.issued ∧
      (cmd.prp1 ∈ freed ∧ cmd.prp1 ≠ 0 ∧ s.memory.physStart ≤ cmd.prp1) ∧
      ∀ one ∈ freed, ∀ phys, Allocated s.memory phys → ¬ s.memory.Hits one phys := by
  have start : Spares s.memory [] s.memory := ⟨.refl _, nofun⟩
  unfold nvmeRw
  dsimp only
  split_ifs with refused large missing unlisted
  · exact .inl ⟨[], s.memory, rfl, nofun⟩
  · exact .inl ⟨[], s.memory, rfl, nofun⟩
  · exact .inl ⟨_, _, rfl, (allocAddrs_spares start).1⟩
  · exact .inl ⟨_, _, rfl, (allocAddrs_spares start).1⟩
  · have complete := Bool.eq_true_of_not_eq_false missing
    have taken := (allocAddrs_spares start).2 complete
    obtain ⟨length, found⟩ := allocAddrs_found s.memory.physStart complete nofun rfl
    have positive : 0 < count.toNat := by
      rw [Nat.pos_iff_ne_zero]
      exact fun zero => refused (.inr (UInt16.toNat_inj.mp zero))
    have first : (allocAddrs ((count.toNat * 512 + 4095) / 4096) [] s.memory).2.1.getD 0 0 ∈
        (allocAddrs ((count.toNat * 512 + 4095) / 4096) [] s.memory).2.1 := by
      have bound : 0 < (allocAddrs ((count.toNat * 512 + 4095) / 4096) [] s.memory).2.1.length := by
        rw [length, List.length_nil]
        omega
      rw [List.getD_eq_getElem _ _ bound]
      exact List.getElem_mem bound
    exact .inr ⟨_, _, _, rfl, rfl, ⟨List.mem_append_left _ first, found _ first⟩,
      allocList_spares taken⟩

/-- A command that the I/O queue takes up, completed in time or not taken up at all. -/
theorem transfer_sound {cmd : Command} {freed : List Nat} {before : State}
    (queue : before.queue = s.queue) (issued : before.issued = s.issued)
    (posted : before.posted = s.posted) (ticket : cmd.ticket = s.issued) (inv : Inv s)
    (apart : ∀ one ∈ freed, ∀ phys, Allocated s.memory phys → ¬ s.memory.Hits one phys)
    (allocated : ∀ id, ∀ c ∈ (s.queue id).outstanding, ∀ page ∈ c.pages, Allocated s.memory page)
    (timely : ∀ sent, (transfer cmd freed polls before).sent = some sent →
      ∃ status, PostedWithin polls sent s.issued status) :
    Sound s polls (transfer cmd freed polls before) ∧
      Inv (transfer cmd freed polls before).state := by
  have counted : Inv before := inv.congr queue issued posted
  unfold transfer at timely ⊢
  dsimp only at timely ⊢
  cases result : send .io cmd before with
  | none =>
    refine ⟨⟨nofun, nofun, fun one member id c opened page named => ?_⟩, counted.congr rfl rfl rfl⟩
    dsimp only at opened
    rw [queue] at opened
    exact apart one member page (allocated id c opened page named)
  | some sent =>
    simp only [result] at timely
    have submitted := send_some result
    have opened := counted.toBase.opened (ticket.trans issued.symm) counted.io submitted
    have waited := ioWait_open polls opened
      (submitted_addressed counted.toBase submitted)
    rw [← ticket] at timely
    obtain ⟨status, within⟩ := timely sent rfl
    have inStep := waited.inStep status within
    have base := waited.base (counted.toBase.submitted (ticket.trans issued.symm) submitted)
    refine ⟨⟨fun success => ⟨nofun, ticket ▸ waited.own success⟩, ?_, ?_⟩,
      ⟨base.congr rfl rfl rfl, inStep⟩⟩
    · intro state same within
      cases same
      exact waited.completes (ticket ▸ within)
    · intro one member id c still page named
      by_cases here : id = .io
      · subst here
        rw [inStep.idle] at still
        exact absurd still List.not_mem_nil
      · obtain ⟨after, acts, unchanged⟩ := waited.away id here
        have wasOpen : c ∈ (s.queue id).outstanding := by
          dsimp only at still
          rw [unchanged] at still
          have earlier := acts.remaining id c still
          rwa [submitted.away id here, queue] at earlier
        exact apart one member page (allocated id c wasOpen page named)

/-- One careful event. -/
theorem Inv.step {event : Event} (inv : Inv s) (careful : Careful s event) :
    SoundEvent s event ∧ Inv (event.next s) := by
  cases event with
  | submitAdmin opcode nsid prp1 prp2 cdw10 cdw11 polls =>
    have sound : Sound s polls (submitAdmin opcode nsid prp1 prp2 cdw10 cdw11 polls s) ∧
        Inv (submitAdmin opcode nsid prp1 prp2 cdw10 cdw11 polls s).state :=
      submitAdmin_sound inv careful.1 careful.2
    refine ⟨fun o polls called => ?_, sound.2⟩
    cases called
    exact sound.1
  | nvmeRw opcode lba count polls =>
    obtain ⟨timely, allocated⟩ := careful
    have sound : Sound s polls (nvmeRw opcode lba count polls s) ∧
        Inv (nvmeRw opcode lba count polls s).state := by
      rcases nvmeRw_cases opcode lba count polls s with
        ⟨freed, memory, result, apart⟩ | ⟨cmd, freed, memory, result, ticket, -, apart⟩
      · rw [result]
        exact ⟨⟨nofun, nofun, fun one member id c opened page named =>
          apart one member page (allocated id c opened page named)⟩, inv.congr rfl rfl rfl⟩
      · rw [result] at timely ⊢
        exact transfer_sound rfl rfl rfl ticket inv apart allocated timely
    refine ⟨fun o polls called => ?_, sound.2⟩
    cases called
    exact sound.1
  | controller postings => exact ⟨nofun, inv.acts (activity_acts postings s)⟩
  | elsewhere ready memory => exact ⟨nofun, inv.congr rfl rfl rfl⟩

theorem Boot.inv (boot : Boot s) : Inv s where
  addressed id := (boot.fresh id).1
  tidy id := fresh_tidy (boot.fresh id)
  open_lt id c member := by
    obtain ⟨-, -, -, -, -, none, -, -⟩ := boot.fresh id
    rw [none] at member
    exact absurd member List.not_mem_nil
  posted_lt done member := by
    rw [boot.posted] at member
    exact absurd member List.not_mem_nil
  io := by
    obtain ⟨-, -, head, phase, -, none, tail, cqPhase⟩ := boot.fresh .io
    exact ⟨none, head.trans tail.symm, phase.trans cqPhase.symm⟩

end Calls

end DBSos.Nvme
