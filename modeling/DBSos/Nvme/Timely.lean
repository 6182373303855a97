import DBSos.Nvme.Runs

/-!
# Commands that are completed in time

Careful runs judge every call rightly. Neither half of the condition can be spared: a transfer
that is not completed in time has given back its pages, and after one pass of the admin queue a
completion in time is not believed.
-/

namespace DBSos.Nvme

open DBSos.Lib

section Late

variable {s sent : State} {polls : Polls}

/-- A transfer whose completion does not come in time gives back a page that it names. -/
theorem nvmeRw_late {opcode : UInt8} {lba : UInt64} {count : UInt16} (inv : Inv s)
    (taken : (nvmeRw opcode lba count polls s).sent = some sent)
    (late : ∀ status, ¬ PostedWithin polls sent s.issued status) :
    ¬ Sound s polls (nvmeRw opcode lba count polls s) := by
  intro sound
  rcases nvmeRw_cases opcode lba count polls s with
    ⟨freed, memory, result, -⟩ | ⟨cmd, freed, memory, result, ticket, ⟨freely, named, above⟩, -⟩
  · rw [result] at taken
    exact absurd taken nofun
  · rw [result] at taken sound
    have counted : Inv { s with cid := s.cid + 1, memory } := inv.congr rfl rfl rfl
    unfold transfer at taken sound
    dsimp only at taken sound
    cases accepted : send .io cmd { s with cid := s.cid + 1, memory } with
    | none =>
      simp only [accepted] at taken
      exact absurd taken nofun
    | some state =>
      simp only [accepted] at taken sound
      cases taken
      have submitted := send_some accepted
      have opened := counted.toBase.opened ticket counted.io submitted
      have waited := ioWait_open polls opened
        (submitted_addressed counted.toBase submitted)
      have still := waited.late (ticket ▸ late)
      have page : cmd.prp1 ∈ cmd.pages :=
        List.mem_filter.mpr ⟨List.mem_cons_self, decide_eq_true named⟩
      exact sound.keeps cmd.prp1 freely .io cmd still cmd.prp1 page ⟨above, rfl⟩

/-- A completion of the second pass is never seen by the test of the admin queue. -/
theorem waitFor_unseen {c : Command} {status : Fin (2 ^ 15)} {i n : Nat}
    (closed : Closed .admin c status s) (second : (s.queue .admin).phase = 0) :
    (waitFor .admin adminFresh c.cid polls i n s).1 = false := by
  induction n generalizing i s with
  | zero => rfl
  | succ n ih =>
    have acts := activity_acts (polls i) s
    have later := closed.acts acts
    have phase : ((activity (polls i) s).queue .admin).phase = 0 :=
      (acts.driver .admin).2.trans second
    rw [waitFor, later.entry, phaseBit_completion later.binary, phase, if_neg (by decide)]
    exact ih later phase

/-- In the second pass of the admin queue a completion in time is not believed, or another one
is taken for it. -/
theorem submitAdmin_second {opcode : UInt8} {nsid : UInt32} {prp1 prp2 : Nat}
    {cdw10 cdw11 : UInt32} (inv : Inv s) (inStep : InStep (s.queue .admin))
    (second : (s.queue .admin).phase = 0)
    (taken : (submitAdmin opcode nsid prp1 prp2 cdw10 cdw11 polls s).sent = some sent)
    (timely : PostedWithin polls sent s.issued 0) :
    ¬ Sound s polls (submitAdmin opcode nsid prp1 prp2 cdw10 cdw11 polls s) := by
  intro sound
  have success := sound.completes sent taken timely
  have own := (sound.own success).2
  have counted : Inv { s with cid := s.cid + 1 } := inv.congr rfl rfl rfl
  unfold submitAdmin at taken success own
  dsimp only at taken success own
  cases accepted : send .admin _ _ with
  | none =>
    rw [accepted] at taken
    cases taken
  | some state =>
    simp only [accepted] at taken success own
    cases taken
    have submitted := send_some accepted
    have opened := counted.toBase.opened rfl inStep submitted
    have phase : (sent.queue .admin).phase = 0 := submitted.here.2.1.trans second
    have addressed := submitted_addressed counted.toBase submitted
    obtain ⟨last, limit⟩ : ∃ last, pollLimit = last + 1 := ⟨999999, by unfold pollLimit; rfl⟩
    unfold adminWait at success own
    rw [if_neg addressed, limit] at success own
    rcases opened.activity (polls 0) with still | ⟨status, closed⟩
    · have stale : phaseBit (((activity (polls 0) sent).queue .admin).entries
          ((activity (polls 0) sent).queue .admin).cqh) ≠ 0 := by
        have blank := still.blank
        rwa [((activity_acts (polls 0) sent).driver .admin).2, phase] at blank
      rw [waitFor, if_pos (show adminFresh _ _ = true from decide_eq_true stale)] at own
      exact still.unposted _ own rfl
    · have driver := ((activity_acts (polls 0) sent).driver .admin).2
      rw [waitFor, closed.entry, phaseBit_completion closed.binary, driver, phase,
        if_neg (by decide), waitFor_unseen closed (driver.trans phase)] at success
      cases success

end Late

section Judged

variable {s final : State} {taken : List (Transition State Event)}

theorem Inv.next {before after : State} {event : Event} (inv : Inv before)
    (careful : Careful before event) (step : Step before event after) : Inv after := by
  cases step
  exact (inv.step careful).2

/-- A careful run keeps the invariant. -/
theorem careful_inv (boot : Boot s) (trace : Trace Step s taken final)
    (careful : Guarded Careful taken) : Inv final :=
  Trace.final_of_guarded Inv boot.inv (fun _ _ _ inv careful step => inv.next careful step)
    trace careful

/-- In a careful run every call is judged rightly. A transfer that is not completed in time is
not, wherever such a run has led, and neither is an admin command completed in time in the second
pass of its queue. -/
theorem careful_sound (boot : Boot s) (trace : Trace Step s taken final)
    (careful : Guarded Careful taken) :
    (∀ transition ∈ taken, SoundEvent transition.before transition.label) ∧
    (∀ opcode lba count polls sent, (nvmeRw opcode lba count polls final).sent = some sent →
      (∀ status, ¬ PostedWithin polls sent final.issued status) →
      ¬ SoundEvent final (.nvmeRw opcode lba count polls)) ∧
    (∀ opcode nsid prp1 prp2 cdw10 cdw11 polls sent, InStep (final.queue .admin) →
      (final.queue .admin).phase = 0 →
      (submitAdmin opcode nsid prp1 prp2 cdw10 cdw11 polls final).sent = some sent →
      PostedWithin polls sent final.issued 0 →
      ¬ SoundEvent final (.submitAdmin opcode nsid prp1 prp2 cdw10 cdw11 polls)) := by
  refine ⟨?_, ?_, ?_⟩
  · induction trace with
    | nil => exact nofun
    | snoc prior valid ih =>
      obtain ⟨earlier, last⟩ := guarded_snoc.mp careful
      intro transition member
      rcases List.mem_append.mp member with before | new
      · exact ih earlier transition before
      · rw [List.mem_singleton.mp new]
        exact ((careful_inv boot prior earlier).step last).1
  · intro opcode lba count polls sent submitted late sound
    exact nvmeRw_late (careful_inv boot trace careful) submitted late (sound _ _ rfl)
  · intro opcode nsid prp1 prp2 cdw10 cdw11 polls sent inStep second submitted timely sound
    exact submitAdmin_second (careful_inv boot trace careful) inStep second submitted timely
      (sound _ _ rfl)

/-- A queue pair as `init` leaves it. -/
def emptyQueue : Queue :=
  { sq := 0x1000, cq := 0x2000, sqt := 0, cqh := 0, phase := 1, entries := fun _ => 0
    outstanding := [], cqTail := 0, cqPhase := 1 }

/-- A disk that is ready, and eight free pages. -/
def idleDisk : State :=
  { ready := true, nsid := 1, cid := 0, queue := fun _ => emptyQueue
    memory :=
      { bitmapAddr := 0x3000, bitmap := fun _ => 0#8, physStart := 0x4000, totalPages := 8
        freePages := 8, firstPage := 0 }
    issued := 0, posted := [] }

theorem idleDisk_boot : Boot idleDisk := by
  have addressed : emptyQueue.cq ≠ 0 := by decide
  exact ⟨fun _ => ⟨fun _ => addressed, rfl, rfl, rfl, rfl, rfl, rfl, rfl⟩, rfl, rfl, rfl⟩

/-- The controller completes the open command before the first poll. -/
def prompt : Polls := fun _ => [⟨.io, 0, 0⟩]

/-- The controller takes its time. -/
def slow : Polls := fun _ => []

/-- One sector is read. -/
def readOne (polls : Polls) : Event := .nvmeRw opRead 0 1 polls

theorem prompt_careful : Careful idleDisk (readOne prompt) := by
  refine ⟨fun sent submitted => ⟨0, 1, ?_, ?_⟩, fun _ _ => nofun⟩
  · unfold pollLimit
    decide
  · have posted : ((nvmeRw opRead 0 1 prompt idleDisk).sent.all fun sent =>
        decide ((0, 0) ∈ (drive prompt 0 1 sent).posted)) = true := by decide +kernel
    rw [submitted] at posted
    exact of_decide_eq_true posted

/-- A sector read in time. -/
theorem careful_sound_prompt :
    SoundEvent idleDisk (readOne prompt) :=
  (careful_sound idleDisk_boot (.snoc .nil rfl) (guarded_snoc.mpr ⟨nofun, prompt_careful⟩)).1
    ⟨idleDisk, readOne prompt, (readOne prompt).next idleDisk⟩ (List.mem_singleton_self _)

/-- The controller does nothing while nothing is asked of it. -/
theorem drive_slow (i n : Nat) (s : State) : drive slow i n s = s := by
  induction n generalizing i with
  | zero => rfl
  | succ n ih => exact ih (i + 1)

/-- A sector is read and the controller takes longer than the driver waits: the page goes back
while the command is open. -/
theorem slow_read :
    ¬ ∀ (s final : State) (taken : List (Transition State Event)), Boot s →
      Trace Step s taken final →
      ∀ transition ∈ taken, SoundEvent transition.before transition.label := by
  intro sound
  have trace : Trace Step idleDisk [⟨idleDisk, readOne slow, (readOne slow).next idleDisk⟩]
      ((readOne slow).next idleDisk) := .snoc .nil rfl
  have judged := sound idleDisk _ _ idleDisk_boot trace _ (List.mem_singleton_self _)
  have submitted : (nvmeRw opRead 0 1 slow idleDisk).sent.isSome = true := by decide +kernel
  obtain ⟨sent, taken⟩ := Option.isSome_iff_exists.mp submitted
  have nothing : ((nvmeRw opRead 0 1 slow idleDisk).sent.all fun sent =>
      decide (sent.posted = [])) = true := by decide +kernel
  rw [taken] at nothing
  refine nvmeRw_late idleDisk_boot.inv taken (fun status within => ?_) (judged _ _ rfl)
  obtain ⟨n, -, posted⟩ := within
  rw [drive_slow, of_decide_eq_true nothing] at posted
  exact absurd posted List.not_mem_nil

end Judged

end DBSos.Nvme
