import Mathlib.Data.List.Find
import DBSos.Linux.Signals

/-!
# Whom a signal ends

`sys_kill` ends its sender for SIGKILL and SIGTERM, whoever the target is, and only
marks the signal as pending for the others; `check_signals` ignores a pending SIGKILL.
`sys_tgkill` ends its target for SIGTERM without a look at mask and handler. A task
that `check_signals` ends still runs the call it made.
-/

namespace DBSos.Linux

open DBSos.Lib DBSos.Vfs

/-! ## Pending bits -/

namespace LinuxTask

variable (t : LinuxTask) (sig other : Signal)

theorem pends_eq : t.pends sig = t.signalPending.getLsbD sig.val := by
  have bit := BitVec.and_twoPow t.signalPending sig.val
  rw [pends, ← BitVec.twoPow_eq, bit]
  cases held : t.signalPending.getLsbD sig.val with
  | false => simp
  | true =>
    have nonzero : BitVec.twoPow 32 sig.val ≠ 0#32 := by
      intro zero
      have value := congrArg BitVec.toNat zero
      rw [BitVec.toNat_twoPow_of_lt sig.isLt] at value
      simp at value
    simpa using nonzero

theorem pends_clear : (t.clear sig).pends other = (t.pends other && decide (other ≠ sig)) := by
  rw [pends_eq, pends_eq, clear, ← BitVec.twoPow_eq]
  simp only [BitVec.getLsbD_and, BitVec.getLsbD_not, BitVec.getLsbD_twoPow]
  have inside : other.val < 32 := other.isLt
  by_cases same : other = sig
  · simp [same, sig.isLt]
  · have apart : sig.val ≠ other.val := fun equal => same (Fin.ext equal.symm)
    simp [same, apart, inside]

theorem raise_eq_iff : t.raise sig = t ↔ t.pends sig := by
  rw [pends_eq]
  constructor
  · intro same
    have bits := congrArg (fun t => t.signalPending.getLsbD sig.val) same
    simp only [raise, ← BitVec.twoPow_eq, BitVec.getLsbD_or, BitVec.getLsbD_twoPow] at bits
    simpa [sig.isLt] using bits
  · intro held
    have pending : t.signalPending ||| 1#32 <<< sig.val = t.signalPending := by
      rw [← BitVec.twoPow_eq]
      refine BitVec.eq_of_getLsbD_eq fun bit inside => ?_
      rw [BitVec.getLsbD_or, BitVec.getLsbD_twoPow]
      by_cases here : sig.val = bit
      · subst here
        simp [held]
      · simp [here]
    rw [raise, pending]

/-- The signal is blocked, or something other than the default answers it. -/
def spares : Bool := t.blocks sig || (t.signalHandlers sig).handler ≠ sigDfl

/-- `check_signals` stops at this signal: it calls a handler or ends the task. -/
def takes : Bool :=
  t.pends sig && !t.blocks sig && (t.signalHandlers sig).handler ≠ sigIgn &&
    ((t.signalHandlers sig).handler ≠ sigDfl || fatal sig)

/-- The signal at which `check_signals` stops. -/
def taken : Option Signal := World.signals.find? t.takes

/-- `check_signals` ends the task. -/
def doomed : Bool := t.taken.any fun sig => (t.signalHandlers sig).handler = sigDfl

/-- `check_signals` returns a handler. -/
def caught : Bool := t.taken.any fun sig => (t.signalHandlers sig).handler ≠ sigDfl

/-- A signal that is cleared changes the answer to no other. -/
theorem takes_clear (apart : other ≠ sig) : (t.clear sig).takes other = t.takes other := by
  unfold takes
  rw [pends_clear, decide_eq_true apart, Bool.and_true]
  rfl

end LinuxTask

/-! ## The check -/

namespace World

variable {δ ρ : Type} {w : World δ ρ} {i j : Slot}

/-- The pending set is all that the check writes while it goes on. -/
def setPending (w : World δ ρ) (i : Slot) (pending : BitVec 32) : World δ ρ :=
  w.modify i fun t => { t with signalPending := pending }

/-- How the check ends at the signal it stops at. -/
def answer (w : World δ ρ) (i : Slot) : Option Signal → Option (BitVec 64) × World δ ρ
  | none => (none, w)
  | some sig =>
    let handler := ((w.tasks i).signalHandlers sig).handler
    if handler = sigDfl then (none, w.sysExit i (BitVec.ofNat 32 (128 + sig.val)))
    else (some handler, w)

theorem checkFrom_eq (list : List Signal) (distinct : list.Nodup) (w : World δ ρ) :
    ∃ pending, (∀ sig ∉ list, pending.getLsbD sig.val = (w.tasks i).signalPending.getLsbD sig.val) ∧
      checkFrom i list w = (w.setPending i pending).answer i (list.find? (w.tasks i).takes) := by
  induction list generalizing w with
  | nil =>
    refine ⟨(w.tasks i).signalPending, fun _ _ => rfl, ?_⟩
    have same : w.setPending i (w.tasks i).signalPending = w := by
      simp [setPending, modify]
    rw [same]
    rfl
  | cons sig rest ih =>
    obtain ⟨fresh, restDistinct⟩ := List.nodup_cons.mp distinct
    rw [checkFrom]
    by_cases skipped : (w.tasks i).pends sig = false ∨ (w.tasks i).blocks sig
    · -- Not pending, or blocked: the loop goes on with the same world.
      have passed : (w.tasks i).takes sig = false := by
        rcases skipped with idle | blocked
        · simp [LinuxTask.takes, idle]
        · simp [LinuxTask.takes, blocked]
      obtain ⟨pending, kept, result⟩ := ih restDistinct w
      rw [if_pos skipped, result, List.find?_cons, passed]
      exact ⟨pending, fun other absent => kept other (fun there => absent (.tail _ there)), rfl⟩
    · rw [if_neg skipped]
      simp only [not_or, Bool.not_eq_false, Bool.not_eq_true] at skipped
      obtain ⟨pends, unblocked⟩ := skipped
      have cleared : ∀ other ∉ sig :: rest, (((w.tasks i).clear sig).signalPending).getLsbD other.val =
          (w.tasks i).signalPending.getLsbD other.val := by
        intro other absent
        have apart : other ≠ sig := fun same => absent (same ▸ .head _)
        have bit := LinuxTask.pends_clear (w.tasks i) sig other
        rwa [decide_eq_true apart, Bool.and_true, LinuxTask.pends_eq, LinuxTask.pends_eq] at bit
      -- The signal is cleared; a signal that is ignored lets the loop go on.
      have goesOn (passed : (w.tasks i).takes sig = false) :
          ∃ pending, (∀ other ∉ sig :: rest, pending.getLsbD other.val =
            (w.tasks i).signalPending.getLsbD other.val) ∧
            checkFrom i rest (w.modify i fun t => t.clear sig) =
              (w.setPending i pending).answer i ((sig :: rest).find? (w.tasks i).takes) := by
        obtain ⟨pending, kept, result⟩ :=
          ih restDistinct (w.modify i fun t => t.clear sig)
        refine ⟨pending, fun other absent => ?_, ?_⟩
        · rw [kept other fun there => absent (.tail _ there), modify_same]
          exact cleared other absent
        · have sameStops : rest.find? ((w.modify i fun t => t.clear sig).tasks i).takes =
              rest.find? (w.tasks i).takes := by
            refine List.find?_congr fun other there => ?_
            rw [modify_same]
            exact LinuxTask.takes_clear _ _ _ fun same => fresh (same ▸ there)
          rw [result, sameStops, List.find?_cons, passed]
          simp [setPending, modify, LinuxTask.clear]
      have stops (taken : (w.tasks i).takes sig = true) :
          ∃ pending, (∀ other ∉ sig :: rest, pending.getLsbD other.val =
            (w.tasks i).signalPending.getLsbD other.val) ∧
            (w.modify i fun t => t.clear sig).answer i (some sig) =
              (w.setPending i pending).answer i ((sig :: rest).find? (w.tasks i).takes) := by
        refine ⟨_, cleared, ?_⟩
        rw [List.find?_cons, taken]
        rfl
      by_cases default : ((w.tasks i).signalHandlers sig).handler = sigDfl
      · rw [if_pos default]
        by_cases ended : fatal sig = true
        · have result := stops (by simp [LinuxTask.takes, pends, unblocked, default, ended, sigDfl, sigIgn])
          rw [if_pos ended]
          rwa [answer, modify_same, if_pos (by exact default)] at result
        · rw [if_neg ended]
          exact goesOn (by simp [LinuxTask.takes, default, ended])
      · rw [if_neg default]
        by_cases ignored : ((w.tasks i).signalHandlers sig).handler = sigIgn
        · rw [if_pos ignored]
          exact goesOn (by simp [LinuxTask.takes, ignored])
        · have result := stops (by simp [LinuxTask.takes, pends, unblocked, default, ignored])
          rw [if_neg ignored]
          rwa [answer, modify_same, if_neg (by exact default)] at result

/-- The check stops at the signal that the task takes. -/
theorem checkSignals_eq (w : World δ ρ) (i : Slot) :
    ∃ pending, pending.getLsbD 0 = (w.tasks i).signalPending.getLsbD 0 ∧
      w.checkSignals i = (w.setPending i pending).answer i (w.tasks i).taken := by
  unfold checkSignals
  split_ifs with idle
  · have none : (w.tasks i).taken = none := by
      rw [LinuxTask.taken, List.find?_eq_none]
      intro sig _
      simp [LinuxTask.takes, LinuxTask.pends, idle]
    refine ⟨(w.tasks i).signalPending, rfl, ?_⟩
    rw [none]
    simp [answer, setPending, modify]
  · obtain ⟨pending, kept, result⟩ := checkFrom_eq (i := i) signals (by decide) w
    exact ⟨pending, kept 0 (by decide), result⟩

/-! ## Sending -/

/-- The pid that a kill is addressed to. -/
def killPid (target : BitVec 32) : Option Nat :=
  if 0 < target.toInt then some target.toNat else none

/-- A signal sent to the tasks of `hit`, all with this pid if there is one, does what
it should. -/
structure Delivers (pid : Option Nat) (hit : Slot → Prop) (sig : Signal)
    (before after : World δ ρ) : Prop where
  others : ∀ number ∈ pid, ∀ j, (before.tasks j).pid ≠ number → after.tasks j = before.tasks j
  kills : sig = sigKill → ∀ j, hit j → (after.tasks j).alive = false
  spares : sig ≠ sigKill → ∀ j, hit j → (before.tasks j).spares sig → (after.tasks j).alive = true
  null : sig = 0 → after = before

/-- The kills that do so: SIGKILL aimed at nobody but the sender, SIGTERM aimed by pid at
the sender or nobody and not sparing a sender it is aimed at, and signal 0 where its bit
is set already. -/
structure KillFits (w : World δ ρ) (i : Slot) (target : BitVec 32) (sig : Signal) : Prop where
  null : sig = 0 → ∀ j, w.aimed target j → (w.tasks j).pends 0
  kill : sig = sigKill → ∀ j, w.aimed target j → j = i
  term : sig = sigTerm → (w.aimed target i → (w.tasks i).spares sigTerm = false) ∧
    ∀ number ∈ killPid target, (∃ j, w.aimed target j) → (w.tasks i).pid = number

/-- The same for `sys_tgkill`, which ends its target itself. -/
structure TgkillFits (w : World δ ρ) (tid : BitVec 32) (sig : Signal) : Prop where
  null : sig = 0 → ∀ j ∈ w.findTask (tid.signExtend 64).toNat, (w.tasks j).pends 0
  term : sig = sigTerm → ∀ j ∈ w.findTask (tid.signExtend 64).toNat,
    (w.tasks j).spares sigTerm = false

theorem aimed_alive {target : BitVec 32} (hit : w.aimed target j) : (w.tasks j).alive = true := by
  simp only [aimed, Bool.and_eq_true] at hit
  exact hit.1

theorem aimed_pid {target : BitVec 32} {number : Nat} (addressed : number ∈ killPid target)
    (hit : w.aimed target j) : (w.tasks j).pid = number := by
  unfold killPid at addressed
  split_ifs at addressed with positive
  · obtain rfl := Option.some.inj addressed
    have notZero : target ≠ 0 := by
      rintro rfl
      exact absurd positive (by decide)
    have notAll : target ≠ -1 := by
      rintro rfl
      exact absurd positive (by decide)
    simp only [aimed, notZero, notAll, Bool.and_eq_true, decide_false, Bool.false_or,
      decide_eq_true_eq] at hit
    exact hit.2.2
  · cases addressed

theorem raiseAll_other {target : BitVec 32} {sig : Signal} (missed : ¬ w.aimed target j) :
    (w.raiseAll target sig).tasks j = w.tasks j := by
  simp [raiseAll, missed]

@[simp] theorem raiseAll_alive (target : BitVec 32) (sig : Signal) (j : Slot) :
    ((w.raiseAll target sig).tasks j).alive = (w.tasks j).alive := by
  simp only [raiseAll]
  split_ifs <;> rfl

theorem raiseAll_eq_iff {target : BitVec 32} {sig : Signal} :
    w.raiseAll target sig = w ↔ ∀ j, w.aimed target j → (w.tasks j).pends sig := by
  constructor
  · intro same j hit
    have here := congrArg (fun w => w.tasks j) same
    simp only [raiseAll, if_pos hit] at here
    exact (LinuxTask.raise_eq_iff _ _).mp here
  · intro set
    have tasks : (w.raiseAll target sig).tasks = w.tasks := by
      funext j
      by_cases hit : w.aimed target j
      · simp only [raiseAll, if_pos hit]
        exact (LinuxTask.raise_eq_iff _ _).mpr (set j hit)
      · exact raiseAll_other hit
    calc
      w.raiseAll target sig = { w with tasks := (w.raiseAll target sig).tasks } := rfl
      _ = w := by rw [tasks]

/-- The sender of a signal that ends it is gone, and no other task is. -/
theorem sysExit_alive (w : World δ ρ) (i j : Slot) (status : BitVec 32) :
    ((w.sysExit i status).tasks j).alive = if j = i then false else (w.tasks j).alive := by
  rw [sysExit_tasks]
  by_cases here : j = i
  · subst here
    simp
  · rw [modify_other here, if_neg here]

theorem sysExit_other (w : World δ ρ) (status : BitVec 32) (apart : j ≠ i) :
    (w.sysExit i status).tasks j = w.tasks j := by
  rw [sysExit_tasks, modify_other apart]

/-- A kill does what it should exactly when it fits. -/
theorem sysKill_delivers_iff (alive : (w.tasks i).alive = true) {target word : BitVec 32}
    {sig : Signal} (valid : toSignal word = some sig) :
    Delivers (killPid target) (fun j => w.aimed target j) sig w (w.sysKill i target word).2 ↔
      KillFits w i target sig := by
  simp only [sysKill, valid]
  split_ifs with missing ended
  · -- Nobody is addressed: nothing happens.
    have nobody (j : Slot) : ¬ w.aimed target j := by simp [missing.2 j]
    refine iff_of_true ⟨fun _ _ _ _ => rfl, fun _ j hit => absurd hit (nobody j),
      fun _ j hit => absurd hit (nobody j), fun _ => rfl⟩
      ⟨fun _ j hit => absurd hit (nobody j), fun _ j hit => absurd hit (nobody j),
        fun _ => ⟨fun hit => absurd hit (nobody i), ?_⟩⟩
    rintro _ _ ⟨j, hit⟩
    exact absurd hit (nobody j)
  · -- The sender goes, whoever was addressed.
    have hits (number : Nat) (addressed : number ∈ killPid target) : ∃ j, w.aimed target j := by
      have positive : 0 < target.toInt := by
        unfold killPid at addressed
        split_ifs at addressed with positive
        · exact positive
        · cases addressed
      by_contra none
      exact missing ⟨positive, fun j => by simpa using fun hit => none ⟨j, hit⟩⟩
    have stays (j : Slot) (apart : j ≠ i) (missed : ¬ w.aimed target j) :
        ((w.raiseAll target sig).sysExit i (BitVec.ofNat 32 sig.val)).tasks j = w.tasks j := by
      rw [sysExit_other _ _ apart, raiseAll_other missed]
    have lives (j : Slot) (apart : j ≠ i) :
        (((w.raiseAll target sig).sysExit i (BitVec.ofNat 32 sig.val)).tasks j).alive =
          (w.tasks j).alive := by
      rw [sysExit_alive, if_neg apart, raiseAll_alive]
    have dies : (((w.raiseAll target sig).sysExit i (BitVec.ofNat 32 sig.val)).tasks i).alive =
        false := by
      rw [sysExit_alive, if_pos rfl]
    have notNull : sig ≠ 0 := by
      rintro rfl
      exact absurd ended (by decide)
    constructor
    · intro delivers
      refine ⟨fun null => absurd null notNull, fun kill j hit => ?_, fun term => ⟨fun hit => ?_,
        fun number addressed _ => ?_⟩⟩
      · by_contra apart
        have gone := delivers.kills kill j hit
        rw [lives j apart, aimed_alive hit] at gone
        cases gone
      · by_contra spared
        have survives := delivers.spares (by rw [term]; decide) i hit (by
          rw [term]
          simpa using spared)
        rw [dies] at survives
        cases survives
      · by_contra apart
        have same := delivers.others number addressed i apart
        rw [same, alive] at dies
        cases dies
    · intro fits
      have isTarget (number : Nat) (addressed : number ∈ killPid target) :
          (w.tasks i).pid = number := by
        have someone := hits number addressed
        have endsTwo : sig = sigKill ∨ sig = sigTerm := by simpa [ends] using ended
        rcases endsTwo with kill | term
        · obtain ⟨j, hit⟩ := someone
          have itself := fits.kill kill j hit
          subst itself
          exact aimed_pid addressed hit
        · exact (fits.term term).2 number addressed someone
      refine ⟨fun number addressed j apart => ?_, fun kill j hit => ?_,
        fun notKill j hit spared => ?_, fun null => absurd null notNull⟩
      · refine stays j ?_ fun hit => apart (aimed_pid addressed hit)
        rintro rfl
        exact apart (isTarget number addressed)
      · rw [fits.kill kill j hit, dies]
      · have term : sig = sigTerm := by
          have endsTwo : sig = sigKill ∨ sig = sigTerm := by simpa [ends] using ended
          exact endsTwo.resolve_left notKill
        have apart : j ≠ i := by
          rintro rfl
          have open_ := (fits.term term).1 hit
          rw [← term, spared] at open_
          cases open_
        rw [lives j apart, aimed_alive hit]
  · -- The signal is marked as pending and does nothing else yet.
    have notKill : sig ≠ sigKill := by
      rintro rfl
      exact ended (by decide)
    have notTerm : sig ≠ sigTerm := by
      rintro rfl
      exact ended (by decide)
    constructor
    · intro delivers
      refine ⟨fun null => ?_, fun kill => absurd kill notKill, fun term => absurd term notTerm⟩
      subst null
      exact raiseAll_eq_iff.mp (delivers.null rfl)
    · intro fits
      refine ⟨fun number addressed j apart => ?_, fun kill => absurd kill notKill,
        fun _ j hit _ => ?_, fun null => ?_⟩
      · exact raiseAll_other fun hit => apart (aimed_pid addressed hit)
      · rw [raiseAll_alive, aimed_alive hit]
      · subst null
        exact raiseAll_eq_iff.mpr (fits.null rfl)

/-- And so does a `tgkill`. -/
theorem sysTgkill_delivers_iff {tid word : BitVec 32} {sig : Signal}
    (valid : toSignal word = some sig) :
    Delivers (some (tid.signExtend 64).toNat) (fun j => w.findTask (tid.signExtend 64).toNat = some j)
      sig w (w.sysTgkill tid word).2 ↔ TgkillFits w tid sig := by
  simp only [sysTgkill, valid]
  cases found : w.findTask (tid.signExtend 64).toNat with
  | none =>
    exact iff_of_true ⟨fun _ _ _ _ => rfl, nofun, nofun, fun _ => rfl⟩
      ⟨fun _ j hit => by simp [found] at hit, fun _ j hit => by simp [found] at hit⟩
  | some target =>
    have facts : (w.tasks target).alive = true ∧
        (w.tasks target).pid = (tid.signExtend 64).toNat := by
      simpa using findSlot_some found
    obtain ⟨alive, isPid⟩ := facts
    have others (number : Nat) (addressed : number ∈ some (tid.signExtend 64).toNat) (j : Slot)
        (apart : (w.tasks j).pid ≠ number) : j ≠ target := by
      rintro rfl
      obtain rfl := Option.some.inj addressed
      exact apart isPid
    dsimp only
    split_ifs with ended
    · have notNull : sig ≠ 0 := by
        rintro rfl
        exact absurd ended (by decide)
      constructor
      · intro delivers
        refine ⟨fun null => absurd null notNull, fun term j hit => ?_⟩
        obtain rfl := Option.some.inj (found.symm.trans hit)
        by_contra spared
        have survives := delivers.spares (by rw [term]; decide) target rfl (by
          rw [term]
          simpa using spared)
        simp at survives
      · intro fits
        refine ⟨fun number addressed j apart => ?_, fun _ j hit => ?_,
          fun notKill j hit spared => ?_, fun null => absurd null notNull⟩
        · have differs := others number addressed j apart
          rw [modify_other differs, modify_other differs]
        · obtain rfl := Option.some.inj hit
          simp
        · have term : sig = sigTerm := by
            have endsTwo : sig = sigKill ∨ sig = sigTerm := by simpa [ends] using ended
            exact endsTwo.resolve_left notKill
          have exposed := fits.term term j (found.trans hit)
          rw [← term, spared] at exposed
          cases exposed
    · have notKill : sig ≠ sigKill := by
        rintro rfl
        exact ended (by decide)
      have notTerm : sig ≠ sigTerm := by
        rintro rfl
        exact ended (by decide)
      constructor
      · intro delivers
        refine ⟨fun null j hit => ?_, fun term => absurd term notTerm⟩
        obtain rfl := Option.some.inj (found.symm.trans hit)
        subst null
        have same := congrArg (fun w => w.tasks target) (delivers.null rfl)
        simp only [modify_same] at same
        exact (LinuxTask.raise_eq_iff _ _).mp same
      · intro fits
        refine ⟨fun number addressed j apart => ?_, fun kill => absurd kill notKill,
          fun _ j hit _ => ?_, fun null => ?_⟩
        · exact modify_other (others number addressed j apart) _
        · obtain rfl := Option.some.inj hit
          rw [modify_same]
          exact alive
        · subst null
          have set := fits.null rfl target found
          rw [modify, (LinuxTask.raise_eq_iff _ _).mpr set, Function.update_eq_self]

/-! ## Runs -/

/-- The calls that can change something. -/
def effectful (nr : BitVec 64) : Bool :=
  nr ∈ [0, 1, 2, 257, 3, 8, 32, 33, 292, 22, 293, 9, 12, 57, 58, 56, 59, 60, 62, 234, 4, 6, 5, 262,
    80, 83, 258, 84, 87, 263, 13, 14] ∨ reports nr

/-- Every other call only returns a number. -/
theorem perform_inert (env : Services δ ρ) (w : World δ ρ) (i : Slot) {nr : BitVec 64} (a : Args)
    (inert : effectful nr = false) : (w.perform env i nr a).world = some w := by
  simp only [effectful, List.mem_cons, List.not_mem_nil, or_false, decide_eq_false_iff_not, not_or,
    Bool.not_eq_true] at inert
  obtain ⟨apart, quiet⟩ := inert
  simp only [perform, apart, quiet, or_false, if_false, Bool.false_eq_true]
  split_ifs <;> rfl

end World

/-- A step: a call of the current task, or anything else that leaves the table. -/
inductive Act (δ ρ : Type) where
  | kill (target sig : BitVec 32)
  | tgkill (tid sig : BitVec 32)
  | rtSigaction (signum act old : BitVec 64)
  | rtSigprocmask (how : BitVec 32) (set old : BitVec 64)
  | handleSyscall (nr : BitVec 64) (a : Args)
  | elsewhere (machine : Syscall.Machine (Tables δ)) (rest : ρ)

namespace World

variable {δ ρ : Type} {w : World δ ρ} {i j : Slot}

/-- The call of the task at `i`; `none` is a panic. -/
def callBy (env : Services δ ρ) (w : World δ ρ) (i : Slot) : Act δ ρ → Option (World δ ρ)
  | .kill target sig => some (w.sysKill i target sig).2
  | .tgkill tid sig => some (w.sysTgkill tid sig).2
  | .rtSigaction signum act old => some (w.sysRtSigaction i env signum act old).2
  | .rtSigprocmask how set old => some (w.sysRtSigprocmask i how set old).2
  | .handleSyscall nr a => (w.handleSyscall env i nr a).world
  | .elsewhere machine rest => some { w with machine := machine, rest := rest }

/-- A step of the run. A call is made by the task that `get_current` finds. -/
def act (env : Services δ ρ) (w : World δ ρ) : Act δ ρ → Option (World δ ρ)
  | .elsewhere machine rest => some { w with machine := machine, rest := rest }
  | call => w.getCurrent.bind fun i => w.callBy env i call

/-- A call that `handle_syscall` serves as it should, behind the check of the signals. -/
structure Served (w after : World δ ρ) (i : Slot) (nr : BitVec 64) (a : Args) : Prop where
  spared : ((w.checkSignals i).2.tasks i).alive = false →
    ∃ sig, sig ≠ 0 ∧ (w.tasks i).pends sig ∧ (w.tasks i).spares sig = false
  others : ∀ j, j ≠ i → (w.checkSignals i).2.tasks j = w.tasks j
  ended : ((w.checkSignals i).2.tasks i).alive = false → after = (w.checkSignals i).2
  kill : (w.checkSignals i).1 = none → ((w.checkSignals i).2.tasks i).alive = true → nr = 62 →
    ∀ sig ∈ toSignal (a.a2.setWidth 32),
      Delivers (killPid (a.a1.setWidth 32)) (fun j => (w.checkSignals i).2.aimed (a.a1.setWidth 32) j)
        sig (w.checkSignals i).2 after
  tgkill : (w.checkSignals i).1 = none → ((w.checkSignals i).2.tasks i).alive = true → nr = 234 →
    ∀ sig ∈ toSignal (a.a3.setWidth 32),
      Delivers (some ((a.a2.setWidth 32).signExtend 64).toNat)
        (fun j => (w.checkSignals i).2.findTask ((a.a2.setWidth 32).signExtend 64).toNat = some j)
        sig (w.checkSignals i).2 after

/-- What a step should do. -/
def Lawful (w : World δ ρ) (after : World δ ρ) : Act δ ρ → Prop
  | .kill target word => ∀ i ∈ w.getCurrent, ∀ sig ∈ toSignal word,
      Delivers (killPid target) (fun j => w.aimed target j) sig w after
  | .tgkill tid word => ∀ sig ∈ toSignal word,
      Delivers (some (tid.signExtend 64).toNat)
        (fun j => w.findTask (tid.signExtend 64).toNat = some j) sig w after
  | .handleSyscall nr a => ∀ i ∈ w.getCurrent, Served w after i nr a
  | .rtSigaction _ _ _ | .rtSigprocmask _ _ _ | .elsewhere _ _ =>
    ∀ j, (after.tasks j).alive = (w.tasks j).alive

/-- The steps that do so. A call behind which the check ends the task must be one that
only returns a number; the kills count when the check lets them through. -/
def Fits (w : World δ ρ) : Act δ ρ → Prop
  | .kill target word => ∀ i ∈ w.getCurrent, ∀ sig ∈ toSignal word, KillFits w i target sig
  | .tgkill tid word => ∀ sig ∈ toSignal word, TgkillFits w tid sig
  | .handleSyscall nr a => ∀ i ∈ w.getCurrent,
      ((w.tasks i).doomed → effectful nr = false) ∧
      ((w.tasks i).taken = none → nr = 62 → ∀ sig ∈ toSignal (a.a2.setWidth 32),
        KillFits w i (a.a1.setWidth 32) sig) ∧
      ((w.tasks i).taken = none → nr = 234 → ∀ sig ∈ toSignal (a.a3.setWidth 32),
        TgkillFits w (a.a2.setWidth 32) sig)
  | .rtSigaction _ _ _ | .rtSigprocmask _ _ _ | .elsewhere _ _ => True

theorem setPending_tasks (pending : BitVec 32) (j : Slot) :
    (w.setPending i pending).tasks j =
      { w.tasks j with signalPending := if j = i then pending else (w.tasks j).signalPending } := by
  by_cases here : j = i
  · subst here
    simp [setPending]
  · rw [setPending, modify_other here, if_neg here]

theorem aimed_setPending (pending : BitVec 32) (target : BitVec 32) (j : Slot) :
    (w.setPending i pending).aimed target j = w.aimed target j := by
  simp only [aimed, setPending_tasks]

theorem findTask_setPending (pending : BitVec 32) (pid : Nat) :
    (w.setPending i pending).findTask pid = w.findTask pid := by
  simp only [findTask, findSlot, setPending_tasks]

/-- The check writes no bit that a kill of signal 0 looks at. -/
theorem pends_setPending {pending : BitVec 32}
    (kept : pending.getLsbD 0 = (w.tasks i).signalPending.getLsbD 0) (j : Slot) :
    ((w.setPending i pending).tasks j).pends 0 = (w.tasks j).pends 0 := by
  rw [LinuxTask.pends_eq, LinuxTask.pends_eq, setPending_tasks]
  by_cases here : j = i
  · subst here
    simpa using kept
  · simp [here]

theorem KillFits.setPending {target : BitVec 32} {sig : Signal} {pending : BitVec 32}
    (fits : KillFits w i target sig)
    (kept : pending.getLsbD 0 = (w.tasks i).signalPending.getLsbD 0) :
    KillFits (w.setPending i pending) i target sig where
  null null j hit := by
    rw [aimed_setPending] at hit
    rw [pends_setPending kept]
    exact fits.null null j hit
  kill kill j hit := fits.kill kill j (by rwa [aimed_setPending] at hit)
  term term := by
    simp only [aimed_setPending, setPending_tasks]
    exact fits.term term

theorem TgkillFits.setPending {tid : BitVec 32} {sig : Signal} {pending : BitVec 32}
    (fits : TgkillFits w tid sig)
    (kept : pending.getLsbD 0 = (w.tasks i).signalPending.getLsbD 0) :
    TgkillFits (w.setPending i pending) tid sig where
  null null j hit := by
    rw [findTask_setPending] at hit
    rw [pends_setPending kept]
    exact fits.null null j hit
  term term j hit := by
    rw [findTask_setPending] at hit
    rw [setPending_tasks]
    exact fits.term term j hit

theorem perform_kill (env : Services δ ρ) (w : World δ ρ) (i : Slot) (a : Args) :
    w.perform env i 62 a =
      .ret (w.sysKill i (a.a1.setWidth 32) (a.a2.setWidth 32)).1
        (w.sysKill i (a.a1.setWidth 32) (a.a2.setWidth 32)).2 := by
  simp [perform]

theorem perform_tgkill (env : Services δ ρ) (w : World δ ρ) (i : Slot) (a : Args) :
    w.perform env i 234 a =
      .ret (w.sysTgkill (a.a2.setWidth 32) (a.a3.setWidth 32)).1
        (w.sysTgkill (a.a2.setWidth 32) (a.a3.setWidth 32)).2 := by
  simp [perform]

/-- A call of a living task that fits is served as it should be. -/
theorem served {env : Services δ ρ} {nr : BitVec 64} {a : Args} {after : World δ ρ}
    (alive : (w.tasks i).alive = true) (current : i ∈ w.getCurrent)
    (fits : Fits w (.handleSyscall nr a))
    (result : (w.handleSyscall env i nr a).world = some after) : Served w after i nr a := by
  obtain ⟨inert, killFits, tgkillFits⟩ := fits i current
  obtain ⟨pending, kept, checked⟩ := checkSignals_eq w i
  have lives : ((w.setPending i pending).tasks i).alive = true := by
    rw [setPending_tasks]
    exact alive
  have apart (j : Slot) (other : j ≠ i) : (w.setPending i pending).tasks j = w.tasks j := by
    rw [setPending, modify_other other]
  rw [handleSyscall] at result
  cases taken : (w.tasks i).taken with
  | none =>
    rw [taken, answer] at checked
    rw [checked] at result
    constructor <;> simp only [checked]
    · exact fun dead => absurd dead (by simp [lives])
    · exact apart
    · exact fun dead => absurd dead (by simp [lives])
    · rintro - - rfl sig valid
      simp only [perform_kill, Reply.world, Option.some.injEq] at result
      subst result
      exact (sysKill_delivers_iff lives valid).mpr ((killFits taken rfl sig valid).setPending kept)
    · rintro - - rfl sig valid
      simp only [perform_tgkill, Reply.world, Option.some.injEq] at result
      subst result
      exact (sysTgkill_delivers_iff valid).mpr ((tgkillFits taken rfl sig valid).setPending kept)
  | some sig =>
    have takes : (w.tasks i).takes sig = true := List.find?_some taken
    have isSignal : sig ≠ 0 := by
      rintro rfl
      exact absurd (List.mem_of_find?_eq_some taken) (by decide)
    simp only [LinuxTask.takes, Bool.and_eq_true, Bool.not_eq_true'] at takes
    rw [taken, answer, setPending_tasks] at checked
    dsimp only at checked
    by_cases default : ((w.tasks i).signalHandlers sig).handler = sigDfl
    · -- The check ends the task; the call behind it only returns a number.
      have doomed : (w.tasks i).doomed = true := by simp [LinuxTask.doomed, taken, default]
      rw [if_pos default] at checked
      rw [checked] at result
      have gone (status : BitVec 32) :
          (((w.setPending i pending).sysExit i status).tasks i).alive = false := by
        rw [sysExit_alive, if_pos rfl]
      constructor <;> simp only [checked]
      · exact fun _ => ⟨sig, isSignal, takes.1.1.1, by simp [LinuxTask.spares, takes.1.1.2, default]⟩
      · intro j other
        rw [sysExit_other _ _ other, apart j other]
      · intro _
        dsimp only at result
        rw [perform_inert env _ i a (inert doomed)] at result
        exact (Option.some.inj result).symm
      · exact fun _ alive => absurd alive (by simp [gone])
      · exact fun _ alive => absurd alive (by simp [gone])
    · rw [if_neg default] at checked
      constructor <;> simp only [checked]
      · exact fun dead => absurd dead (by simp [lives])
      · exact apart
      · exact fun dead => absurd dead (by simp [lives])
      · exact nofun
      · exact nofun

theorem getCurrent_alive (current : i ∈ w.getCurrent) : (w.tasks i).alive = true := by
  have test := findSlot_some current
  simp only [Bool.and_eq_true] at test
  exact test.1

theorem modify_alive {change : LinuxTask → LinuxTask} (keeps : ∀ t, (change t).alive = t.alive)
    (j : Slot) : ((w.modify i change).tasks j).alive = (w.tasks j).alive := by
  by_cases here : j = i
  · subst here
    rw [modify_same, keeps]
  · rw [modify_other here]

theorem sysRtSigaction_alive (env : Services δ ρ) (signum act old : BitVec 64) (j : Slot) :
    ((w.sysRtSigaction i env signum act old).2.tasks j).alive = (w.tasks j).alive := by
  unfold sysRtSigaction
  by_cases bounds : 0 < signum.toNat ∧ signum.toNat < maxSignals
  · rw [dif_pos bounds]
    by_cases query : act = 0
    · simp only [query, if_true]
    · simp only [query, if_false]
      refine (modify_alive ?_ j).trans rfl
      exact fun _ => rfl
  · rw [dif_neg bounds]

theorem sysRtSigprocmask_alive (how : BitVec 32) (set old : BitVec 64) (j : Slot) :
    ((w.sysRtSigprocmask i how set old).2.tasks j).alive = (w.tasks j).alive := by
  have before : (if old = 0 then w else w.writeUser old
      (Syscall.Machine.leBytes (w.tasks i).signalMask.toNat 8)).tasks = w.tasks := by
    split_ifs <;> rfl
  unfold sysRtSigprocmask
  by_cases query : set = 0
  · simp only [query, if_true, before]
  · simp only [query, if_false]
    refine (modify_alive ?_ j).trans (by rw [before])
    exact fun _ => rfl

/-- A step that fits does what it should. -/
theorem lawful_of_fits {env : Services δ ρ} {act : Act δ ρ} {after : World δ ρ}
    (fits : w.Fits act) (step : w.act env act = some after) : w.Lawful after act := by
  cases act with
  | elsewhere machine rest =>
    obtain rfl := Option.some.inj step
    exact fun _ => rfl
  | kill target word =>
    obtain ⟨i, current, result⟩ := Option.bind_eq_some_iff.mp step
    obtain rfl := Option.some.inj result
    intro other found sig valid
    obtain rfl := Option.some.inj (current.symm.trans found)
    exact (sysKill_delivers_iff (getCurrent_alive current) valid).mpr (fits i current sig valid)
  | tgkill tid word =>
    obtain ⟨i, current, result⟩ := Option.bind_eq_some_iff.mp step
    obtain rfl := Option.some.inj result
    exact fun sig valid => (sysTgkill_delivers_iff valid).mpr (fits sig valid)
  | rtSigaction signum act old =>
    obtain ⟨i, current, result⟩ := Option.bind_eq_some_iff.mp step
    obtain rfl := Option.some.inj result
    exact sysRtSigaction_alive env signum act old
  | rtSigprocmask how set old =>
    obtain ⟨i, current, result⟩ := Option.bind_eq_some_iff.mp step
    obtain rfl := Option.some.inj result
    exact sysRtSigprocmask_alive how set old
  | handleSyscall nr a =>
    obtain ⟨i, current, result⟩ := Option.bind_eq_some_iff.mp step
    intro other found
    obtain rfl := Option.some.inj (current.symm.trans found)
    exact served (getCurrent_alive current) current fits result

section Samples

instance (w : World δ ρ) (i : Slot) (target : BitVec 32) (sig : Signal) :
    Decidable (KillFits w i target sig) :=
  decidable_of_iff
    ((sig = 0 → ∀ j, w.aimed target j → (w.tasks j).pends 0) ∧
      (sig = sigKill → ∀ j, w.aimed target j → j = i) ∧
      (sig = sigTerm → (w.aimed target i → (w.tasks i).spares sigTerm = false) ∧
        ∀ number ∈ killPid target, (∃ j, w.aimed target j) → (w.tasks i).pid = number))
    ⟨fun fits => ⟨fits.1, fits.2.1, fits.2.2⟩, fun fits => ⟨fits.null, fits.kill, fits.term⟩⟩

instance (w : World δ ρ) (tid : BitVec 32) (sig : Signal) : Decidable (TgkillFits w tid sig) :=
  decidable_of_iff
    ((sig = 0 → ∀ j ∈ w.findTask (tid.signExtend 64).toNat, (w.tasks j).pends 0) ∧
      (sig = sigTerm → ∀ j ∈ w.findTask (tid.signExtend 64).toNat,
        (w.tasks j).spares sigTerm = false))
    ⟨fun fits => ⟨fits.1, fits.2⟩, fun fits => ⟨fits.null, fits.term⟩⟩

instance (w : World δ ρ) : DecidablePred w.Fits := fun
  | .kill _ _ | .tgkill _ _ | .handleSyscall _ _ => by unfold Fits; infer_instance
  | .rtSigaction _ _ _ | .rtSigprocmask _ _ _ | .elsewhere _ _ => .isTrue trivial

/-- Two Linux tasks, with pids 1 and 2; the first one runs. -/
def twoTasks : World Unit Unit where
  tasks j :=
    if j = 0 then { LinuxTask.empty with pid := 1, alive := true }
    else if j = 1 then { LinuxTask.empty with pid := 2, dbsosTask := 1, alive := true }
    else .empty
  machine :=
    { kernel := Syscall.oneTask.kernel
      user := fun _ => 0
      currentUid := 0
      users := []
      mmioRegions := []
      framebuffer := Syscall.oneTask.framebuffer
      rest := .empty () }
  rest := ()

/-- Services that fail every call. -/
def noServices : Services δ ρ where
  kmalloc _ rest := (false, rest)
  kfree rest := rest
  loadLinuxElf _ phys rest := (none, phys, rest)
  requestExecRedirect _ rest := rest
  setupUserGdtTss _ _ rest := rest
  readAction _ _ := .empty
  writeAction _ _ memory := memory
  report _ _ _ _ := none

end Samples

end World

end DBSos.Linux
