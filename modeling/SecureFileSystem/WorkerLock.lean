import SecureFileSystem.Transition

/-!
`worker.py`: any number of worker processes around one session advisory lock.
The lock belongs to a process's lock connection; the server takes it back when
that connection drops, which the process learns at its next query.
-/

namespace SecureFileSystem.WorkerLock

open Transition

inductive CycleJob where
  | checkNodeHealth
  | gcStaleUploads
  | gcDeletedFiles
  | repairLostShards
  | scrub
  deriving DecidableEq

def cycleJobs : List CycleJob :=
  [.checkNodeHealth, .gcStaleUploads, .gcDeletedFiles, .repairLostShards, .scrub]

inductive Phase where
  /-- about to try the lock -/
  | tryLock
  /-- asleep between two tries -/
  | standby
  /-- about to query the lock connection -/
  | query
  /-- inside `run_cycle`, with the jobs still to be done or finished -/
  | cycle (jobs : List CycleJob)
  /-- asleep between two cycles -/
  | sleep
  | exited
  deriving DecidableEq

structure Worker where
  phase : Phase
  /-- its lock connection is alive -/
  connected : Bool
  deriving DecidableEq

variable {Process : Type} [DecidableEq Process]

structure World (Process : Type) where
  /-- whose session the server has granted the lock to -/
  holder : Option Process
  workers : Process → Worker

inductive Event (Process : Type) where
  /-- the process takes its next step -/
  | proceed (process : Process)
  /-- one of the many steps of the job it is at -/
  | work (process : Process)
  /-- its lock connection drops -/
  | drop (process : Process)
  /-- the process is stopped -/
  | stop (process : Process)

namespace World

def set (world : World Process) (process : Process) (worker : Worker) : World Process :=
  { world with workers := Function.update world.workers process worker }

/-- The server gives up the locks of a session that has ended. -/
def release (world : World Process) (process : Process) : World Process :=
  { world with holder := if world.holder = some process then none else world.holder }

/-- The `finally` of `run` closes every connection. -/
def exit (world : World Process) (process : Process) : World Process :=
  (world.release process).set process ⟨.exited, false⟩

def move (world : World Process) (process : Process) (phase : Phase) : World Process :=
  world.set process { world.workers process with phase := phase }

/-- The next step of `run`. A query on a dead connection raises. -/
def proceed (world : World Process) (process : Process) : Option (World Process) :=
  match (world.workers process).phase with
  | .tryLock =>
      if (world.workers process).connected then
        match world.holder with
        | none => some ({ world with holder := some process }.move process .query)
        | some _ => some (world.move process .standby)
      else some (world.exit process)
  | .standby => some (world.move process .tryLock)
  | .query =>
      if (world.workers process).connected then some (world.move process (.cycle cycleJobs))
      else some (world.exit process)
  -- a job that raises is logged, and the next one runs
  | .cycle (_ :: jobs) => some (world.move process (.cycle jobs))
  | .cycle [] => some (world.move process .sleep)
  | .sleep => some (world.move process .query)
  | .exited => none

def step (world : World Process) : Event Process → Option (World Process)
  | .proceed process => world.proceed process
  | .work process =>
      match (world.workers process).phase with
      | .cycle (_ :: _) => some world
      | _ => none
  | .drop process =>
      some ((world.release process).set process
        { world.workers process with connected := false })
  | .stop process => some (world.exit process)

end World

def started : World Process := ⟨none, fun _ => ⟨.tryLock, true⟩⟩

abbrev Steps (before : World Process) (event : Event Process) (after : World Process) : Prop :=
  before.step event = some after

def Phase.inside : Phase → Bool
  | .cycle _ => true
  | _ => false

def Inside (world : World Process) (process : Process) : Prop :=
  (world.workers process).phase.inside = true

def Phase.granted : Phase → Bool
  | .query => true
  | .cycle _ => true
  | .sleep => true
  | _ => false

/-- The lock is not granted while a process that has lost its connection is
still inside `run_cycle`. -/
def Vacated (world : World Process) : Event Process → Prop
  | .proceed process =>
      (world.workers process).phase = .tryLock → (world.workers process).connected = true →
        world.holder = none → ∀ other, Inside world other → (world.workers other).connected = true
  | _ => True

/-- Who was granted the lock and is still connected holds it, and nobody else
is inside `run_cycle`. -/
structure Exclusive (world : World Process) : Prop where
  holds : ∀ process, (world.workers process).phase.granted = true →
    (world.workers process).connected = true → world.holder = some process
  connected : ∀ process, world.holder = some process →
    (world.workers process).connected = true
  alone : ∀ process other, world.holder = some process → Inside world other → other = process
  one : ∀ process other, Inside world process → Inside world other → process = other

theorem inside_granted {phase : Phase} (inside : phase.inside = true) : phase.granted = true := by
  cases phase <;> simp_all [Phase.inside, Phase.granted]

theorem set_self (world : World Process) (process : Process) (worker : Worker) :
    (world.set process worker).workers process = worker :=
  Function.update_self _ _ _

theorem set_other (world : World Process) {process other : Process} (apart : other ≠ process)
    (worker : Worker) : (world.set process worker).workers other = world.workers other :=
  Function.update_of_ne apart _ _

theorem set_inside {world : World Process} {process other : Process} {worker : Worker}
    (inside : Inside (world.set process worker) other) :
    other = process ∧ worker.phase.inside = true ∨ other ≠ process ∧ Inside world other := by
  by_cases same : other = process
  · subst other
    rw [Inside, set_self] at inside
    exact .inl ⟨rfl, inside⟩
  · rw [Inside, set_other world same] at inside
    exact .inr ⟨same, inside⟩

theorem ended_exclusive {world : World Process} (exclusive : Exclusive world) (process : Process)
    (phase : Phase) (leaves : phase.inside = true → Inside world process) :
    Exclusive ((world.release process).set process ⟨phase, false⟩) := by
  have was : ∀ other, Inside ((world.release process).set process ⟨phase, false⟩) other →
      Inside world other := by
    intro other inside
    rcases set_inside inside with ⟨rfl, stays⟩ | ⟨-, inside⟩
    · exact leaves stays
    · exact inside
  have held : ∀ other, (world.release process).holder = some other →
      world.holder = some other ∧ other ≠ process := by
    intro other holder
    simp only [World.release] at holder
    split at holder
    · cases holder
    · rename_i free
      refine ⟨holder, ?_⟩
      rintro rfl
      exact free holder
  constructor
  · intro other granted connected
    by_cases same : other = process
    · subst other
      rw [set_self] at connected
      cases connected
    · rw [set_other _ same] at granted connected
      have holder := exclusive.holds other granted connected
      have free : ¬ world.holder = some process := by
        rw [holder]
        simpa using same
      change (world.release process).holder = some other
      rw [World.release, if_neg free, holder]
  · intro other holder
    obtain ⟨holder, apart⟩ := held other holder
    rw [set_other _ apart]
    exact exclusive.connected other holder
  · intro first other holder inside
    exact exclusive.alone first other (held first holder).1 (was other inside)
  · intro first other one two
    exact exclusive.one first other (was first one) (was other two)

theorem move_exclusive {world : World Process} (exclusive : Exclusive world) (process : Process)
    (phase : Phase) (leaves : phase.inside = true → Inside world process)
    (granted : phase.granted = true → (world.workers process).phase.granted = true) :
    Exclusive (world.move process phase) := by
  have was : ∀ other, Inside (world.move process phase) other → Inside world other := by
    intro other inside
    rcases set_inside inside with ⟨rfl, stays⟩ | ⟨-, inside⟩
    · exact leaves stays
    · exact inside
  have connection : ∀ other, ((world.move process phase).workers other).connected =
      (world.workers other).connected := by
    intro other
    by_cases same : other = process
    · subst other
      rw [World.move, set_self]
    · rw [World.move, set_other world same]
  constructor
  · intro other now connected
    rw [connection] at connected
    by_cases same : other = process
    · subst other
      rw [World.move, set_self] at now
      exact exclusive.holds process (granted now) connected
    · rw [World.move, set_other world same] at now
      exact exclusive.holds other now connected
  · intro other holder
    rw [connection]
    exact exclusive.connected other holder
  · intro first other holder inside
    exact exclusive.alone first other holder (was other inside)
  · intro first other one two
    exact exclusive.one first other (was first one) (was other two)

/-- The lock goes to a process while nobody is inside `run_cycle`. -/
theorem grant_exclusive {world : World Process} (exclusive : Exclusive world) (process : Process)
    (connected : (world.workers process).connected = true) (free : world.holder = none)
    (vacated : ∀ other, Inside world other → (world.workers other).connected = true) :
    Exclusive ({ world with holder := some process }.move process .query) := by
  have nobody : ∀ other, ¬ Inside world other := by
    intro other inside
    have holder := exclusive.holds other (inside_granted inside) (vacated other inside)
    rw [free] at holder
    cases holder
  have outside : ∀ other, ¬ Inside ({ world with holder := some process }.move process .query)
      other := by
    intro other inside
    rcases set_inside inside with ⟨-, stays⟩ | ⟨-, inside⟩
    · cases stays
    · exact nobody other inside
  constructor
  · intro other granted still
    by_cases same : other = process
    · subst other
      rfl
    · rw [World.move, set_other _ same] at granted still
      have holder := exclusive.holds other granted still
      rw [free] at holder
      cases holder
  · intro other holder
    have same : process = other := Option.some.inj holder
    subst other
    rw [World.move, set_self]
    exact connected
  · exact fun _ other _ inside => absurd inside (outside other)
  · exact fun first _ inside _ => absurd inside (outside first)

theorem enter_exclusive {world : World Process} (exclusive : Exclusive world) (process : Process)
    (phase : (world.workers process).phase = .query)
    (connected : (world.workers process).connected = true) :
    Exclusive (world.move process (.cycle cycleJobs)) := by
  have holder := exclusive.holds process (by rw [phase]; rfl) connected
  have only : ∀ other, Inside (world.move process (.cycle cycleJobs)) other → other = process := by
    intro other inside
    rcases set_inside inside with ⟨same, -⟩ | ⟨-, inside⟩
    · exact same
    · exact exclusive.alone process other holder inside
  constructor
  · intro other granted still
    by_cases same : other = process
    · subst other
      exact holder
    · rw [World.move, set_other _ same] at granted still
      exact exclusive.holds other granted still
  · intro other held
    have same : process = other := Option.some.inj (holder.symm.trans held)
    subst other
    rw [World.move, set_self]
    exact connected
  · intro first other held inside
    have same : process = first := Option.some.inj (holder.symm.trans held)
    rw [only other inside, same]
  · intro first other one two
    rw [only first one, only other two]

theorem proceed_exclusive {before after : World Process} {process : Process}
    (exclusive : Exclusive before) (taken : before.proceed process = some after)
    (vacated : Vacated before (.proceed process)) : Exclusive after := by
  simp only [World.proceed] at taken
  -- The lock is granted in one phase only; in the others nobody comes to hold it.
  cases phase : (before.workers process).phase with
  | tryLock =>
      simp only [phase] at taken
      by_cases connected : (before.workers process).connected = true
      · rw [if_pos connected] at taken
        cases holder : before.holder with
        | none =>
            rw [holder] at taken
            cases taken
            exact grant_exclusive exclusive process connected holder
              (vacated phase connected holder)
        | some other =>
            rw [holder] at taken
            cases taken
            exact move_exclusive exclusive process .standby nofun nofun
      · rw [if_neg connected] at taken
        cases taken
        exact ended_exclusive exclusive process .exited nofun
  | standby =>
      simp only [phase] at taken
      cases taken
      exact move_exclusive exclusive process .tryLock nofun nofun
  | query =>
      simp only [phase] at taken
      by_cases connected : (before.workers process).connected = true
      · rw [if_pos connected] at taken
        cases taken
        exact enter_exclusive exclusive process phase connected
      · rw [if_neg connected] at taken
        cases taken
        exact ended_exclusive exclusive process .exited nofun
  | cycle jobs =>
      have inside : Inside before process := by
        rw [Inside, phase]
        rfl
      simp only [phase] at taken
      cases jobs with
      | nil =>
          cases taken
          exact move_exclusive exclusive process .sleep nofun fun _ => inside_granted inside
      | cons job rest =>
          cases taken
          exact move_exclusive exclusive process (.cycle rest) (fun _ => inside)
            fun _ => inside_granted inside
  | sleep =>
      simp only [phase] at taken
      cases taken
      exact move_exclusive exclusive process .query nofun fun _ => by rw [phase]; rfl
  | exited =>
      simp only [phase] at taken
      cases taken

theorem step_exclusive (before : World Process) (event : Event Process) (after : World Process)
    (exclusive : Exclusive before) (taken : Guarded Vacated Steps before event after) :
    Exclusive after := by
  obtain ⟨taken, vacated⟩ := taken
  cases event with
  | proceed process => exact proceed_exclusive exclusive taken vacated
  | work process =>
      simp only [Steps, World.step] at taken
      split at taken
      · cases taken
        exact exclusive
      · cases taken
  | drop process =>
      cases taken
      exact ended_exclusive exclusive process _ id
  | stop process =>
      cases taken
      exact ended_exclusive exclusive process .exited nofun

omit [DecidableEq Process] in
theorem started_exclusive : Exclusive (started : World Process) where
  holds _ := nofun
  connected _ := nofun
  alone _ _ := nofun
  one _ _ := nofun

/-- At most one process is inside `run_cycle`, in every run in which the lock
is never granted over a process that lost it in the middle of a cycle. -/
theorem single_worker {after : World Process} {events : List (Event Process)}
    (run : Run (Guarded Vacated Steps) started events after) (first second : Process)
    (one : Inside after first) (two : Inside after second) : first = second :=
  (run_invariant step_exclusive run started_exclusive).one first second one two

/-- The first worker loses its connection between two cycles; the standby is
granted the lock and is in its own cycle when the first one finds out. -/
def handover : List (Event Bool) :=
  List.replicate 3 (.proceed true) ++ [.proceed false] ++ List.replicate 5 (.proceed true) ++
    [.drop true, .proceed false, .proceed false, .proceed true, .proceed false, .proceed true]

instance (world : World Bool) : (event : Event Bool) → Decidable (Vacated world event)
  | .proceed process => inferInstanceAs (Decidable
      ((world.workers process).phase = .tryLock → (world.workers process).connected = true →
        world.holder = none → ∀ other, (world.workers other).phase.inside = true →
          (world.workers other).connected = true))
  | .work _ => inferInstanceAs (Decidable True)
  | .drop _ => inferInstanceAs (Decidable True)
  | .stop _ => inferInstanceAs (Decidable True)

theorem single_worker_handover : ∃ after, Run (Guarded Vacated Steps) started handover after ∧
    Inside after false ∧ (after.workers true).phase = .exited ∧
      ∀ first second, Inside after first → Inside after second → first = second := by
  have passed : (follow World.step (fun world event => decide (Vacated world event)) started
      handover).any (fun world => (world.workers false).phase.inside &&
        decide ((world.workers true).phase = .exited)) = true := by decide
  obtain ⟨after, run, checked⟩ := follow_guarded passed
  obtain ⟨inside, gone⟩ := (Bool.and_eq_true _ _).mp checked
  have vacated : Run (Guarded Vacated Steps) started handover after :=
    run_mono (fun _ _ _ taken => ⟨taken.1, of_decide_eq_true taken.2⟩) run
  exact ⟨after, vacated, inside, of_decide_eq_true gone, single_worker vacated⟩

/-- Where the lock is granted over such a process, two more steps bring a
second one into `run_cycle` beside it. -/
theorem unvacated_overlap {world : World Process} {process : Process}
    (taken : ¬ Vacated world (.proceed process)) : ∃ after other,
    Run Steps world [.proceed process, .proceed process] after ∧ process ≠ other ∧
      Inside after process ∧ Inside after other := by
  simp only [Vacated, Classical.not_imp, not_forall] at taken
  obtain ⟨phase, connected, free, other, inside, lost⟩ := taken
  have apart : other ≠ process := by
    rintro rfl
    exact lost connected
  let granted := World.move { world with holder := some process } process .query
  have first : Steps world (.proceed process) granted := by
    simp only [Steps, World.step, World.proceed, phase, connected, free, if_true]
    rfl
  have second : Steps granted (.proceed process) (granted.move process (.cycle cycleJobs)) := by
    have here : granted.workers process = { world.workers process with phase := .query } :=
      set_self _ _ _
    simp only [Steps, World.step, World.proceed, here, connected, if_true]
  refine ⟨granted.move process (.cycle cycleJobs), other, run_cons first (run_single second),
    Ne.symm apart, ?_, ?_⟩
  · rw [Inside, World.move, set_self]
    rfl
  · have still : (granted.move process (.cycle cycleJobs)).workers other = world.workers other :=
      (set_other _ apart _).trans (set_other _ apart _)
    rw [Inside, still]
    exact inside

/-- Two workers: the first loses its connection in the middle of a cycle, and
the standby takes over. -/
def lostMidCycle : List (Event Bool) :=
  [.proceed true, .proceed true, .work true, .proceed false, .drop true, .work true,
    .proceed false, .proceed false, .proceed false]

theorem two_workers : ∃ (events : List (Event Bool)) (after : World Bool),
    Run Steps started events after ∧ ∃ first second, first ≠ second ∧
      Inside after first ∧ Inside after second := by
  let bothInside : World Bool → Bool := fun world =>
    (world.workers true).phase.inside && (world.workers false).phase.inside
  have passed : (follow World.step (fun _ _ => true) started lostMidCycle).any bothInside := by
    decide
  obtain ⟨after, run, checked⟩ := follow_guarded passed
  rw [Bool.and_eq_true] at checked
  exact ⟨lostMidCycle, after, guarded_run run, true, false, by decide, checked.1, checked.2⟩

end SecureFileSystem.WorkerLock
