import SecureFileSystem.Attempts
import SecureFileSystem.Service

/-!
`Maintenance.run_cycle`: the worker's jobs in their order, each under a `try`
of its own. The results about the service let the worker run one job after
another in any order; its cycles are runs of that kind.
-/

namespace SecureFileSystem.WorkerCycle

open Session Maintenance Service SecureFileSystem.Configuration Program Transition Attempts

/-- The counters are those of the `Maintenance` object. -/
def cycleJobs (settings : Settings) (failures : Failures) : List Job :=
  [.checkNodeHealth settings failures, .gcStaleUploads settings, .gcDeletedFiles,
    .repairLostShards settings, .scrub settings]

/-- An exception in a job is logged, and the next job runs. -/
def runCycle (platform : Base.Platform) (settings : Settings) (failures : Failures) :
    Prog Op (Raising Res) (List (Option Outcome)) :=
  batch (program platform) (cycleJobs settings failures)

/-- The API processes, where an exception ends its request, and a worker that
runs cycles. -/
def deployment (platform : Base.Platform) :
    System Shared Tid (List Job) Event Op (Raising Res) (List (Option Outcome)) :=
  batched (service platform)

abbrev DeploymentConfig := BatchConfig Shared Tid Job Op Res Outcome
abbrev DeploymentLabel := BatchLabel Tid Job Event Op Res Outcome

/-- An API thread serves one request, and the worker starts whole cycles. -/
def scheduled : DeploymentConfig → DeploymentLabel → Bool
  | _, .start (.api _) jobs => jobs.length = 1
  | _, .start .worker jobs =>
      match jobs with
      | [.checkNodeHealth _ _, .gcStaleUploads _, .gcDeletedFiles, .repairLostShards _, .scrub _] =>
          true
      | _ => false
  | _, _ => true

def installed (clock : Nat) : DeploymentConfig where
  shared := (deployed clock).shared
  threads := fun _ => .fresh

theorem cycle_scheduled (config : DeploymentConfig) (settings : Settings) (failures : Failures) :
    scheduled config (.start .worker (cycleJobs settings failures)) = true := rfl

theorem runCycle_deployed (platform : Base.Platform) (settings : Settings) (failures : Failures) :
    (deployment platform).program (cycleJobs settings failures) =
      runCycle platform settings failures := rfl

structure Refines (taken : List DeploymentLabel) (outer : DeploymentConfig)
    (labels : List ServiceLabel) (inner : ServiceConfig) : Prop where
  shared : inner.shared = outer.shared
  /-- the same requests with the same answers and the same events, in the same order -/
  effects : labels.filter effective = taken.filterMap effect
  /-- no job of a finished cycle was left out, whatever the others raised -/
  complete : ∀ settings failures outs,
    .finish .worker (cycleJobs settings failures) outs ∈ taken → outs.length = 5
  /-- each ran to the end that its cycle saw -/
  jobs : ∀ thread, (reported thread taken).Sublist (ran thread labels).2

/-- A deployment whose worker runs cycles, in which any job may raise anywhere
and the worker may be killed and replaced, does what the service may do. -/
theorem cycles_refine (platform : Base.Platform) (clock : Nat) (taken : List DeploymentLabel)
    (outer : DeploymentConfig)
    (run : Run (Guarded (fun config label => scheduled config label = true)
      (Step (deployment platform))) (installed clock) taken outer) :
    ∃ inner labels, Run (Step (service platform)) (deployed clock) labels inner ∧
      Refines taken outer labels inner := by
  obtain ⟨inner, labels, ran, together⟩ := batches_refine (fun _ => rfl) (guarded_run run)
  refine ⟨inner, labels, ran, together.shared, together.effects, ?_, ?_⟩
  · intro settings failures outs member
    exact together.whole _ _ _ member
  · intro thread
    exact matched_reports (together.threads thread)

/-- The health check raises at its first statement, and the cycle goes on. -/
def raisingCycle : List (Move Shared Tid (List Job) Event Op (Raising Res)) :=
  let answers (shared : Shared) (request : Op) : Option (Raising Res request) :=
    (prompt shared request).map some
  [.start .worker (cycleJobs smallSettings fun _ => 0), .act .worker fun _ _ => some none] ++
    List.replicate 6 (.act .worker answers) ++ [.finish .worker]

theorem cycles_refine_raising : ∃ taken outer inner labels,
    Run (Guarded (fun config label => scheduled config label = true) (Step (deployment Base.plain)))
      (installed 0) taken outer ∧
    Run (Step (service Base.plain)) (deployed 0) labels inner ∧ Refines taken outer labels inner := by
  obtain ⟨taken, outer, run, _⟩ := drive_guarded (deployment Base.plain) scheduled (installed 0)
    raisingCycle (fun taken _ => taken.length = 9) (by decide +kernel)
  obtain ⟨inner, labels, ran, refines⟩ := cycles_refine Base.plain 0 taken outer run
  exact ⟨taken, outer, inner, labels, run, ran, refines⟩

end SecureFileSystem.WorkerCycle
