import SecureFileSystem.Program

/-!
Forward simulation between two levels of a design. A step of the lower level is
shown by a few steps of the upper one, or by none; two pools of the same
programs are related by relating their shared states.
-/

namespace SecureFileSystem.Simulation

open Transition Program

section Runs
variable {Low High LowLabel HighLabel : Type} {low : Low → LowLabel → Low → Prop}
  {high : High → HighLabel → High → Prop} {alike : Low → High → Prop}
  {shows : LowLabel → List HighLabel → Prop} {before after : Low} {labels : List LowLabel}

def Simulates (low : Low → LowLabel → Low → Prop) (high : High → HighLabel → High → Prop)
    (alike : Low → High → Prop) (shows : LowLabel → List HighLabel → Prop) : Prop :=
  ∀ before label after twin, alike before twin → low before label after →
    ∃ shown next, Run high twin shown next ∧ shows label shown ∧ alike after next

theorem run_simulated (simulates : Simulates low high alike shows)
    (run : Run low before labels after) {twin : High} (start : alike before twin) :
    ∃ shown last, Run high twin shown.flatten last ∧ List.Forall₂ shows labels shown ∧
      alike after last := by
  induction run with
  | refl => exact ⟨[], twin, .refl, .nil, start⟩
  | next _ taken ih =>
      obtain ⟨shown, middle, ran, explained, related⟩ := ih
      obtain ⟨more, last, moved, now, there⟩ := simulates _ _ _ middle related taken
      refine ⟨shown ++ [more], last, ?_, ?_, there⟩
      · rw [List.flatten_append, List.flatten_singleton]
        exact run_append ran moved
      · exact List.rel_append explained (.cons now .nil)

/-- What the last state bounds bounded every state before it. -/
theorem run_within {bound : Low → Prop}
    (earlier : ∀ before label after, low before label after → bound after → bound before)
    (run : Run low before labels after) (within : bound after) :
    Run (Guarded (fun state _ => bound state) low) before labels after := by
  induction run with
  | refl => exact .refl
  | next _ taken ih =>
      have there := earlier _ _ _ taken within
      exact .next (ih there) ⟨taken, there⟩

end Runs

section Pools
variable {State Twin Tid Job Env Event Op Out : Type} {Res : Op → Type}

/-- Two pools of the same programs: from states that may be reached, what the
lower one answers the upper one answers too, and its events are shown by events
of the upper one. -/
structure Implements (lower : System State Tid Job Env Op Res Out)
    (upper : System Twin Tid Job Event Op Res Out) (may : State → Prop)
    (alike : State → Twin → Prop) (shows : Env → List Event → Prop) : Prop where
  program : ∀ job, upper.program job = lower.program job
  starts : ∀ thread job, lower.starts thread job = true → upper.starts thread job = true
  restarts : ∀ thread, lower.restarts thread = true → upper.restarts thread = true
  exec : ∀ thread before twin request answer after, may before → alike before twin →
    lower.exec thread before request answer = some after →
      ∃ next, upper.exec thread twin request answer = some next ∧ alike after next
  env : ∀ before twin event after, may before → alike before twin →
    lower.env before event = some after →
      ∃ events next, Run (fun state event next => upper.env state event = some next) twin events
        next ∧ shows event events ∧ alike after next

inductive Shown (shows : Env → List Event → Prop) :
    Label Tid Job Env Op Res Out → List (Label Tid Job Event Op Res Out) → Prop
  | start (thread : Tid) (job : Job) : Shown shows (.start thread job) [.start thread job]
  | act (thread : Tid) (request : Op) (answer : Res request) :
      Shown shows (.act thread request answer) [.act thread request answer]
  | fail (thread : Tid) : Shown shows (.fail thread) [.fail thread]
  | finish (thread : Tid) (job : Job) (out : Out) :
      Shown shows (.finish thread job out) [.finish thread job out]
  | env {event : Env} {events : List Event} (explained : shows event events) :
      Shown shows (.env event) (events.map .env)

structure Alike (alike : State → Twin → Prop) (config : Config State Tid Job Op Res Out)
    (twin : Config Twin Tid Job Op Res Out) : Prop where
  shared : alike config.shared twin.shared
  threads : twin.threads = config.threads

def visible : Label Tid Job Env Op Res Out → Option (Label Tid Job Empty Op Res Out)
  | .start thread job => some (.start thread job)
  | .act thread request answer => some (.act thread request answer)
  | .fail thread => some (.fail thread)
  | .finish thread job out => some (.finish thread job out)
  | .env _ => none

theorem shown_visible {shows : Env → List Event → Prop} {labels : List (Label Tid Job Env Op Res Out)}
    {shown : List (List (Label Tid Job Event Op Res Out))}
    (explained : List.Forall₂ (Shown shows) labels shown) :
    shown.flatten.filterMap visible = labels.filterMap visible := by
  induction explained with
  | nil => rfl
  | @cons label own labels shown now _ ih =>
      rw [List.flatten_cons, List.filterMap_append, ih]
      cases now with
      | @env event events explained =>
          have none : (events.map fun one =>
              (.env one : Label Tid Job Event Op Res Out)).filterMap visible = [] := by
            rw [List.filterMap_map]
            exact List.filterMap_eq_nil_iff.mpr fun _ _ => rfl
          rw [none]
          rfl
      | _ => rfl

variable [DecidableEq Tid] {lower : System State Tid Job Env Op Res Out}
  {upper : System Twin Tid Job Event Op Res Out} {may : State → Prop}
  {alike : State → Twin → Prop} {shows : Env → List Event → Prop}

theorem alike_set {config : Config State Tid Job Op Res Out}
    {twin : Config Twin Tid Job Op Res Out} (related : Alike alike config twin) (thread : Tid)
    (status : Status Job Op Res Out) :
    Alike alike (config.set thread status) (twin.set thread status) := by
  constructor
  · exact related.shared
  · simp only [Config.set, related.threads]

theorem events_run {config : Config Twin Tid Job Op Res Out} {events : List Event} {next : Twin}
    (run : Run (fun state event next => upper.env state event = some next) config.shared events
      next) :
    Run (Step upper) config (events.map .env) { config with shared := next } := by
  induction run with
  | refl => exact .refl
  | next _ moved ih =>
      rw [List.map_append]
      exact .next ih (Step.env moved)

theorem step_simulated (implements : Implements lower upper may alike shows) :
    Simulates (Guarded (fun config _ => may config.shared) (Step lower)) (Step upper)
      (Alike alike) (Shown shows) := by
  rintro before label after twin related ⟨taken, within⟩
  cases taken with
  | @start thread job idle starts =>
      have ready : Idle upper thread (twin.threads thread) := by
        rw [related.threads]
        cases status : before.threads thread with
        | fresh => trivial
        | running job rest =>
            rw [status] at idle
            exact idle.elim
        | ended =>
            rw [status] at idle
            exact implements.restarts thread idle
      have begun := Step.start ready (implements.starts thread job starts)
      rw [implements.program] at begun
      exact ⟨_, _, run_single begun, .start thread job, alike_set related thread _⟩
  | @act thread job request next answer shared at_op done =>
      obtain ⟨state, answered, there⟩ :=
        implements.exec thread _ _ _ _ _ within related.shared done
      rw [← related.threads] at at_op
      refine ⟨_, _, run_single (Step.act at_op answered), .act thread request answer, there, ?_⟩
      exact (alike_set related thread _).threads
  | @fail thread job request next at_op =>
      rw [← related.threads] at at_op
      exact ⟨_, _, run_single (Step.fail at_op), .fail thread, alike_set related thread _⟩
  | @finish thread job out at_ret =>
      rw [← related.threads] at at_ret
      exact ⟨_, _, run_single (Step.finish at_ret), .finish thread job out,
        alike_set related thread _⟩
  | @env event shared done =>
      obtain ⟨events, state, moved, explained, there⟩ :=
        implements.env _ _ _ _ within related.shared done
      exact ⟨_, _, events_run moved, .env explained, there, related.threads⟩

/-- A run of the lower pool whose states may be reached is a run of the upper one. -/
theorem pool_simulated (implements : Implements lower upper may alike shows)
    {before after : Config State Tid Job Op Res Out} {labels : List (Label Tid Job Env Op Res Out)}
    (run : Run (Guarded (fun config _ => may config.shared) (Step lower)) before labels after)
    {twin : Config Twin Tid Job Op Res Out} (start : Alike alike before twin) :
    ∃ shown last, Run (Step upper) twin shown.flatten last ∧
      List.Forall₂ (Shown shows) labels shown ∧ Alike alike after last :=
  run_simulated (step_simulated implements) run start

end Pools

end SecureFileSystem.Simulation
