import SecureFileSystem.RelyGuarantee

/-!
Progress beside safety. A program is able if the request it waits at is ready to
be answered, wherever the others may have led. Where ready requests can be
answered, an able program can always be brought to its end.
-/

namespace SecureFileSystem.Progress

open Transition Program RelyGuarantee

variable {State Tid Job Env Op Out Mid : Type} {Res : Op → Type}

/-- Every request the program comes to is ready when it waits at it. -/
def Able (sys : System State Tid Job Env Op Res Out) (contract : Contract State Tid Job Env Op Res Out)
    (thread : Tid) (ready : Op → State → Prop) : Prog Op Res Mid → State → Prop
  | .ret _, _ => True
  | .op request next, state => ∀ later, Interference contract thread state later →
      contract.inv later → ready request later ∧ ∀ answer after,
        sys.exec thread later request answer = some after →
        contract.allowed later (.act thread request answer) →
          Able sys contract thread ready (next answer) after

structure Sure (sys : System State Tid Job Env Op Res Out)
    (contract : Contract State Tid Job Env Op Res Out) (thread : Tid) (ready : Op → State → Prop)
    (post : Mid → State → Prop) (prog : Prog Op Res Mid) (state : State) : Prop where
  safe : Safe sys contract thread post prog state
  able : Able sys contract thread ready prog state

section Rules
variable {sys : System State Tid Job Env Op Res Out} {contract : Contract State Tid Job Env Op Res Out}
  {thread : Tid} {ready : Op → State → Prop} {post : Mid → State → Prop}

theorem able_interference {prog : Prog Op Res Mid} {before after : State}
    (moved : Interference contract thread before after)
    (able : Able sys contract thread ready prog before) :
    Able sys contract thread ready prog after := by
  cases prog with
  | ret out => trivial
  | op request next => exact fun later further => able later (moved.trans further)

theorem able_of_later {prog : Prog Op Res Mid} {state : State}
    (able : ∀ later, Interference contract thread state later → contract.inv later →
      Able sys contract thread ready prog later) : Able sys contract thread ready prog state := by
  cases prog with
  | ret out => trivial
  | op request next => exact fun later moved held => able later moved held later .refl held

theorem sure_ret {holds : State → Prop} (stable : Stable contract thread holds) {out : Mid}
    {state : State} (start : holds state)
    (done : ∀ later, contract.inv later → holds later → post out later) :
    Sure sys contract thread ready post (.ret out) state :=
  ⟨safe_ret stable start done, trivial⟩

theorem sure_op {holds : State → Prop} (stable : Stable contract thread holds) {request : Op}
    {next : Res request → Prog Op Res Mid} {state : State} (start : holds state)
    (answerable : ∀ later, contract.inv later → holds later → ready request later)
    (step : ∀ later answer after, contract.inv later → holds later →
      sys.exec thread later request answer = some after →
      contract.allowed later (.act thread request answer) →
        contract.guar thread later after ∧
          Sure sys contract thread ready post (next answer) after) :
    Sure sys contract thread ready post (.op request next) state := by
  constructor
  · apply safe_op stable start
    intro later answer after held holds done may
    obtain ⟨guar, sure⟩ := step later answer after held holds done may
    exact ⟨guar, sure.safe⟩
  · intro later moved held
    have now := interference_stable stable moved start
    refine ⟨answerable later held now, fun answer after done may => ?_⟩
    exact (step later answer after held now done may).2.able

theorem sure_bind {Between : Type} {mid : Between → State → Prop} {first : Prog Op Res Between}
    {rest : Between → Prog Op Res Mid} {state : State}
    (head : Sure sys contract thread ready mid first state)
    (tail : ∀ out later, contract.inv later → mid out later →
      Sure sys contract thread ready post (rest out) later) :
    Sure sys contract thread ready post (first.bind rest) state := by
  constructor
  · exact safe_bind head.safe fun out later held between => (tail out later held between).safe
  · obtain ⟨safe, able⟩ := head
    induction first generalizing state with
    | ret out =>
        exact able_of_later fun later moved held => (tail out later held (safe later moved held)).able
    | op request next ih =>
        intro later moved held
        obtain ⟨now, further⟩ := able later moved held
        refine ⟨now, fun answer after done may => ?_⟩
        exact ih answer (safe later moved held answer after done may).2 (further answer after done may)

theorem sure_mono {weaker : Mid → State → Prop} {prog : Prog Op Res Mid} {state : State}
    (sure : Sure sys contract thread ready post prog state)
    (weaken : ∀ out later, contract.inv later → post out later → weaker out later) :
    Sure sys contract thread ready weaker prog state :=
  ⟨safe_mono sure.safe weaken, sure.able⟩

theorem sure_map {Between : Type} {change : Between → Mid} {prog : Prog Op Res Between}
    {state : State}
    (sure : Sure sys contract thread ready (fun out => post (change out)) prog state) :
    Sure sys contract thread ready post (prog.bind fun out => .ret (change out)) state := by
  refine ⟨safe_map sure.safe, ?_⟩
  obtain ⟨-, able⟩ := sure
  induction prog generalizing state with
  | ret out => trivial
  | op request next ih =>
      intro later moved held
      obtain ⟨now, further⟩ := able later moved held
      exact ⟨now, fun answer after done may => ih answer (further answer after done may)⟩

end Rules

section Runs
variable [DecidableEq Tid] {sys : System State Tid Job Env Op Res Out}
  {contract : Contract State Tid Job Env Op Res Out} {thread : Tid} {ready : Op → State → Prop}
  {before after : Config State Tid Job Op Res Out} {labels : List (Label Tid Job Env Op Res Out)}
  {job : Job} {rest : Prog Op Res Out}

structure Moving (sys : System State Tid Job Env Op Res Out)
    (contract : Contract State Tid Job Env Op Res Out) (thread : Tid) (ready : Op → State → Prop)
    (config : Config State Tid Job Op Res Out) : Prop where
  safe : AllSafe sys contract config
  able : ∀ job rest, config.threads thread = .running job rest →
    Able sys contract thread ready rest config.shared

theorem step_moving (composes : Composes sys contract)
    (quiet : ∀ thread job state, ¬ contract.allowed state (.start thread job))
    {label : Label Tid Job Env Op Res Out} (moving : Moving sys contract thread ready before)
    (taken : Allowed sys contract before label after) : Moving sys contract thread ready after := by
  have begins : ∀ thread job state, contract.inv state → sys.starts thread job = true →
      contract.allowed state (.start thread job) →
        Safe sys contract thread (contract.post thread job) (sys.program job) state :=
    fun thread job state _ _ may => absurd may (quiet thread job state)
  have safe := (step_safe composes begins moving.safe taken.1 taken.2).1
  refine ⟨safe, fun job rest running => ?_⟩
  obtain ⟨step, may⟩ := taken
  cases step with
  | start _ _ => exact absurd may (quiet _ _ _)
  | @act acting begun request next answer shared at_op done =>
      simp only [threads_set] at running
      by_cases mine : thread = acting
      · subst mine
        rw [if_pos rfl] at running
        cases running
        exact (moving.able _ _ at_op before.shared .refl moving.safe.inv).2 answer shared done may
      · rw [if_neg mine] at running
        have guar := (moving.safe.threads acting begun _ at_op before.shared .refl moving.safe.inv
          answer shared done may).1
        have relies := composes.guar_rely thread acting _ _ mine moving.safe.inv guar
        exact able_interference (.single ⟨moving.safe.inv, safe.inv, relies⟩)
          (moving.able job rest running)
  | fail at_op =>
      rw [threads_set] at running
      split at running
      · cases running
      · exact moving.able job rest running
  | finish at_ret =>
      rw [threads_set] at running
      split at running
      · cases running
      · exact moving.able job rest running
  | env done =>
      have relies := composes.env_rely thread _ _ _ moving.safe.inv done may
      exact able_interference (.single ⟨moving.safe.inv, safe.inv, relies⟩)
        (moving.able job rest running)

theorem run_moving (composes : Composes sys contract)
    (quiet : ∀ thread job state, ¬ contract.allowed state (.start thread job))
    (moving : Moving sys contract thread ready before)
    (run : Run (Allowed sys contract) before labels after) :
    Moving sys contract thread ready after := by
  induction run with
  | refl => exact moving
  | next _ taken ih => exact step_moving composes quiet ih taken

/-- Where ready requests can be answered, the thread can be brought to the end of its program. -/
theorem run_returns (composes : Composes sys contract)
    (quiet : ∀ thread job state, ¬ contract.allowed state (.start thread job))
    (answers : ∀ labels config request next, Run (Allowed sys contract) before labels config →
      contract.inv config.shared → config.threads thread = .running job (.op request next) →
      ready request config.shared → ∃ more middle answer last,
        Run (Allowed sys contract) config more middle ∧
        Allowed sys contract middle (.act thread request answer) last ∧
        last.threads thread = .running job (next answer))
    (moving : Moving sys contract thread ready before)
    (run : Run (Allowed sys contract) before labels after)
    (running : after.threads thread = .running job rest) :
    ∃ more last out, Run (Allowed sys contract) after more last ∧
      last.threads thread = .running job (.ret out) := by
  induction rest generalizing after labels with
  | ret out => exact ⟨[], after, out, .refl, running⟩
  | op request next ih =>
      have now := run_moving composes quiet moving run
      have ready := (now.able job _ running after.shared .refl now.safe.inv).1
      obtain ⟨more, middle, answer, last, further, taken, resumed⟩ :=
        answers labels after request next run now.safe.inv running ready
      have step := Run.next further taken
      obtain ⟨others, final, out, rest, ends⟩ := ih answer (run_append run step) resumed
      exact ⟨_, final, out, run_append step rest, ends⟩

end Runs

end SecureFileSystem.Progress
