import SecureFileSystem.Program

/-!
Rely-guarantee reasoning for pools of programs. A contract fixes an invariant
of the shared state, what each thread may rely on while others move, and what
it guarantees of its own steps. `Safe` follows one program through its answers
while the others interfere between any two of them; `run_safe` puts the
threads back together for every interleaving.
-/

namespace SecureFileSystem.RelyGuarantee

open Transition Program

variable {State Tid Job Env Op Out Mid : Type} {Res : Op → Type}

structure Contract (State Tid Job Env Op : Type) (Res : Op → Type) (Out : Type) where
  inv : State → Prop
  rely : Tid → State → State → Prop
  guar : Tid → State → State → Prop
  post : Tid → Job → Out → State → Prop
  /-- the steps a run may take, judged in the state before them -/
  allowed : State → Label Tid Job Env Op Res Out → Prop

variable (sys : System State Tid Job Env Op Res Out) (contract : Contract State Tid Job Env Op Res Out)

/-- What the others may do between two steps of `thread`. -/
def Interference (thread : Tid) : State → State → Prop :=
  Relation.ReflTransGen fun before after =>
    contract.inv before ∧ contract.inv after ∧ contract.rely thread before after

/-- An assertion the others cannot falsify. -/
def Stable (thread : Tid) (holds : State → Prop) : Prop :=
  ∀ before after, contract.inv before → contract.inv after → contract.rely thread before after →
    holds before → holds after

/-- Every step the program takes from here keeps the guarantee, and `post`
holds when it ends, whatever the others do in between. -/
def Safe (thread : Tid) (post : Mid → State → Prop) : Prog Op Res Mid → State → Prop
  | .ret out, state => ∀ later, Interference contract thread state later →
      contract.inv later → post out later
  | .op request next, state => ∀ later, Interference contract thread state later →
      contract.inv later → ∀ answer after, sys.exec thread later request answer = some after →
        contract.allowed later (.act thread request answer) →
          contract.guar thread later after ∧ Safe thread post (next answer) after

variable {sys contract} {thread : Tid} {post : Mid → State → Prop}

theorem interference_stable {holds : State → Prop} (stable : Stable contract thread holds)
    {before after : State} (moved : Interference contract thread before after)
    (start : holds before) : holds after := by
  induction moved with
  | refl => exact start
  | tail _ one ih => exact stable _ _ one.1 one.2.1 one.2.2 ih

theorem stable_and {left right : State → Prop} (first : Stable contract thread left)
    (second : Stable contract thread right) :
    Stable contract thread fun state => left state ∧ right state :=
  fun before after start finish rely both =>
    ⟨first before after start finish rely both.1, second before after start finish rely both.2⟩

theorem stable_const (fact : Prop) : Stable contract thread fun _ => fact :=
  fun _ _ _ _ _ held => held

/-- Interference before the first step changes nothing. -/
theorem safe_interference {prog : Prog Op Res Mid} {before after : State}
    (moved : Interference contract thread before after)
    (safe : Safe sys contract thread post prog before) :
    Safe sys contract thread post prog after := by
  cases prog with
  | ret out => exact fun later further => safe later (moved.trans further)
  | op request next => exact fun later further => safe later (moved.trans further)

theorem safe_of_later {prog : Prog Op Res Mid} {state : State}
    (safe : ∀ later, Interference contract thread state later → contract.inv later →
      Safe sys contract thread post prog later) :
    Safe sys contract thread post prog state := by
  cases prog with
  | ret out => exact fun later moved held => safe later moved held later .refl held
  | op request next => exact fun later moved held => safe later moved held later .refl held

theorem safe_ret {holds : State → Prop} (stable : Stable contract thread holds) {out : Mid}
    {state : State} (start : holds state)
    (done : ∀ later, contract.inv later → holds later → post out later) :
    Safe sys contract thread post (.ret out) state :=
  fun later moved held => done later held (interference_stable stable moved start)

theorem safe_op {holds : State → Prop} (stable : Stable contract thread holds) {request : Op}
    {next : Res request → Prog Op Res Mid} {state : State} (start : holds state)
    (step : ∀ later answer after, contract.inv later → holds later →
      sys.exec thread later request answer = some after →
      contract.allowed later (.act thread request answer) →
        contract.guar thread later after ∧ Safe sys contract thread post (next answer) after) :
    Safe sys contract thread post (.op request next) state :=
  fun later moved held answer after done may =>
    step later answer after held (interference_stable stable moved start) done may

theorem safe_bind {Between : Type} {mid : Between → State → Prop} {first : Prog Op Res Between}
    {rest : Between → Prog Op Res Mid} {state : State}
    (head : Safe sys contract thread mid first state)
    (tail : ∀ out later, contract.inv later → mid out later →
      Safe sys contract thread post (rest out) later) :
    Safe sys contract thread post (first.bind rest) state := by
  induction first generalizing state with
  | ret out =>
      exact safe_of_later fun later moved held => tail out later held (head later moved held)
  | op request next ih =>
      intro later moved held answer after done may
      obtain ⟨guar, safe⟩ := head later moved held answer after done may
      exact ⟨guar, ih answer safe⟩

theorem safe_map {Between : Type} {change : Between → Mid} {prog : Prog Op Res Between}
    {state : State} (safe : Safe sys contract thread (fun out => post (change out)) prog state) :
    Safe sys contract thread post (prog.bind fun out => .ret (change out)) state := by
  induction prog generalizing state with
  | ret out => exact safe
  | op request next ih =>
      intro later moved held answer after done may
      obtain ⟨guar, rest⟩ := safe later moved held answer after done may
      exact ⟨guar, ih answer rest⟩

theorem safe_mono {weaker : Mid → State → Prop} {prog : Prog Op Res Mid} {state : State}
    (safe : Safe sys contract thread post prog state)
    (weaken : ∀ out later, contract.inv later → post out later → weaker out later) :
    Safe sys contract thread weaker prog state := by
  induction prog generalizing state with
  | ret out => exact fun later moved held => weaken out later held (safe later moved held)
  | op request next ih =>
      intro later moved held answer after done may
      obtain ⟨guar, rest⟩ := safe later moved held answer after done may
      exact ⟨guar, ih answer rest⟩

/-- What is safe under one contract is safe under another that expects less of
the program and grants more. -/
theorem safe_contract (contract other : Contract State Tid Job Env Op Res Out)
    (inv : ∀ state, other.inv state → contract.inv state)
    (rely : ∀ before after, other.rely thread before after → contract.rely thread before after)
    (guar : ∀ before after, contract.guar thread before after → other.guar thread before after)
    (allowed : ∀ state label, other.allowed state label → contract.allowed state label)
    {prog : Prog Op Res Mid} {state : State} (safe : Safe sys contract thread post prog state) :
    Safe sys other thread post prog state := by
  have moved : ∀ before after, Interference other thread before after →
      Interference contract thread before after := by
    intro before after
    refine Relation.ReflTransGen.mono (fun _ _ one => ?_) before after
    exact ⟨inv _ one.1, inv _ one.2.1, rely _ _ one.2.2⟩
  induction prog generalizing state with
  | ret out => exact fun later further held => safe later (moved _ _ further) (inv later held)
  | op request next ih =>
      intro later further held answer after done may
      obtain ⟨kept, rest⟩ := safe later (moved _ _ further) (inv later held) answer after done
        (allowed _ _ may)
      exact ⟨guar _ _ kept, ih answer rest⟩

theorem safe_only {kind : Op → Prop} {holds : State → Prop} {fact : Mid → Prop}
    (stable : Stable contract thread holds) {prog : Prog Op Res Mid} (only : prog.Only kind)
    (ends : prog.Ends fact) {state : State} (start : holds state)
    (kept : ∀ before request answer after, kind request → contract.inv before → holds before →
      sys.exec thread before request answer = some after →
      contract.allowed before (.act thread request answer) →
        contract.guar thread before after ∧ holds after) :
    Safe sys contract thread (fun out later => fact out ∧ holds later) prog state := by
  induction prog generalizing state with
  | ret out => exact safe_ret stable start fun _ _ held => ⟨ends, held⟩
  | op request next ih =>
      refine safe_op stable start fun later answer after inv held done may => ?_
      obtain ⟨guar, after_held⟩ := kept later request answer after only.1 inv held done may
      exact ⟨guar, ih answer (only.2 answer) (ends answer) after_held⟩

/-- The side conditions under which contracts of single threads compose. -/
structure Composes (sys : System State Tid Job Env Op Res Out)
    (contract : Contract State Tid Job Env Op Res Out) : Prop where
  guar_inv : ∀ thread before after, contract.inv before → contract.guar thread before after →
    contract.inv after
  guar_rely : ∀ thread other before after, thread ≠ other → contract.inv before →
    contract.guar other before after → contract.rely thread before after
  env_inv : ∀ before event after, contract.inv before → sys.env before event = some after →
    contract.allowed before (.env event) → contract.inv after
  env_rely : ∀ thread before event after, contract.inv before →
    sys.env before event = some after → contract.allowed before (.env event) →
      contract.rely thread before after

structure AllSafe (sys : System State Tid Job Env Op Res Out)
    (contract : Contract State Tid Job Env Op Res Out)
    (config : Config State Tid Job Op Res Out) : Prop where
  inv : contract.inv config.shared
  threads : ∀ thread job rest, config.threads thread = .running job rest →
    Safe sys contract thread (contract.post thread job) rest config.shared

def Kept (contract : Contract State Tid Job Env Op Res Out)
    (before : Config State Tid Job Op Res Out) (label : Label Tid Job Env Op Res Out)
    (after : Config State Tid Job Op Res Out) : Prop :=
  match label with
  | .act thread _ _ => contract.guar thread before.shared after.shared
  | .finish thread job out =>
      after.shared = before.shared ∧ contract.post thread job out before.shared
  | .start _ _ | .fail _ => after.shared = before.shared
  | .env _ => True

variable [DecidableEq Tid]

theorem threads_set (config : Config State Tid Job Op Res Out) (thread other : Tid)
    (status : Status Job Op Res Out) :
    (config.set thread status).threads other =
      if other = thread then status else config.threads other := by
  by_cases same : other = thread
  · subst other
    simp [Config.set]
  · simp [Config.set, same]

theorem all_safe_set {config : Config State Tid Job Op Res Out} (all : AllSafe sys contract config)
    (moving : Tid) (status : Status Job Op Res Out)
    (safe : ∀ job rest, status = .running job rest →
      Safe sys contract moving (contract.post moving job) rest config.shared) :
    AllSafe sys contract (config.set moving status) := by
  refine ⟨all.inv, fun thread job rest running => ?_⟩
  rw [threads_set] at running
  by_cases same : thread = moving
  · subst thread
    simp only [if_true] at running
    exact safe job rest running
  · simp only [same, if_false] at running
    exact all.threads thread job rest running

/-- One step of a pool: every thread stays safe and keeps its guarantee. -/
theorem step_safe (composes : Composes sys contract)
    (begins : ∀ thread job state, contract.inv state → sys.starts thread job = true →
      contract.allowed state (.start thread job) →
        Safe sys contract thread (contract.post thread job) (sys.program job) state)
    {before after : Config State Tid Job Op Res Out} {label : Label Tid Job Env Op Res Out}
    (all : AllSafe sys contract before) (taken : Step sys before label after)
    (may : contract.allowed before.shared label) :
    AllSafe sys contract after ∧ Kept contract before label after := by
  cases taken with
  | @start moving started idle starts =>
      refine ⟨all_safe_set all _ _ fun job rest same => ?_, rfl⟩
      cases same
      exact begins moving started before.shared all.inv starts may
  | @act moving job request next answer shared at_op done =>
      obtain ⟨guar, safe⟩ := all.threads moving job _ at_op before.shared .refl all.inv
        answer shared done may
      have held := composes.guar_inv moving before.shared shared all.inv guar
      refine ⟨⟨held, fun thread other rest running => ?_⟩, guar⟩
      simp only [threads_set] at running
      by_cases same : thread = moving
      · subst thread
        simp only [if_true, Status.running.injEq] at running
        obtain ⟨rfl, rfl⟩ := running
        exact safe
      · simp only [same, if_false] at running
        refine safe_interference (.single ⟨all.inv, held, ?_⟩) (all.threads thread other rest running)
        exact composes.guar_rely thread moving _ _ same all.inv guar
  | fail at_op => exact ⟨all_safe_set all _ _ (by simp), rfl⟩
  | @finish moving job out at_ret =>
      have post := all.threads moving job _ at_ret before.shared .refl all.inv
      exact ⟨all_safe_set all _ _ (by simp), rfl, post⟩
  | env done =>
      have held := composes.env_inv _ _ _ all.inv done may
      refine ⟨⟨held, fun thread job rest running => ?_⟩, trivial⟩
      refine safe_interference (.single ⟨all.inv, held, ?_⟩) (all.threads thread job rest running)
      exact composes.env_rely thread _ _ _ all.inv done may

/-- Guarded steps of the pool, the guard reading the shared state only. -/
abbrev Allowed (sys : System State Tid Job Env Op Res Out)
    (contract : Contract State Tid Job Env Op Res Out) :
    Config State Tid Job Op Res Out → Label Tid Job Env Op Res Out →
      Config State Tid Job Op Res Out → Prop :=
  Guarded (fun config label => contract.allowed config.shared label) (Step sys)

/-- Every interleaving of safe threads stays safe. -/
theorem run_safe (composes : Composes sys contract)
    (begins : ∀ thread job state, contract.inv state → sys.starts thread job = true →
      contract.allowed state (.start thread job) →
        Safe sys contract thread (contract.post thread job) (sys.program job) state)
    {before after : Config State Tid Job Op Res Out} {labels : List (Label Tid Job Env Op Res Out)}
    (all : AllSafe sys contract before) (run : Run (Allowed sys contract) before labels after) :
    AllSafe sys contract after := by
  refine run_invariant ?_ run all
  intro middle label next safe taken
  exact (step_safe composes begins safe taken.1 taken.2).1

theorem step_running {before after : Config State Tid Job Op Res Out}
    {label : Label Tid Job Env Op Res Out} (taken : Step sys before label after) {job : Job}
    {rest : Prog Op Res Out} (running : after.threads thread = .running job rest) :
    before.threads thread = .running job rest ∨
    (label = .start thread job ∧ rest = sys.program job ∧ sys.starts thread job = true) ∨
    ∃ request next answer, label = .act thread request answer ∧ rest = next answer ∧
      before.threads thread = .running job (.op request next) ∧
      sys.exec thread before.shared request answer = some after.shared := by
  cases taken with
  | @start moving begun idle may =>
      rw [threads_set] at running
      split at running
      · rename_i mine
        subst mine
        cases running
        exact Or.inr (Or.inl ⟨rfl, rfl, may⟩)
      · exact Or.inl running
  | @act moving begun request next answer shared at_op done =>
      simp only [threads_set] at running
      split at running
      · rename_i mine
        subst mine
        cases running
        exact Or.inr (Or.inr ⟨request, next, answer, rfl, rfl, at_op, done⟩)
      · exact Or.inl running
  | fail at_op =>
      rw [threads_set] at running
      split at running
      · cases running
      · exact Or.inl running
  | finish at_ret =>
      rw [threads_set] at running
      split at running
      · cases running
      · exact Or.inl running
  | env done => exact Or.inl running

theorem step_status {before after : Config State Tid Job Op Res Out}
    {label : Label Tid Job Env Op Res Out} (taken : Step sys before label after) {job : Job}
    {rest : Prog Op Res Out} (running : before.threads thread = .running job rest) :
    after.threads thread = .ended ∨ after.threads thread = .running job rest ∨
    ∃ request next answer, rest = .op request next ∧
      after.threads thread = .running job (next answer) := by
  cases taken with
  | @start moving begun idle may =>
      rw [threads_set]
      split
      · rename_i mine
        subst mine
        rw [running] at idle
        exact idle.elim
      · exact Or.inr (Or.inl running)
  | @act moving begun request next answer shared at_op done =>
      simp only [threads_set]
      split
      · rename_i mine
        subst mine
        rw [at_op] at running
        cases running
        exact Or.inr (Or.inr ⟨request, next, answer, rfl, rfl⟩)
      · exact Or.inr (Or.inl running)
  | fail at_op =>
      rw [threads_set]
      split
      · exact Or.inl rfl
      · exact Or.inr (Or.inl running)
  | finish at_ret =>
      rw [threads_set]
      split
      · exact Or.inl rfl
      · exact Or.inr (Or.inl running)
  | env done => exact Or.inr (Or.inl running)

theorem step_ended {before after : Config State Tid Job Op Res Out}
    {label : Label Tid Job Env Op Res Out} (taken : Step sys before label after)
    (once : sys.restarts thread = false) (ended : before.threads thread = .ended) :
    after.threads thread = .ended := by
  cases taken with
  | @start moving begun idle may =>
      rw [threads_set]
      split
      · rename_i mine
        subst mine
        rw [ended] at idle
        exact absurd (once.symm.trans idle) Bool.false_ne_true
      · exact ended
  | @act moving begun request next answer shared at_op done =>
      simp only [threads_set]
      split
      · rename_i mine
        subst mine
        rw [ended] at at_op
        cases at_op
      · exact ended
  | fail at_op =>
      rw [threads_set]
      split
      · rfl
      · exact ended
  | finish at_ret =>
      rw [threads_set]
      split
      · rfl
      · exact ended
  | env done => exact ended

theorem run_started {before after : Config State Tid Job Op Res Out}
    {labels : List (Label Tid Job Env Op Res Out)} (run : Run (Step sys) before labels after)
    (none : ∀ job rest, before.threads thread ≠ .running job rest) {job : Job}
    {rest : Prog Op Res Out} (running : after.threads thread = .running job rest) :
    .start thread job ∈ labels := by
  induction run generalizing rest with
  | refl => exact absurd running (none job rest)
  | next ran taken ih =>
      rcases step_running taken running with old | ⟨rfl, -, -⟩ | ⟨_, _, _, -, -, at_op, -⟩
      · exact List.mem_append_left _ (ih old)
      · exact List.mem_append_right _ (List.mem_singleton.mpr rfl)
      · exact List.mem_append_left _ (ih at_op)

/-- What holds of every program from its start on, whatever it is told. -/
theorem run_programs (fits : Tid → Job → Prog Op Res Out → Prop)
    (starting : ∀ thread job, sys.starts thread job = true → fits thread job (sys.program job))
    (acting : ∀ thread job request next answer, fits thread job (.op request next) →
      fits thread job (next answer))
    {before after : Config State Tid Job Op Res Out} {labels : List (Label Tid Job Env Op Res Out)}
    (run : Run (Step sys) before labels after)
    (all : ∀ thread job rest, before.threads thread = .running job rest → fits thread job rest) :
    ∀ thread job rest, after.threads thread = .running job rest → fits thread job rest := by
  induction run with
  | refl => exact all
  | next ran taken ih =>
      intro thread job rest running
      rcases step_running taken running with old | ⟨-, rfl, may⟩ |
        ⟨request, next, answer, -, rfl, at_op, -⟩
      · exact ih thread job rest old
      · exact starting thread job may
      · exact acting thread job request next answer (ih thread job _ at_op)

section Parts
variable {first rest : Prog Op Res Mid} {labels : List (Label Tid Job Env Op Res Out)}
  {label : Label Tid Job Env Op Res Out} {job : Job} {next : Mid → Prog Op Res Out}

def By (thread : Tid) : Label Tid Job Env Op Res Out → Prop
  | .start moving _ | .act moving _ _ | .fail moving | .finish moving _ _ => moving = thread
  | .env _ => False

/-- By its steps among these the thread comes from a part of its program to what is left of it. -/
inductive Advances (thread : Tid) (first : Prog Op Res Mid) :
    List (Label Tid Job Env Op Res Out) → Prog Op Res Mid → Prop
  | refl : Advances thread first [] first
  | own {labels : List (Label Tid Job Env Op Res Out)} {request : Op}
      {resume : Res request → Prog Op Res Mid} (answer : Res request)
      (earlier : Advances thread first labels (.op request resume)) :
      Advances thread first (labels ++ [.act thread request answer]) (resume answer)
  | other {labels : List (Label Tid Job Env Op Res Out)} {rest : Prog Op Res Mid}
      {label : Label Tid Job Env Op Res Out} (apart : ¬ By thread label)
      (earlier : Advances thread first labels rest) : Advances thread first (labels ++ [label]) rest

omit [DecidableEq Tid] in
theorem advances_snoc (advances : Advances thread first (labels ++ [label]) rest) :
    (∃ request resume answer, label = .act thread request answer ∧ rest = resume answer ∧
      Advances thread first labels (.op request resume)) ∨
    (¬ By thread label ∧ Advances thread first labels rest) := by
  generalize whole : labels ++ [label] = all at advances
  cases advances with
  | refl => simp at whole
  | own answer earlier =>
      obtain ⟨rfl, last⟩ := List.append_inj' whole rfl
      obtain rfl := List.singleton_inj.mp last
      exact Or.inl ⟨_, _, answer, rfl, rfl, earlier⟩
  | other apart earlier =>
      obtain ⟨rfl, last⟩ := List.append_inj' whole rfl
      obtain rfl := List.singleton_inj.mp last
      exact Or.inr ⟨apart, earlier⟩

theorem step_other {before after : Config State Tid Job Op Res Out}
    (taken : Step sys before label after) (apart : ¬ By thread label) :
    after.threads thread = before.threads thread := by
  have set : ∀ {moving status}, moving ≠ thread →
      (before.set moving status).threads thread = before.threads thread := by
    intro moving status different
    rw [threads_set, if_neg different.symm]
  cases taken with
  | start _ _ => exact set apart
  | act _ _ => exact set apart
  | fail _ => exact set apart
  | finish _ => exact set apart
  | env _ => rfl

theorem advances_safe (composes : Composes sys contract)
    (begins : ∀ thread job state, contract.inv state → sys.starts thread job = true →
      contract.allowed state (.start thread job) →
        Safe sys contract thread (contract.post thread job) (sys.program job) state)
    {before after : Config State Tid Job Op Res Out} (all : AllSafe sys contract before)
    (running : before.threads thread = .running job (first.bind next))
    (safe : Safe sys contract thread post first before.shared)
    (run : Run (Allowed sys contract) before labels after)
    (advances : Advances thread first labels rest) :
    after.threads thread = .running job (rest.bind next) ∧
      Safe sys contract thread post rest after.shared := by
  induction run generalizing rest with
  | refl =>
      generalize none : ([] : List (Label Tid Job Env Op Res Out)) = labels at advances
      cases advances with
      | refl => exact ⟨running, safe⟩
      | own => simp at none
      | other => simp at none
  | @next middle last labels label ran taken ih =>
      have safely := run_safe composes begins all ran
      rcases advances_snoc advances with ⟨request, resume, answer, rfl, rfl, earlier⟩ | ⟨apart, earlier⟩
      · obtain ⟨at_part, part⟩ := ih earlier
        obtain ⟨step, may⟩ := taken
        cases step with
        | act at_op done =>
            rw [at_part] at at_op
            cases at_op
            constructor
            · exact (threads_set middle thread thread _).trans (if_pos rfl)
            · exact (part middle.shared .refl safely.inv answer _ done may).2
      · obtain ⟨at_part, part⟩ := ih earlier
        obtain ⟨step, may⟩ := taken
        refine ⟨(step_other step apart).trans at_part, ?_⟩
        have held := (step_safe composes begins safely step may).1.inv
        cases step with
        | start _ _ => exact part
        | fail _ => exact part
        | finish _ => exact part
        | @act moving acting asked resume answer shared at_op done =>
            have guar := (safely.threads moving acting _ at_op middle.shared .refl safely.inv
              answer shared done may).1
            have relies := composes.guar_rely thread moving _ _ (Ne.symm apart) safely.inv guar
            exact safe_interference (.single ⟨safely.inv, held, relies⟩) part
        | env done =>
            have relies := composes.env_rely thread _ _ _ safely.inv done may
            exact safe_interference (.single ⟨safely.inv, held, relies⟩) part

omit [DecidableEq Tid] in
/-- What holds of what is left of a part, and of the steps it has taken, from its start on. -/
theorem advances_invariant {Con : Type}
    {step : Con → Label Tid Job Env Op Res Out → Con → Prop}
    (fits : List (Label Tid Job Env Op Res Out) → Prog Op Res Mid → Con → Prop)
    (own : ∀ labels before request resume answer after, fits labels (.op request resume) before →
      step before (.act thread request answer) after →
        fits (labels ++ [.act thread request answer]) (resume answer) after)
    (other : ∀ labels rest before label after, fits labels rest before → ¬ By thread label →
      step before label after → fits (labels ++ [label]) rest after)
    {before after : Con} (start : fits [] first before) (run : Run step before labels after)
    (advances : Advances thread first labels rest) : fits labels rest after := by
  induction run generalizing rest with
  | refl =>
      generalize none : ([] : List (Label Tid Job Env Op Res Out)) = labels at advances
      cases advances with
      | refl => exact start
      | own => simp at none
      | other => simp at none
  | next ran taken ih =>
      rcases advances_snoc advances with ⟨request, resume, answer, rfl, rfl, earlier⟩ | ⟨apart, earlier⟩
      · exact own _ _ request resume answer _ (ih earlier) taken
      · exact other _ _ _ _ _ (ih earlier) apart taken

/-- A thread in the last part of its program advances in it until it ends. -/
theorem run_tail {change : Mid → Out} {before after : Config State Tid Job Op Res Out}
    (once : sys.restarts thread = false)
    (running : before.threads thread = .running job (first.bind fun out => .ret (change out)))
    (run : Run (Step sys) before labels after) :
    after.threads thread = .ended ∨ ∃ rest, Advances thread first labels rest ∧
      after.threads thread = .running job (rest.bind fun out => .ret (change out)) := by
  induction run with
  | refl => exact Or.inr ⟨first, .refl, running⟩
  | @next middle last labels label ran taken ih =>
      rcases ih with ended | ⟨rest, advances, at_rest⟩
      · exact Or.inl (step_ended taken once ended)
      by_cases mine : By thread label
      · cases taken with
        | @start moving begun idle may =>
            obtain rfl : moving = thread := mine
            rw [at_rest] at idle
            exact idle.elim
        | @act moving begun request resume answer shared at_op done =>
            obtain rfl : moving = thread := mine
            rw [at_rest] at at_op
            cases rest with
            | ret out => cases at_op
            | op asked further =>
                cases at_op
                right
                refine ⟨further answer, .own answer advances, ?_⟩
                exact (threads_set middle moving moving _).trans (if_pos rfl)
        | @fail moving _ _ _ at_op =>
            obtain rfl : moving = thread := mine
            exact Or.inl ((threads_set middle moving moving _).trans (if_pos rfl))
        | @finish moving _ _ at_ret =>
            obtain rfl : moving = thread := mine
            exact Or.inl ((threads_set middle moving moving _).trans (if_pos rfl))
        | env done => exact mine.elim
      · exact Or.inr ⟨rest, .other mine advances, (step_other taken mine).trans at_rest⟩

end Parts

end SecureFileSystem.RelyGuarantee
