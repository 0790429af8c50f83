import SecureFileSystem.Transition

/-!
Programs as trees of requests to their environment, and pools of them that run
interleaved over one shared state. A program stops at every request; between
two of its requests any other program and the environment may move. A thread
may end at any request (an exception, a lost connection, a killed process):
whatever it had not yet asked for never happens.
-/

namespace SecureFileSystem.Program

open Transition

/-- A program is finished, or waits for the answer to one request. -/
inductive Prog (Op : Type) (Res : Op → Type) (Out : Type) where
  | ret (out : Out)
  | op (request : Op) (next : Res request → Prog Op Res Out)

variable {Op : Type} {Res : Op → Type} {Out Mid : Type}

namespace Prog

def bind : Prog Op Res Mid → (Mid → Prog Op Res Out) → Prog Op Res Out
  | .ret out, rest => rest out
  | .op request next, rest => .op request fun answer => (next answer).bind rest

instance : Monad (Prog Op Res) where
  pure := .ret
  bind := bind

def perform (request : Op) : Prog Op Res (Res request) := .op request .ret

def eval (answer : (request : Op) → Res request) : Prog Op Res Out → Out
  | .ret out => out
  | .op request next => (next (answer request)).eval answer

def Only (kind : Op → Prop) : Prog Op Res Out → Prop
  | .ret _ => True
  | .op request next => kind request ∧ ∀ answer, (next answer).Only kind

/-- Every result the program can come to satisfies `fact`, whatever the answers. -/
def Ends (fact : Out → Prop) : Prog Op Res Out → Prop
  | .ret out => fact out
  | .op _ next => ∀ answer, (next answer).Ends fact

@[simp] theorem pure_eq (out : Out) : (pure out : Prog Op Res Out) = .ret out := rfl

@[simp] theorem bind_eq (first : Prog Op Res Mid) (rest : Mid → Prog Op Res Out) :
    first >>= rest = first.bind rest := rfl

@[simp] theorem ret_bind (out : Mid) (rest : Mid → Prog Op Res Out) :
    (ret out : Prog Op Res Mid).bind rest = rest out := rfl

@[simp] theorem op_bind (request : Op) (next : Res request → Prog Op Res Mid)
    (rest : Mid → Prog Op Res Out) :
    (op request next).bind rest = op request fun answer => (next answer).bind rest := rfl

@[simp] theorem perform_bind (request : Op) (rest : Res request → Prog Op Res Out) :
    (perform request).bind rest = op request rest := rfl

@[simp] theorem eval_ret (answer : (request : Op) → Res request) (out : Out) :
    (ret out : Prog Op Res Out).eval answer = out := rfl

@[simp] theorem eval_op (answer : (request : Op) → Res request) (request : Op)
    (next : Res request → Prog Op Res Out) :
    (op request next).eval answer = (next (answer request)).eval answer := rfl

@[simp] theorem eval_bind (answer : (request : Op) → Res request) (first : Prog Op Res Mid)
    (rest : Mid → Prog Op Res Out) :
    (first.bind rest).eval answer = (rest (first.eval answer)).eval answer := by
  induction first with
  | ret out => rfl
  | op request next ih => exact ih (answer request)

theorem only_bind {kind : Op → Prop} {first : Prog Op Res Mid} {rest : Mid → Prog Op Res Out}
    (head : first.Only kind) (tail : ∀ out, (rest out).Only kind) :
    (first.bind rest).Only kind := by
  induction first with
  | ret out => exact tail out
  | op request next ih => exact ⟨head.1, fun answer => ih answer (head.2 answer)⟩

theorem only_mono {kind weaker : Op → Prop} {prog : Prog Op Res Out} (only : prog.Only kind)
    (weaken : ∀ request, kind request → weaker request) : prog.Only weaker := by
  induction prog with
  | ret out => trivial
  | op request next ih => exact ⟨weaken request only.1, fun answer => ih answer (only.2 answer)⟩

theorem ends_bind {between : Mid → Prop} {fact : Out → Prop} {first : Prog Op Res Mid}
    {rest : Mid → Prog Op Res Out} (head : first.Ends between)
    (tail : ∀ out, between out → (rest out).Ends fact) : (first.bind rest).Ends fact := by
  induction first with
  | ret out => exact tail out head
  | op request next ih => exact fun answer => ih answer (head answer)

theorem ends_mono {fact weaker : Out → Prop} {prog : Prog Op Res Out} (ends : prog.Ends fact)
    (weaken : ∀ out, fact out → weaker out) : prog.Ends weaker := by
  induction prog with
  | ret out => exact weaken out ends
  | op request next ih => exact fun answer => ih answer (ends answer)

theorem ends_true (prog : Prog Op Res Out) : prog.Ends fun _ => True := by
  induction prog with
  | ret out => trivial
  | op request next ih => exact ih

/-- Every request the program can come to may be made by whoever knows what its
answers have taught so far, and so may its result be given. -/
def Informed {Know : Type} (may : Know → Op → Prop)
    (learn : Know → (request : Op) → Res request → Know) (fact : Know → Out → Prop) :
    Know → Prog Op Res Out → Prop
  | known, .ret out => fact known out
  | known, .op request next => may known request ∧
      ∀ answer, (next answer).Informed may learn fact (learn known request answer)

section Informed
variable {Know : Type} {may : Know → Op → Prop}
  {learn : Know → (request : Op) → Res request → Know} {known : Know}

theorem informed_bind {between : Know → Mid → Prop} {fact : Know → Out → Prop}
    {first : Prog Op Res Mid} {rest : Mid → Prog Op Res Out}
    (head : first.Informed may learn between known)
    (tail : ∀ more out, between more out → (rest out).Informed may learn fact more) :
    (first.bind rest).Informed may learn fact known := by
  induction first generalizing known with
  | ret out => exact tail known out head
  | op request next ih => exact ⟨head.1, fun answer => ih answer (head.2 answer)⟩

theorem informed_mono {fact weaker : Know → Out → Prop} {prog : Prog Op Res Out}
    (informed : prog.Informed may learn fact known)
    (weaken : ∀ more out, fact more out → weaker more out) :
    prog.Informed may learn weaker known := by
  induction prog generalizing known with
  | ret out => exact weaken known out informed
  | op request next ih => exact ⟨informed.1, fun answer => ih answer (informed.2 answer)⟩

theorem informed_may {weaker : Know → Op → Prop} {fact : Know → Out → Prop}
    {prog : Prog Op Res Out} (informed : prog.Informed may learn fact known)
    (weaken : ∀ known request, may known request → weaker known request) :
    prog.Informed weaker learn fact known := by
  induction prog generalizing known with
  | ret out => exact informed
  | op request next ih =>
      exact ⟨weaken known request informed.1, fun answer => ih answer (informed.2 answer)⟩

/-- Knowing more does no harm. -/
theorem informed_more (le : Know → Know → Prop) {fact : Know → Out → Prop} {more : Know}
    {prog : Prog Op Res Out}
    (mays : ∀ less more request, le less more → may less request → may more request)
    (learns : ∀ less more request answer, le less more →
      le (learn less request answer) (learn more request answer))
    (facts : ∀ less more out, le less more → fact less out → fact more out)
    (grown : le known more) (informed : prog.Informed may learn fact known) :
    prog.Informed may learn fact more := by
  induction prog generalizing known more with
  | ret out => exact facts known more out grown informed
  | op request next ih =>
      constructor
      · exact mays known more request grown informed.1
      · intro answer
        exact ih answer (learns known more request answer grown) (informed.2 answer)

theorem informed_only {kind : Op → Prop} {fact : Know → Out → Prop} {prog : Prog Op Res Out}
    (informed : prog.Informed may learn fact known)
    (kinds : ∀ known request, may known request → kind request) : prog.Only kind := by
  induction prog generalizing known with
  | ret out => trivial
  | op request next ih =>
      exact ⟨kinds known request informed.1, fun answer => ih answer (informed.2 answer)⟩

end Informed

end Prog

/-- A pool of programs over one shared state. `exec` says whether an answer is
possible for a request and what it does to the state; `env` is what moves
without any thread. -/
structure System (State Tid Job Env Op : Type) (Res : Op → Type) (Out : Type) where
  program : Job → Prog Op Res Out
  /-- which threads may run which jobs -/
  starts : Tid → Job → Bool
  /-- threads that take another job once the last one has ended -/
  restarts : Tid → Bool
  exec : Tid → State → (request : Op) → Res request → Option State
  env : State → Env → Option State

inductive Status (Job Op : Type) (Res : Op → Type) (Out : Type) where
  | fresh
  | running (job : Job) (rest : Prog Op Res Out)
  | ended

structure Config (State Tid Job Op : Type) (Res : Op → Type) (Out : Type) where
  shared : State
  threads : Tid → Status Job Op Res Out

inductive Label (Tid Job Env Op : Type) (Res : Op → Type) (Out : Type) where
  | start (thread : Tid) (job : Job)
  | act (thread : Tid) (request : Op) (answer : Res request)
  | fail (thread : Tid)
  | finish (thread : Tid) (job : Job) (out : Out)
  | env (event : Env)

variable {State Tid Job Env : Type} [DecidableEq Tid]

def Config.set (config : Config State Tid Job Op Res Out) (thread : Tid)
    (status : Status Job Op Res Out) : Config State Tid Job Op Res Out :=
  { config with threads := Function.update config.threads thread status }

def Idle (sys : System State Tid Job Env Op Res Out) (thread : Tid) :
    Status Job Op Res Out → Prop
  | .fresh => True
  | .running _ _ => False
  | .ended => sys.restarts thread = true

inductive Step (sys : System State Tid Job Env Op Res Out)
    (config : Config State Tid Job Op Res Out) :
    Label Tid Job Env Op Res Out → Config State Tid Job Op Res Out → Prop
  | start {thread : Tid} {job : Job} (idle : Idle sys thread (config.threads thread))
      (may : sys.starts thread job = true) :
      Step sys config (.start thread job) (config.set thread (.running job (sys.program job)))
  | act {thread : Tid} {job : Job} {request : Op} {next : Res request → Prog Op Res Out}
      {answer : Res request} {shared : State}
      (at_op : config.threads thread = .running job (.op request next))
      (done : sys.exec thread config.shared request answer = some shared) :
      Step sys config (.act thread request answer)
        { config.set thread (.running job (next answer)) with shared := shared }
  | fail {thread : Tid} {job : Job} {request : Op} {next : Res request → Prog Op Res Out}
      (at_op : config.threads thread = .running job (.op request next)) :
      Step sys config (.fail thread) (config.set thread .ended)
  | finish {thread : Tid} {job : Job} {out : Out}
      (at_ret : config.threads thread = .running job (.ret out)) :
      Step sys config (.finish thread job out) (config.set thread .ended)
  | env {event : Env} {shared : State} (done : sys.env config.shared event = some shared) :
      Step sys config (.env event) { config with shared := shared }

/-- A scheduler's choice: an oracle answers the request the thread waits at. -/
inductive Move (State Tid Job Env Op : Type) (Res : Op → Type) where
  | start (thread : Tid) (job : Job)
  | act (thread : Tid) (oracle : State → (request : Op) → Option (Res request))
  | fail (thread : Tid)
  | finish (thread : Tid)
  | env (event : Env)

def advance (sys : System State Tid Job Env Op Res Out)
    (config : Config State Tid Job Op Res Out) :
    Move State Tid Job Env Op Res →
      Option (Label Tid Job Env Op Res Out × Config State Tid Job Op Res Out)
  | .start thread job =>
      let idle := match config.threads thread with
        | .fresh => true
        | .running _ _ => false
        | .ended => sys.restarts thread
      if idle && sys.starts thread job then
        some (.start thread job, config.set thread (.running job (sys.program job)))
      else none
  | .act thread oracle =>
      match config.threads thread with
      | .running job (.op request next) =>
          (oracle config.shared request).bind fun answer =>
            (sys.exec thread config.shared request answer).map fun shared =>
              (.act thread request answer,
                { config.set thread (.running job (next answer)) with shared := shared })
      | _ => none
  | .fail thread =>
      match config.threads thread with
      | .running _ (.op _ _) => some (.fail thread, config.set thread .ended)
      | _ => none
  | .finish thread =>
      match config.threads thread with
      | .running job (.ret out) => some (.finish thread job out, config.set thread .ended)
      | _ => none
  | .env event =>
      (sys.env config.shared event).map fun shared => (.env event, { config with shared := shared })

def drive (sys : System State Tid Job Env Op Res Out)
    (may : Config State Tid Job Op Res Out → Label Tid Job Env Op Res Out → Bool) :
    Config State Tid Job Op Res Out → List (Move State Tid Job Env Op Res) →
      Option (List (Label Tid Job Env Op Res Out) × Config State Tid Job Op Res Out)
  | config, [] => some ([], config)
  | config, move :: rest =>
      (advance sys config move).bind fun one =>
        if may config one.1 then
          (drive sys may one.2 rest).map fun all => (one.1 :: all.1, all.2)
        else none

theorem advance_step (sys : System State Tid Job Env Op Res Out)
    (config : Config State Tid Job Op Res Out) (move : Move State Tid Job Env Op Res)
    (label : Label Tid Job Env Op Res Out) (after : Config State Tid Job Op Res Out)
    (moved : advance sys config move = some (label, after)) : Step sys config label after := by
  cases move with
  | start thread job =>
      simp only [advance, Bool.and_eq_true, Option.ite_none_right_eq_some, Option.some.injEq,
        Prod.mk.injEq] at moved
      obtain ⟨⟨idle, may⟩, rfl, rfl⟩ := moved
      refine Step.start ?_ may
      cases status : config.threads thread <;> simp_all [Idle]
  | act thread oracle =>
      simp only [advance] at moved
      split at moved
      · rename_i job request next at_op
        simp only [Option.bind_eq_some_iff, Option.map_eq_some_iff, Prod.mk.injEq] at moved
        obtain ⟨answer, -, shared, done, rfl, rfl⟩ := moved
        exact Step.act at_op done
      · cases moved
  | fail thread =>
      simp only [advance] at moved
      split at moved
      · rename_i at_op
        cases moved
        exact Step.fail at_op
      · cases moved
  | finish thread =>
      simp only [advance] at moved
      split at moved
      · rename_i at_ret
        cases moved
        exact Step.finish at_ret
      · cases moved
  | env event =>
      simp only [advance, Option.map_eq_some_iff, Prod.mk.injEq] at moved
      obtain ⟨shared, done, rfl, rfl⟩ := moved
      exact Step.env done

/-- What a scheduler drives the pool through is a run. -/
theorem drive_run (sys : System State Tid Job Env Op Res Out)
    (may : Config State Tid Job Op Res Out → Label Tid Job Env Op Res Out → Bool)
    (config : Config State Tid Job Op Res Out) (moves : List (Move State Tid Job Env Op Res))
    (labels : List (Label Tid Job Env Op Res Out)) (after : Config State Tid Job Op Res Out)
    (driven : drive sys may config moves = some (labels, after)) :
    Run (Guarded (fun config label => may config label = true) (Step sys)) config labels after := by
  induction moves generalizing config labels with
  | nil =>
      cases driven
      exact .refl
  | cons move rest ih =>
      simp only [drive, Option.bind_eq_some_iff, Option.ite_none_right_eq_some,
        Option.map_eq_some_iff, Prod.mk.injEq] at driven
      obtain ⟨⟨label, middle⟩, moved, passed, ⟨tail, last⟩, driven, rfl, rfl⟩ := driven
      exact run_cons ⟨advance_step sys config move label middle moved, passed⟩
        (ih middle tail driven)

theorem drive_guarded (sys : System State Tid Job Env Op Res Out)
    (may : Config State Tid Job Op Res Out → Label Tid Job Env Op Res Out → Bool)
    (config : Config State Tid Job Op Res Out) (moves : List (Move State Tid Job Env Op Res))
    (check : List (Label Tid Job Env Op Res Out) → Config State Tid Job Op Res Out → Bool)
    (passed : (drive sys may config moves).any (fun driven => check driven.1 driven.2) = true) :
    ∃ labels after,
      Run (Guarded (fun config label => may config label = true) (Step sys)) config labels after ∧
        check labels after = true := by
  cases driven : drive sys may config moves with
  | none => simp [driven] at passed
  | some reached =>
      rw [driven] at passed
      exact ⟨reached.1, reached.2, drive_run sys may config moves _ _ driven, by simpa using passed⟩

theorem drive_any {sys : System State Tid Job Env Op Res Out}
    {may : Config State Tid Job Op Res Out → Label Tid Job Env Op Res Out → Bool}
    {config : Config State Tid Job Op Res Out} {moves : List (Move State Tid Job Env Op Res)}
    {check : List (Label Tid Job Env Op Res Out) × Config State Tid Job Op Res Out → Bool}
    (passed : (drive sys may config moves).any check = true) : ∃ labels after,
      Run (Guarded (fun config label => may config label = true) (Step sys)) config labels after ∧
        check (labels, after) = true :=
  drive_guarded sys may config moves (fun labels after => check (labels, after)) passed

theorem drive_reaches (sys : System State Tid Job Env Op Res Out)
    (config : Config State Tid Job Op Res Out) (moves : List (Move State Tid Job Env Op Res))
    (check : List (Label Tid Job Env Op Res Out) → Config State Tid Job Op Res Out → Bool)
    (passed : (drive sys (fun _ _ => true) config moves).any
      (fun driven => check driven.1 driven.2) = true) :
    ∃ labels after, Run (Step sys) config labels after ∧ check labels after = true := by
  obtain ⟨labels, after, run, checked⟩ := drive_guarded sys _ config moves check passed
  exact ⟨labels, after, guarded_run run, checked⟩

end SecureFileSystem.Program
