import SecureFileSystem.RelyGuarantee

/-!
Jobs under a `try`. A request may raise instead of being answered, which ends
the job it belongs to and not the program around it: a batch runs its jobs one
after the other, whatever becomes of each. A pool of batches takes the steps
of a pool of single jobs.
-/

namespace SecureFileSystem.Attempts

open Transition Program

variable {State Tid Job Env Op Out Mid : Type} {Res : Op → Type}

/-- An answer, or an exception. -/
@[reducible] def Raising (Res : Op → Type) : Op → Type := fun request => Option (Res request)

abbrev BatchLabel (Tid Job Env Op : Type) (Res : Op → Type) (Out : Type) :=
  Label Tid (List Job) Env Op (Raising Res) (List (Option Out))

abbrev BatchStatus (Job Op : Type) (Res : Op → Type) (Out : Type) :=
  Status (List Job) Op (Raising Res) (List (Option Out))

abbrev BatchConfig (State Tid Job Op : Type) (Res : Op → Type) (Out : Type) :=
  Config State Tid (List Job) Op (Raising Res) (List (Option Out))

/-- `try: … except Exception: …`; the result is `none` where the job raised. -/
def attempt : Prog Op Res Out → Prog Op (Raising Res) (Option Out)
  | .ret out => .ret (some out)
  | .op request next => .op request fun answer =>
      match answer with
      | none => .ret none
      | some given => attempt (next given)

/-- The jobs in order, with what became of each. -/
def batch (program : Job → Prog Op Res Out) :
    List Job → Prog Op (Raising Res) (List (Option Out))
  | [] => .ret []
  | job :: rest => (attempt (program job)).bind fun out =>
      (batch program rest).bind fun outs => .ret (out :: outs)

/-- The pool whose threads run batches. A request that raises changes nothing;
a thread with several jobs must be one that takes another when one has ended. -/
def batched (sys : System State Tid Job Env Op Res Out) :
    System State Tid (List Job) Env Op (Raising Res) (List (Option Out)) where
  program := batch sys.program
  starts thread jobs := jobs.all (sys.starts thread) && (jobs.length ≤ 1 || sys.restarts thread)
  restarts := sys.restarts
  exec thread state request
    | none => some state
    | some answer => sys.exec thread state request answer
  env := sys.env

def remaining (program : Job → Prog Op Res Out) (done : List (Option Out)) (rest : List Job) :
    Prog Op (Raising Res) (List (Option Out)) :=
  (batch program rest).bind fun outs => .ret (done ++ outs)

def resume (program : Job → Prog Op Res Out) (done : List (Option Out)) (rest : List Job)
    (out : Option Out) : Prog Op (Raising Res) (List (Option Out)) :=
  remaining program (done ++ [out]) rest

theorem bind_assoc {Last : Type} (first : Prog Op Res Mid) (second : Mid → Prog Op Res Out)
    (third : Out → Prog Op Res Last) :
    (first.bind second).bind third = first.bind fun out => (second out).bind third := by
  induction first with
  | ret out => rfl
  | op request next ih =>
      simp only [Prog.op_bind]
      congr 1
      funext answer
      exact ih answer

theorem bind_ret (prog : Prog Op Res Out) : prog.bind .ret = prog := by
  induction prog with
  | ret out => rfl
  | op request next ih =>
      simp only [Prog.op_bind]
      congr 1
      funext answer
      exact ih answer

theorem remaining_all (program : Job → Prog Op Res Out) (jobs : List Job) :
    remaining program [] jobs = batch program jobs := bind_ret _

theorem remaining_nil (program : Job → Prog Op Res Out) (done : List (Option Out)) :
    remaining program done [] = .ret done := by
  simp [remaining, batch]

theorem remaining_cons (program : Job → Prog Op Res Out) (done : List (Option Out)) (job : Job)
    (rest : List Job) :
    remaining program done (job :: rest) =
      (attempt (program job)).bind (resume program done rest) := by
  rw [remaining, batch, bind_assoc]
  congr 1
  funext out
  rw [bind_assoc, resume, remaining]
  congr 1
  funext outs
  simp

def note (thread : Tid) [DecidableEq Tid] (state : Option Job × List (Job × Option Out)) :
    Label Tid Job Env Op Res Out → Option Job × List (Job × Option Out)
  | .start moving job => if moving = thread then (some job, state.2) else state
  | .finish moving job out => if moving = thread then (none, state.2 ++ [(job, some out)]) else state
  | .fail moving =>
      if moving = thread then (none, state.2 ++ (state.1.map fun job => (job, none)).toList)
      else state
  | .act _ _ _ | .env _ => state

section Pool
variable [DecidableEq Tid]

def ran (thread : Tid) (labels : List (Label Tid Job Env Op Res Out)) :
    Option Job × List (Job × Option Out) :=
  labels.foldl (note thread) (none, [])

def reported (thread : Tid)
    (labels : List (BatchLabel Tid Job Env Op Res Out)) :
    List (Job × Option Out) :=
  labels.flatMap fun label =>
    match label with
    | .finish moving jobs outs => if moving = thread then jobs.zip outs else []
    | _ => []

/-- The step of a single job that a step of a batch is, where it has an effect. -/
def effect : BatchLabel Tid Job Env Op Res Out →
    Option (Label Tid Job Env Op Res Out)
  | .act thread request (some answer) => some (.act thread request answer)
  | .env event => some (.env event)
  | _ => none

def effective : Label Tid Job Env Op Res Out → Bool
  | .act _ _ _ | .env _ => true
  | _ => false

@[simp] theorem ran_snoc (thread : Tid) (labels : List (Label Tid Job Env Op Res Out))
    (label : Label Tid Job Env Op Res Out) :
    ran thread (labels ++ [label]) = note thread (ran thread labels) label := by
  simp [ran]

def Rests (status : Status Job Op Res Out) : Prop := status = .fresh ∨ status = .ended

/-- How far a thread is with its batch, and how far with its single jobs. -/
inductive Matched (sys : System State Tid Job Env Op Res Out) (thread : Tid)
    (reports : List (Job × Option Out)) :
    BatchStatus Job Op Res Out → Status Job Op Res Out →
      Option Job × List (Job × Option Out) → Prop
  | fresh {history : List (Job × Option Out)} (kept : reports.Sublist history) :
      Matched sys thread reports .fresh .fresh (none, history)
  | ended {status : Status Job Op Res Out} {history : List (Job × Option Out)} (rests : Rests status)
      (kept : reports.Sublist history) : Matched sys thread reports .ended status (none, history)
  | returning {jobs : List Job} {outs : List (Option Out)} {status : Status Job Op Res Out}
      {earlier : List (Job × Option Out)} (rests : Rests status)
      (same : outs.length = jobs.length) (kept : reports.Sublist earlier) :
      Matched sys thread reports (.running jobs (.ret outs)) status (none, earlier ++ jobs.zip outs)
  | working {before rest : List Job} {current : Job} {done : List (Option Out)} {request : Op}
      {next : Res request → Prog Op Res Out} {earlier : List (Job × Option Out)}
      (same : done.length = before.length) (kept : reports.Sublist earlier)
      (startable : ∀ job ∈ rest, sys.starts thread job = true)
      (again : rest = [] ∨ sys.restarts thread = true) :
      Matched sys thread reports
        (.running (before ++ current :: rest)
          ((attempt (.op request next)).bind (resume sys.program done rest)))
        (.running current (.op request next)) (some current, earlier ++ before.zip done)

structure Together (sys : System State Tid Job Env Op Res Out)
    (outer : BatchConfig State Tid Job Op Res Out)
    (taken : List (BatchLabel Tid Job Env Op Res Out))
    (inner : Config State Tid Job Op Res Out) (labels : List (Label Tid Job Env Op Res Out)) :
    Prop where
  shared : inner.shared = outer.shared
  effects : labels.filter effective = taken.filterMap effect
  /-- a finished batch reports on every job of it -/
  whole : ∀ thread jobs outs, .finish thread jobs outs ∈ taken → outs.length = jobs.length
  threads : ∀ thread, Matched sys thread (reported thread taken) (outer.threads thread)
    (inner.threads thread) (ran thread labels)

/-- Steps of one thread that have no effect. -/
structure Turns (sys : System State Tid Job Env Op Res Out) (thread : Tid)
    (before : Config State Tid Job Op Res Out) (labels : List (Label Tid Job Env Op Res Out))
    (more : List (Label Tid Job Env Op Res Out)) (after : Config State Tid Job Op Res Out) :
    Prop where
  run : Run (Step sys) before more after
  shared : after.shared = before.shared
  effects : more.filter effective = []
  others : ∀ other, other ≠ thread → after.threads other = before.threads other ∧
    ran other (labels ++ more) = ran other labels

variable {sys : System State Tid Job Env Op Res Out} {thread : Tid}
  {before middle after : Config State Tid Job Op Res Out}
  {labels first second : List (Label Tid Job Env Op Res Out)}

theorem turns_refl : Turns sys thread before labels [] before :=
  ⟨.refl, rfl, rfl, fun _ _ => ⟨rfl, by rw [List.append_nil]⟩⟩

theorem turns_trans (left : Turns sys thread before labels first middle)
    (right : Turns sys thread middle (labels ++ first) second after) :
    Turns sys thread before labels (first ++ second) after := by
  constructor
  · exact run_append left.run right.run
  · exact right.shared.trans left.shared
  · rw [List.filter_append, left.effects, right.effects, List.append_nil]
  · intro other different
    obtain ⟨sameFirst, quietFirst⟩ := left.others other different
    obtain ⟨sameSecond, quietSecond⟩ := right.others other different
    refine ⟨sameSecond.trans sameFirst, ?_⟩
    rw [← List.append_assoc]
    exact quietSecond.trans quietFirst

theorem turns_one (labels : List (Label Tid Job Env Op Res Out))
    {label : Label Tid Job Env Op Res Out} {status : Status Job Op Res Out}
    (taken : Step sys before label (before.set thread status)) (silent : effective label = false)
    (quiet : ∀ other, other ≠ thread → ∀ state, note other state label = state) :
    Turns sys thread before labels [label] (before.set thread status) := by
  constructor
  · exact run_single taken
  · rfl
  · simp [silent]
  · intro other different
    rw [RelyGuarantee.threads_set, if_neg different, ran_snoc]
    exact ⟨rfl, quiet other different _⟩

theorem note_start (job : Job) {other : Tid} (different : other ≠ thread)
    (state : Option Job × List (Job × Option Out)) :
    note other state (.start thread job : Label Tid Job Env Op Res Out) = state :=
  if_neg (Ne.symm different)

theorem note_finish (job : Job) (out : Out) {other : Tid} (different : other ≠ thread)
    (state : Option Job × List (Job × Option Out)) :
    note other state (.finish thread job out : Label Tid Job Env Op Res Out) = state :=
  if_neg (Ne.symm different)

theorem note_fail {other : Tid} (different : other ≠ thread)
    (state : Option Job × List (Job × Option Out)) :
    note other state (.fail thread : Label Tid Job Env Op Res Out) = state :=
  if_neg (Ne.symm different)

/-- An idle thread goes on with the jobs that are left, up to the first request
or to the end of the batch. -/
theorem remaining_turns {reports earlier : List (Job × Option Out)} (rest : List Job)
    (startable : ∀ job ∈ rest, sys.starts thread job = true)
    (again : rest.length ≤ 1 ∨ sys.restarts thread = true) (inner : Config State Tid Job Op Res Out)
    (labels : List (Label Tid Job Env Op Res Out)) (passed : List Job) (done : List (Option Out))
    (rests : Rests (inner.threads thread)) (idle : rest ≠ [] → Idle sys thread (inner.threads thread))
    (same : done.length = passed.length) (kept : reports.Sublist earlier)
    (noted : ran thread labels = (none, earlier ++ passed.zip done)) :
    ∃ more after, Turns sys thread inner labels more after ∧
      Matched sys thread reports (.running (passed ++ rest) (remaining sys.program done rest))
        (after.threads thread) (ran thread (labels ++ more)) := by
  -- A job that does nothing returns at once, so several may pass in one turn.
  induction rest generalizing inner labels passed done with
  | nil =>
      refine ⟨[], inner, turns_refl, ?_⟩
      rw [remaining_nil, List.append_nil, List.append_nil, noted]
      exact .returning rests same kept
  | cons job others ih =>
      have starts := turns_one labels
        (Step.start (idle (List.cons_ne_nil _ _)) (startable job (List.mem_cons_self ..))) rfl
        fun other different => note_start job different
      have later : ∀ job ∈ others, sys.starts thread job = true :=
        fun job member => startable job (List.mem_cons_of_mem _ member)
      have more_jobs : others = [] ∨ sys.restarts thread = true := by
        rcases again with single | restarts
        · exact .inl (List.length_eq_zero_iff.mp (Nat.le_zero.mp (Nat.le_of_succ_le_succ single)))
        · exact .inr restarts
      cases begun : sys.program job with
      | op request next =>
          refine ⟨_, _, starts, ?_⟩
          rw [RelyGuarantee.threads_set, if_pos rfl, ran_snoc, noted, remaining_cons, begun]
          simp only [note, if_true]
          exact .working same kept later more_jobs
      | ret out =>
          rw [begun] at starts
          have there : (inner.set thread (.running job (.ret out))).threads thread =
              .running job (.ret out) := by
            rw [RelyGuarantee.threads_set, if_pos rfl]
          have stops : Step sys (inner.set thread (.running job (.ret out)))
              (.finish thread job out)
              ((inner.set thread (.running job (.ret out))).set thread .ended) := .finish there
          have finishes := turns_one (labels ++ [.start thread job]) stops rfl
            fun other different => note_finish job out different
          have ended : ((inner.set thread (.running job (.ret out))).set thread .ended).threads
              thread = .ended := by
            rw [RelyGuarantee.threads_set, if_pos rfl]
          obtain ⟨more, after, turned, matched⟩ := ih later (by
              rcases more_jobs with rfl | restarts
              · exact .inl (Nat.zero_le _)
              · exact .inr restarts)
            ((inner.set thread (.running job (.ret out))).set thread .ended)
            (labels ++ [.start thread job] ++ [.finish thread job out]) (passed ++ [job])
            (done ++ [some out]) (.inr ended)
            (by
              intro some_left
              rw [ended]
              exact more_jobs.resolve_left some_left)
            (by simp [same])
            (by
              rw [ran_snoc, ran_snoc, noted]
              simp [note, List.zip_append same.symm])
          refine ⟨_, after, turns_trans starts (turns_trans finishes turned), ?_⟩
          rw [remaining_cons, begun]
          simpa [attempt, resume] using matched

section Together
variable {outer : BatchConfig State Tid Job Op Res Out}
  {taken : List (BatchLabel Tid Job Env Op Res Out)}
  {inner : Config State Tid Job Op Res Out} {reports : List (Job × Option Out)} {jobs : List Job}
  {status : Status Job Op Res Out} {noted : Option Job × List (Job × Option Out)}

omit [DecidableEq Tid] in
theorem matched_op {request : Op}
    {resumed : Raising Res request → Prog Op (Raising Res) (List (Option Out))}
    (matched : Matched sys thread reports (.running jobs (.op request resumed)) status noted) :
    ∃ passed rest current done next earlier, jobs = passed ++ current :: rest ∧
      resumed none = remaining sys.program (done ++ [none]) rest ∧
      (∀ answer, resumed (some answer) =
        (attempt (next answer)).bind (resume sys.program done rest)) ∧
      status = .running current (.op request next) ∧
      noted = (some current, earlier ++ passed.zip done) ∧ done.length = passed.length ∧
      reports.Sublist earlier ∧ (∀ job ∈ rest, sys.starts thread job = true) ∧
      (rest = [] ∨ sys.restarts thread = true) := by
  generalize stands : Status.running jobs (.op request resumed) = there at matched
  cases matched with
  | fresh kept => cases stands
  | ended rests kept => cases stands
  | returning rests same kept => cases stands
  | working same kept startable again =>
      simp only [attempt, Prog.op_bind] at stands
      cases stands
      exact ⟨_, _, _, _, _, _, rfl, rfl, fun _ => rfl, rfl, rfl, same, kept, startable, again⟩

omit [DecidableEq Tid] in
theorem matched_ret {outs : List (Option Out)}
    (matched : Matched sys thread reports (.running jobs (.ret outs)) status noted) :
    ∃ earlier, Rests status ∧ outs.length = jobs.length ∧ reports.Sublist earlier ∧
      noted = (none, earlier ++ jobs.zip outs) := by
  generalize stands : Status.running jobs (.ret outs) = there at matched
  cases matched with
  | fresh kept => cases stands
  | ended rests kept => cases stands
  | returning rests same kept =>
      cases stands
      exact ⟨_, rests, same, kept, rfl⟩
  | working same kept startable again => simp [attempt] at stands

omit [DecidableEq Tid] in
theorem matched_idle {standing : BatchStatus Job Op Res Out}
    (matched : Matched sys thread reports standing status noted)
    (idle : Idle (batched sys) thread standing) :
    Rests status ∧ Idle sys thread status ∧ noted.1 = none ∧ reports.Sublist noted.2 := by
  cases matched with
  | fresh kept => exact ⟨.inl rfl, trivial, rfl, kept⟩
  | ended rests kept =>
      refine ⟨rests, ?_, rfl, kept⟩
      rcases rests with rfl | rfl
      · trivial
      · exact idle
  | returning rests same kept => exact idle.elim
  | working same kept startable again => exact idle.elim

theorem reported_snoc (thread : Tid)
    (label : BatchLabel Tid Job Env Op Res Out) :
    reported thread (taken ++ [label]) = reported thread taken ++ reported thread [label] := by
  simp [reported]

structure Moves (outer outer' : BatchConfig State Tid Job Op Res Out)
    (thread : Tid) (standing : BatchStatus Job Op Res Out)
    (label : BatchLabel Tid Job Env Op Res Out) : Prop where
  mine : outer'.threads thread = standing
  others : ∀ other, other ≠ thread → outer'.threads other = outer.threads other
  quiet : ∀ other, other ≠ thread → reported other [label] = []
  own : ∀ other jobs outs, label = .finish other jobs outs → other = thread

variable {outer' : BatchConfig State Tid Job Op Res Out} {thread : Tid}
  {standing : BatchStatus Job Op Res Out}
  {label : BatchLabel Tid Job Env Op Res Out}

/-- A step of a batch that is matched by a step of its job and some turns after it. -/
theorem moves_together (together : Together sys outer taken inner labels)
    (moves : Moves outer outer' thread standing label)
    (ends : ∀ jobs outs, label = .finish thread jobs outs → outs.length = jobs.length)
    (shared : middle.shared = outer'.shared)
    (effects : first.filter effective = [label].filterMap effect)
    (others : ∀ other, other ≠ thread → middle.threads other = inner.threads other ∧
      ran other (labels ++ first) = ran other labels)
    (turns : Turns sys thread middle (labels ++ first) second after)
    (matched : Matched sys thread (reported thread taken ++ reported thread [label]) standing
      (after.threads thread) (ran thread (labels ++ first ++ second))) :
    Together sys outer' (taken ++ [label]) after (labels ++ (first ++ second)) := by
  rw [← List.append_assoc]
  constructor
  · exact turns.shared.trans shared
  · rw [List.filter_append, List.filter_append, turns.effects, List.append_nil, together.effects,
      effects, List.filterMap_append]
  · intro other jobs outs member
    rcases List.mem_append.mp member with earlier | now
    · exact together.whole other jobs outs earlier
    · have same := (List.mem_singleton.mp now).symm
      obtain rfl := moves.own other jobs outs same
      exact ends jobs outs same
  · intro other
    rw [reported_snoc]
    by_cases mine : other = thread
    · subst mine
      rw [moves.mine]
      exact matched
    · obtain ⟨same, quiet⟩ := turns.others other mine
      obtain ⟨stays, still⟩ := others other mine
      rw [moves.quiet other mine, List.append_nil, moves.others other mine, same, stays, quiet,
        still]
      exact together.threads other

theorem start_together (together : Together sys outer taken inner labels)
    (idle : Idle (batched sys) thread (outer.threads thread))
    (may : (batched sys).starts thread jobs = true)
    (shared : outer'.shared = outer.shared)
    (moves : Moves outer outer' thread (.running jobs (batch sys.program jobs))
      (.start thread jobs : BatchLabel Tid Job Env Op Res Out)) :
    ∃ after more, Run (Step sys) inner more after ∧
      Together sys outer' (taken ++ [.start thread jobs]) after (labels ++ more) := by
  obtain ⟨rests, may_start, quiet, kept⟩ := matched_idle (together.threads thread) idle
  simp only [batched, Bool.and_eq_true, Bool.or_eq_true, List.all_eq_true, decide_eq_true_eq] at may
  have noted : ran thread labels = (none, (ran thread labels).2 ++ [].zip []) := by
    rw [List.zip_nil_left, List.append_nil]
    exact Prod.ext quiet rfl
  obtain ⟨more, after, turns, matched⟩ := remaining_turns jobs may.1 may.2 inner labels [] [] rests
    (fun _ => may_start) rfl kept noted
  rw [remaining_all, List.nil_append] at matched
  refine ⟨after, [] ++ more, turns.run, ?_⟩
  refine moves_together together moves (by simp) (together.shared.trans shared.symm) rfl
    (fun _ _ => ⟨rfl, by rw [List.append_nil]⟩) (by rw [List.append_nil]; exact turns) ?_
  simpa [reported] using matched

theorem follow_turns {passed rest : List Job} {current : Job} {done : List (Option Out)}
    {reports earlier : List (Job × Option Out)} {out : Option Out}
    (same : done.length = passed.length) (kept : reports.Sublist earlier)
    (startable : ∀ job ∈ rest, sys.starts thread job = true)
    (again : rest = [] ∨ sys.restarts thread = true) (stops : inner.threads thread = .ended)
    (noted : ran thread labels = (none, earlier ++ passed.zip done ++ [(current, out)])) :
    ∃ more after, Turns sys thread inner labels more after ∧
      Matched sys thread reports (.running (passed ++ current :: rest)
        (remaining sys.program (done ++ [out]) rest)) (after.threads thread)
        (ran thread (labels ++ more)) := by
  have short : rest.length ≤ 1 ∨ sys.restarts thread = true := by
    rcases again with rfl | restarts
    · exact .inl (Nat.zero_le _)
    · exact .inr restarts
  have turned := remaining_turns rest startable short inner labels (passed ++ [current])
    (done ++ [out]) (.inr stops) (fun left => by rw [stops]; exact again.resolve_left left)
    (by simp [same]) kept (by rw [noted]; simp [List.zip_append same.symm])
  simpa using turned

theorem raise_together (together : Together sys outer taken inner labels) {request : Op}
    {resumed : Raising Res request → Prog Op (Raising Res) (List (Option Out))}
    (at_op : outer.threads thread = .running jobs (.op request resumed))
    (shared : outer'.shared = outer.shared)
    (moves : Moves outer outer' thread (.running jobs (resumed none))
      (.act thread request none : BatchLabel Tid Job Env Op Res Out)) :
    ∃ after more, Run (Step sys) inner more after ∧
      Together sys outer' (taken ++ [.act thread request none]) after (labels ++ more) := by
  have mine := together.threads thread
  rw [at_op] at mine
  obtain ⟨passed, rest, current, done, next, earlier, rfl, raising, _, status, noted, same, kept,
    startable, again⟩ := matched_op mine
  have failing : Step sys inner (.fail thread) (inner.set thread .ended) := Step.fail status
  have fails := turns_one labels failing rfl fun other different => note_fail different
  have stops : (inner.set thread .ended).threads thread = .ended := by
    rw [RelyGuarantee.threads_set, if_pos rfl]
  obtain ⟨more, after, turns, matched⟩ := follow_turns same kept startable again stops
    (by rw [ran_snoc, noted]; simp [note] : ran thread (labels ++ [.fail thread]) =
      (none, earlier ++ passed.zip done ++ [(current, none)]))
  rw [← raising] at matched
  refine ⟨after, [.fail thread] ++ more, run_append fails.run turns.run, ?_⟩
  refine moves_together together moves (by simp)
    (fails.shared.trans (together.shared.trans shared.symm)) rfl
    fails.others turns ?_
  simpa [reported] using matched

theorem answer_together (together : Together sys outer taken inner labels) {request : Op}
    {resumed : Raising Res request → Prog Op (Raising Res) (List (Option Out))}
    {answer : Res request} (at_op : outer.threads thread = .running jobs (.op request resumed))
    (done : sys.exec thread outer.shared request answer = some outer'.shared)
    (moves : Moves outer outer' thread (.running jobs (resumed (some answer)))
      (.act thread request (some answer) : BatchLabel Tid Job Env Op Res Out)) :
    ∃ after more, Run (Step sys) inner more after ∧
      Together sys outer' (taken ++ [.act thread request (some answer)]) after (labels ++ more) := by
  have mine := together.threads thread
  rw [at_op] at mine
  obtain ⟨passed, rest, current, ended, next, earlier, rfl, _, answered, status, noted, same, kept,
    startable, again⟩ := matched_op mine
  rw [← together.shared] at done
  obtain ⟨stepped, acts, shared, mine, others⟩ : ∃ stepped,
      Step sys inner (.act thread request answer) stepped ∧ stepped.shared = outer'.shared ∧
      stepped.threads thread = .running current (next answer) ∧
      ∀ other, other ≠ thread → stepped.threads other = inner.threads other := by
    refine ⟨_, Step.act status done, rfl, ?_, ?_⟩
    · change (inner.set thread _).threads thread = _
      rw [RelyGuarantee.threads_set, if_pos rfl]
    · intro other different
      change (inner.set thread _).threads other = _
      rw [RelyGuarantee.threads_set, if_neg different]
  have apart : ∀ other, other ≠ thread → stepped.threads other = inner.threads other ∧
      ran other (labels ++ [.act thread request answer]) = ran other labels := by
    intro other different
    rw [ran_snoc]
    exact ⟨others other different, rfl⟩
  have heard : ran thread (labels ++ [.act thread request answer]) =
      (some current, earlier ++ passed.zip ended) := by
    rw [ran_snoc, noted]
    rfl
  have still : reported thread
      [(.act thread request (some answer) : BatchLabel Tid Job Env Op Res Out)] = [] := rfl
  -- The answer may be the last that the job waits for; then the next ones start.
  cases stands : next answer with
  | op later following =>
      rw [stands] at mine
      refine ⟨stepped, [.act thread request answer] ++ [], run_append (run_single acts) .refl, ?_⟩
      refine moves_together together moves (by simp) shared rfl apart turns_refl ?_
      rw [List.append_nil, heard, mine, still, List.append_nil, answered, stands]
      exact .working same kept startable again
  | ret out =>
      rw [stands] at mine
      have finishing : Step sys stepped (.finish thread current out) (stepped.set thread .ended) :=
        Step.finish mine
      have finishes := turns_one (labels ++ [.act thread request answer]) finishing rfl
        fun other different => note_finish current out different
      have stops : (stepped.set thread .ended).threads thread = .ended := by
        rw [RelyGuarantee.threads_set, if_pos rfl]
      have told : ran thread
          (labels ++ [.act thread request answer] ++ [.finish thread current out]) =
            (none, earlier ++ passed.zip ended ++ [(current, some out)]) := by
        rw [ran_snoc, heard]
        simp [note]
      obtain ⟨more, after, turns, matched⟩ := follow_turns same kept startable again stops told
      have turned := turns_trans finishes turns
      refine ⟨after, [.act thread request answer] ++ ([.finish thread current out] ++ more),
        run_append (run_single acts) turned.run, ?_⟩
      refine moves_together together moves (by simp) shared rfl apart turned ?_
      rw [still, List.append_nil, answered, stands, ← List.append_assoc]
      exact matched

theorem fail_together (together : Together sys outer taken inner labels) {request : Op}
    {resumed : Raising Res request → Prog Op (Raising Res) (List (Option Out))}
    (at_op : outer.threads thread = .running jobs (.op request resumed))
    (shared : outer'.shared = outer.shared)
    (moves : Moves outer outer' thread .ended
      (.fail thread : BatchLabel Tid Job Env Op Res Out)) :
    ∃ after more, Run (Step sys) inner more after ∧
      Together sys outer' (taken ++ [.fail thread]) after (labels ++ more) := by
  have mine := together.threads thread
  rw [at_op] at mine
  obtain ⟨passed, rest, current, done, next, earlier, rfl, _, _, status, noted, same, kept, _, _⟩ :=
    matched_op mine
  have failing : Step sys inner (.fail thread) (inner.set thread .ended) := Step.fail status
  have fails := turns_one labels failing rfl fun other different => note_fail different
  refine ⟨inner.set thread .ended, [] ++ [.fail thread], run_single failing, ?_⟩
  refine moves_together together moves (by simp) (together.shared.trans shared.symm) rfl
    (fun _ _ => ⟨rfl, by rw [List.append_nil]⟩) (by rw [List.append_nil]; exact fails) ?_
  rw [List.append_nil, ran_snoc, noted, RelyGuarantee.threads_set, if_pos rfl]
  simp only [note, if_true]
  refine .ended (.inr rfl) ?_
  change (reported thread taken ++ []).Sublist _
  rw [List.append_nil, List.append_assoc]
  exact kept.trans (List.sublist_append_left _ _)

theorem finish_together (together : Together sys outer taken inner labels) {outs : List (Option Out)}
    (at_ret : outer.threads thread = .running jobs (.ret outs))
    (shared : outer'.shared = outer.shared)
    (moves : Moves outer outer' thread .ended
      (.finish thread jobs outs : BatchLabel Tid Job Env Op Res Out)) :
    ∃ after more, Run (Step sys) inner more after ∧
      Together sys outer' (taken ++ [.finish thread jobs outs]) after (labels ++ more) := by
  have mine := together.threads thread
  rw [at_ret] at mine
  obtain ⟨earlier, rests, same, kept, noted⟩ := matched_ret mine
  refine ⟨inner, [] ++ [], .refl, ?_⟩
  refine moves_together together moves (by rintro _ _ ⟨⟩; exact same)
    (together.shared.trans shared.symm) rfl
    (fun _ _ => ⟨rfl, by rw [List.append_nil]⟩) turns_refl ?_
  rw [List.append_nil, List.append_nil, noted]
  refine .ended rests ?_
  have mine : reported thread [(.finish thread jobs outs : BatchLabel Tid Job Env Op Res Out)] =
      jobs.zip outs := by
    simp [reported]
  rw [mine]
  exact kept.append_right _

/-- Every step of the pool of batches is some steps of the pool of single jobs. -/
theorem step_together (together : Together sys outer taken inner labels)
    (step : Step (batched sys) outer label outer') :
    ∃ after more, Run (Step sys) inner more after ∧
      Together sys outer' (taken ++ [label]) after (labels ++ more) := by
  have mine : ∀ (thread : Tid) standing, (outer.set thread standing).threads thread = standing := by
    intro thread standing
    rw [RelyGuarantee.threads_set, if_pos rfl]
  have others : ∀ (thread : Tid) standing other, other ≠ thread →
      (outer.set thread standing).threads other = outer.threads other := by
    intro thread standing other different
    rw [RelyGuarantee.threads_set, if_neg different]
  cases step with
  | @start thread jobs idle may =>
      exact start_together together idle may rfl ⟨mine _ _, others _ _, fun _ _ => rfl, by simp⟩
  | @act thread jobs request resumed answer shared at_op done =>
      cases answer with
      | none =>
          obtain rfl : outer.shared = shared := by simpa [batched] using done
          exact raise_together together at_op rfl ⟨mine _ _, others _ _, fun _ _ => rfl, by simp⟩
      | some answer => exact answer_together together at_op done ⟨mine _ _, others _ _, fun _ _ => rfl, by simp⟩
  | @fail thread jobs request resumed at_op =>
      exact fail_together together at_op rfl ⟨mine _ _, others _ _, fun _ _ => rfl, by simp⟩
  | @finish thread jobs outs at_ret =>
      refine finish_together together at_ret rfl ⟨mine _ _, others _ _, ?_, ?_⟩
      · intro other different
        simp [reported, Ne.symm different]
      · rintro other _ _ ⟨⟩
        rfl
  | @env event shared done =>
      have moved : Step sys inner (.env event) { inner with shared := shared } :=
        Step.env (by rw [together.shared]; exact done)
      refine ⟨_, [.env event], run_single moved, rfl, ?_, ?_, ?_⟩
      · rw [List.filter_append, List.filterMap_append, together.effects]
        rfl
      · intro thread jobs outs member
        exact together.whole thread jobs outs (by simpa using member)
      · intro thread
        rw [reported_snoc, ran_snoc]
        change Matched _ _ (_ ++ []) _ _ (ran thread labels)
        rw [List.append_nil]
        exact together.threads thread

/-- A run of batches is a run of single jobs with the same effects, in which
every job of a finished batch was run to the end the batch reports for it. -/
theorem batches_refine {start : BatchConfig State Tid Job Op Res Out}
    (fresh : ∀ thread, start.threads thread = .fresh) (run : Run (Step (batched sys)) start taken outer) :
    ∃ after labels, Run (Step sys) ⟨start.shared, fun _ => .fresh⟩ labels after ∧
      Together sys outer taken after labels := by
  induction run with
  | refl =>
      refine ⟨_, [], .refl, rfl, rfl, by simp, ?_⟩
      intro thread
      rw [fresh]
      exact .fresh (List.nil_sublist _)
  | @next middle outer taken label _ step ih =>
      obtain ⟨before, front, ran, together⟩ := ih
      obtain ⟨after, more, moved, there⟩ := step_together together step
      exact ⟨after, front ++ more, run_append ran moved, there⟩

omit [DecidableEq Tid] in
theorem matched_reports
    (matched : Matched sys thread reports standing status noted) : reports.Sublist noted.2 := by
  cases matched with
  | fresh kept => exact kept
  | ended rests kept => exact kept
  | returning rests same kept => exact kept.trans (List.sublist_append_left _ _)
  | working same kept startable again => exact kept.trans (List.sublist_append_left _ _)

end Together

end Pool

end SecureFileSystem.Attempts
