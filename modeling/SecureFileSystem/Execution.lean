import SecureFileSystem.RelyGuarantee

/-!
One program from its start to its result, while others move between any two of
its requests. A thread of a pool that comes to the end of its program has
executed it in this sense, with the answers its steps carry.
-/

namespace SecureFileSystem.Execution

open Transition Program RelyGuarantee

variable {State Tid Job Env Op Out Mid : Type} {Res : Op → Type}

abbrev Answered (Res : Op → Type) := (request : Op) × Res request

/-- The answers are in the order of the requests. -/
inductive Executes (exec : State → (request : Op) → Res request → Option State)
    (others : State → State → Prop) :
    Prog Op Res Out → State → List (Answered Res) → Out → State → Prop
  | ret {out : Out} {state : State} : Executes exec others (.ret out) state [] out state
  | wait {prog : Prog Op Res Out} {before middle after : State} {answers : List (Answered Res)}
      {out : Out} (moved : others before middle)
      (rest : Executes exec others prog middle answers out after) :
      Executes exec others prog before answers out after
  | op {request : Op} {next : Res request → Prog Op Res Out} {answer : Res request}
      {before middle after : State} {answers : List (Answered Res)} {out : Out}
      (done : exec before request answer = some middle)
      (rest : Executes exec others (next answer) middle answers out after) :
      Executes exec others (.op request next) before (⟨request, answer⟩ :: answers) out after

variable {exec : State → (request : Op) → Res request → Option State}
  {others : State → State → Prop} {before after : State} {answers : List (Answered Res)}

theorem executes_ret {out result : Out}
    (executes : Executes exec others (.ret out) before answers result after) :
    result = out ∧ answers = [] ∧ Relation.ReflTransGen others before after := by
  generalize same : (.ret out : Prog Op Res Out) = prog at executes
  induction executes with
  | ret =>
      cases same
      exact ⟨rfl, rfl, .refl⟩
  | wait moved _ ih =>
      obtain ⟨result, none, rest⟩ := ih same
      exact ⟨result, none, .head moved rest⟩
  | op => cases same

theorem executes_op {request : Op} {next : Res request → Prog Op Res Out} {out : Out}
    (executes : Executes exec others (.op request next) before answers out after) :
    ∃ (here : State) (answer : Res request) (middle : State) (rest : List (Answered Res)),
      Relation.ReflTransGen others before here ∧ exec here request answer = some middle ∧
        Executes exec others (next answer) middle rest out after ∧
        answers = ⟨request, answer⟩ :: rest := by
  generalize same : (.op request next : Prog Op Res Out) = prog at executes
  induction executes with
  | ret => cases same
  | wait moved _ ih =>
      obtain ⟨here, answer, middle, rest, moves, done, executes, split⟩ := ih same
      exact ⟨here, answer, middle, rest, .head moved moves, done, executes, split⟩
  | op done executes =>
      cases same
      exact ⟨_, _, _, _, .refl, done, executes, rfl⟩

theorem executes_after {prog : Prog Op Res Out} {out : Out} {middle : State}
    (moves : Relation.ReflTransGen others before middle)
    (executes : Executes exec others prog middle answers out after) :
    Executes exec others prog before answers out after := by
  induction moves using Relation.ReflTransGen.head_induction_on with
  | refl => exact executes
  | head moved _ ih => exact .wait moved ih

theorem executes_bind {first : Prog Op Res Mid} {rest : Mid → Prog Op Res Out} {out : Out}
    (executes : Executes exec others (first.bind rest) before answers out after) :
    ∃ (early late : List (Answered Res)) (mid : Mid) (middle : State),
      answers = early ++ late ∧ Executes exec others first before early mid middle ∧
        Executes exec others (rest mid) middle late out after := by
  induction first generalizing before answers with
  | ret mid => exact ⟨[], answers, mid, before, rfl, .ret, executes⟩
  | op request next ih =>
      obtain ⟨here, answer, middle, later, moves, done, further, rfl⟩ := executes_op executes
      obtain ⟨early, late, mid, between, rfl, head, tail⟩ := ih answer further
      exact ⟨⟨request, answer⟩ :: early, late, mid, between, rfl,
        executes_after moves (.op done head), tail⟩

/-- Interference after the last request changes nothing. -/
theorem executes_later {prog : Prog Op Res Out} {out : Out} {later : State}
    (executes : Executes exec others prog before answers out after)
    (moves : Relation.ReflTransGen others after later) :
    Executes exec others prog before answers out later := by
  induction executes with
  | ret => exact executes_after moves .ret
  | wait moved _ ih => exact .wait moved (ih moves)
  | op done _ ih => exact .op done (ih moves)

theorem executes_only {kind : Op → Prop} {inv : State → Prop} {prog : Prog Op Res Out} {out : Out}
    (only : prog.Only kind)
    (kept : ∀ state request answer next, kind request → exec state request answer = some next →
      inv state → inv next)
    (quiet : ∀ state next, others state next → inv state → inv next)
    (executes : Executes exec others prog before answers out after) (start : inv before) :
    inv after := by
  induction executes with
  | ret => exact start
  | wait moved _ ih => exact ih only (quiet _ _ moved start)
  | op done _ ih => exact ih (only.2 _) (kept _ _ _ _ only.1 done start)

/-- All that such a program has asked for is of that kind. -/
theorem executes_kinds {kind : Op → Prop} {prog : Prog Op Res Out} {out : Out}
    (only : prog.Only kind) (executes : Executes exec others prog before answers out after) :
    ∀ answered ∈ answers, kind answered.1 := by
  induction executes with
  | ret => simp
  | wait _ _ ih => exact ih only
  | op _ _ ih =>
      intro answered member
      rcases List.mem_cons.mp member with rfl | later
      · exact only.1
      · exact ih (only.2 _) answered later

def Still (_ _ : State) : Prop := False

theorem still_moves (moves : Relation.ReflTransGen Still before after) : after = before := by
  induction moves with
  | refl => rfl
  | tail _ moved _ => exact moved.elim

theorem still_ret {out result : Out}
    (executes : Executes exec Still (.ret out) before answers result after) :
    result = out ∧ answers = [] ∧ after = before := by
  obtain ⟨result, none, moves⟩ := executes_ret executes
  exact ⟨result, none, still_moves moves⟩

theorem still_op {request : Op} {next : Res request → Prog Op Res Out} {out : Out}
    (executes : Executes exec Still (.op request next) before answers out after) :
    ∃ (answer : Res request) (middle : State) (rest : List (Answered Res)),
      exec before request answer = some middle ∧
        Executes exec Still (next answer) middle rest out after ∧
        answers = ⟨request, answer⟩ :: rest := by
  obtain ⟨here, answer, middle, rest, moves, done, further, split⟩ := executes_op executes
  obtain rfl := still_moves moves
  exact ⟨answer, middle, rest, done, further, split⟩

/-- The program can always go on, however the others move, and its result satisfies `post`. -/
def Returns (exec : State → (request : Op) → Res request → Option State)
    (others : State → State → Prop) (post : Out → State → Prop) : Prog Op Res Out → State → Prop
  | .ret out, state => ∀ later, Relation.ReflTransGen others state later → post out later
  | .op request next, state => ∀ here, Relation.ReflTransGen others state here →
      (∃ later answer after, Relation.ReflTransGen others here later ∧
        exec later request answer = some after) ∧
      ∀ answer after, exec here request answer = some after →
        Returns exec others post (next answer) after

section Returns
variable {state : State} {post : Out → State → Prop} {holds : State → Prop}

theorem moves_stable (stable : ∀ before after, others before after → holds before → holds after)
    (moves : Relation.ReflTransGen others before after) (start : holds before) : holds after := by
  induction moves with
  | refl => exact start
  | tail _ moved ih => exact stable _ _ moved ih

theorem returns_ret (stable : ∀ before after, others before after → holds before → holds after)
    {out : Out} (start : holds state) (done : ∀ later, holds later → post out later) :
    Returns exec others post (.ret out) state :=
  fun later moves => done later (moves_stable stable moves start)

theorem returns_op (stable : ∀ before after, others before after → holds before → holds after)
    {request : Op} {next : Res request → Prog Op Res Out} (start : holds state)
    (answerable : ∀ here, holds here → ∃ later answer after,
      Relation.ReflTransGen others here later ∧ exec later request answer = some after)
    (step : ∀ here answer after, holds here → exec here request answer = some after →
      Returns exec others post (next answer) after) :
    Returns exec others post (.op request next) state := by
  intro here moves
  have now := moves_stable stable moves start
  exact ⟨answerable here now, fun answer after done => step here answer after now done⟩

theorem returns_later {prog : Prog Op Res Out} (returns : Returns exec others post prog before)
    (moves : Relation.ReflTransGen others before after) : Returns exec others post prog after := by
  cases prog with
  | ret out => exact fun later further => returns later (moves.trans further)
  | op request next => exact fun here further => returns here (moves.trans further)

theorem returns_bind {between : Mid → State → Prop} {first : Prog Op Res Mid}
    {rest : Mid → Prog Op Res Out} (head : Returns exec others between first state)
    (tail : ∀ out later, between out later → Returns exec others post (rest out) later) :
    Returns exec others post (first.bind rest) state := by
  induction first generalizing state with
  | ret out =>
      have now := tail out state (head state .refl)
      exact now
  | op request next ih =>
      intro here moves
      obtain ⟨answerable, step⟩ := head here moves
      exact ⟨answerable, fun answer after done => ih answer (step answer after done)⟩

theorem returns_executes {prog : Prog Op Res Out} {out : Out}
    (returns : Returns exec others post prog before)
    (executes : Executes exec others prog before answers out after) : post out after := by
  induction executes with
  | ret => exact returns _ .refl
  | wait moved _ ih => exact ih (returns_later returns (.single moved))
  | op done _ ih => exact ih ((returns _ .refl).2 _ _ done)

theorem returns_runs {prog : Prog Op Res Out} (returns : Returns exec others post prog state) :
    ∃ answers out final, Executes exec others prog state answers out final := by
  induction prog generalizing state with
  | ret out => exact ⟨[], out, state, .ret⟩
  | op request next ih =>
      obtain ⟨later, answer, after, moves, done⟩ := (returns state .refl).1
      obtain ⟨answers, out, final, executes⟩ := ih answer ((returns later moves).2 answer after done)
      exact ⟨_, out, final, executes_after moves (.op done executes)⟩

end Returns

section Pool
variable {sys : System State Tid Job Env Op Res Out} {thread : Tid} [DecidableEq Tid]

def answersOf (thread : Tid) : List (Label Tid Job Env Op Res Out) → List (Answered Res)
  | [] => []
  | .act moving request answer :: rest =>
      if moving = thread then ⟨request, answer⟩ :: answersOf thread rest else answersOf thread rest
  | _ :: rest => answersOf thread rest

theorem answersOf_append (front rest : List (Label Tid Job Env Op Res Out)) :
    answersOf thread (front ++ rest) = answersOf thread front ++ answersOf thread rest := by
  induction front with
  | nil => rfl
  | cons label front ih =>
      cases label with
      | act moving request answer =>
          by_cases mine : moving = thread
          · simp [answersOf, mine, ih]
          · simp [answersOf, mine, ih]
      | _ => exact ih

theorem answersOf_own (request : Op) (answer : Res request) :
    answersOf thread [(.act thread request answer : Label Tid Job Env Op Res Out)] =
      [⟨request, answer⟩] := if_pos rfl

theorem answersOf_other {label : Label Tid Job Env Op Res Out} (apart : ¬ By thread label) :
    answersOf thread [label] = [] := by
  cases label with
  | act moving request answer => exact if_neg apart
  | _ => rfl

/-- A thread that takes no other job advances in the last part of its program. -/
theorem run_advances {first : Prog Op Res Mid} {change : Mid → Out} {job : Job}
    {before after : Config State Tid Job Op Res Out} {labels : List (Label Tid Job Env Op Res Out)}
    (run : Run (Step sys) before labels after)
    (running : before.threads thread = .running job (first.bind fun out => .ret (change out)))
    (acts : ∀ label ∈ labels, By thread label →
      ∃ request answer, label = .act thread request answer) :
    ∃ rest, Advances thread first labels rest ∧
      after.threads thread = .running job (rest.bind fun out => .ret (change out)) := by
  induction run with
  | refl => exact ⟨first, .refl, running⟩
  | @next middle last labels label ran taken ih =>
      obtain ⟨rest, advances, at_rest⟩ :=
        ih fun label member => acts label (List.mem_append_left _ member)
      by_cases mine : By thread label
      · obtain ⟨request, answer, rfl⟩ := acts label (by simp) mine
        cases taken with
        | act at_op done =>
            rw [at_rest] at at_op
            cases rest with
            | ret out => cases at_op
            | op asked further =>
                cases at_op
                refine ⟨further answer, .own answer advances, ?_⟩
                exact (threads_set middle thread thread _).trans (if_pos rfl)
      · exact ⟨rest, .other mine advances, (step_other taken mine).trans at_rest⟩

/-- A thread that has come to a result has executed its program; what the
others do is judged in the states that an invariant describes. -/
theorem run_executes {first : Prog Op Res Mid} {out : Mid}
    {inv : Config State Tid Job Op Res Out → Prop}
    {may : Config State Tid Job Op Res Out → Label Tid Job Env Op Res Out → Prop}
    (kept : ∀ config label next, inv config → Guarded may (Step sys) config label next → inv next)
    (moves : ∀ config label next, inv config → ¬ By thread label →
      Guarded may (Step sys) config label next → others config.shared next.shared)
    {before after : Config State Tid Job Op Res Out} {labels : List (Label Tid Job Env Op Res Out)}
    (start : inv before) (run : Run (Guarded may (Step sys)) before labels after)
    (advances : Advances thread first labels (.ret out)) :
    Executes (sys.exec thread) others first before.shared (answersOf thread labels) out
      after.shared := by
  have fits := advances_invariant
    (fun labels rest (config : Config State Tid Job Op Res Out) => inv config ∧
      ∀ answers result final, Executes (sys.exec thread) others rest config.shared answers result
        final → Executes (sys.exec thread) others first before.shared
          (answersOf thread labels ++ answers) result final)
    ?_ ?_ ?_ run advances
  · simpa using fits.2 [] out after.shared .ret
  · intro labels config request resume answer next earlier step
    refine ⟨kept _ _ _ earlier.1 step, fun answers result final executes => ?_⟩
    rw [answersOf_append, List.append_assoc]
    apply earlier.2
    obtain ⟨taken, -⟩ := step
    cases taken with
    | act at_op done =>
        rw [answersOf_own]
        exact .op done executes
  · intro labels rest config label next earlier apart step
    refine ⟨kept _ _ _ earlier.1 step, fun answers result final executes => ?_⟩
    rw [answersOf_append, answersOf_other apart, List.append_nil]
    exact earlier.2 answers result final
      (.wait (moves config label next earlier.1 apart step) executes)
  · exact ⟨start, fun answers result final executes => executes⟩

end Pool

end SecureFileSystem.Execution
