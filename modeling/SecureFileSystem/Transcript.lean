import SecureFileSystem.Execution

/-!
What a thread was told on the way to its result. A result that a program can
only give after certain answers is a witness to them: they stand in the run,
after the start of the job and before its end. A request that no way through a
program makes twice stands there once.
-/

namespace SecureFileSystem.Transcript

open Transition Program RelyGuarantee Execution

variable {State Tid Job Env Op Out Mid : Type} {Res : Op → Type}

/-- Every result the program can come to is borne out by what it has been told. -/
abbrev Shows (fact : List (Answered Res) → Out → Prop) (told : List (Answered Res))
    (prog : Prog Op Res Out) : Prop :=
  prog.Informed (fun _ _ => True) (fun told request answer => told ++ [⟨request, answer⟩]) fact told

section Programs
variable {told : List (Answered Res)} {fact : List (Answered Res) → Out → Prop}

theorem shows_ends {between : Mid → Prop} {first : Prog Op Res Mid} {rest : Mid → Prog Op Res Out}
    (ends : first.Ends between)
    (tail : ∀ more out, told <+: more → between out → Shows fact more (rest out)) :
    Shows fact told (first.bind rest) := by
  induction first generalizing told with
  | ret out => exact tail told out List.prefix_rfl ends
  | op request next ih =>
      refine ⟨trivial, fun answer => ih answer (ends answer) ?_⟩
      intro more out grown
      exact tail more out ((List.prefix_append _ _).trans grown)

theorem shows_map {change : Mid → Out} {first : Prog Op Res Mid}
    (shows : Shows (fun told out => fact told (change out)) told first) :
    Shows fact told (first.bind fun out => .ret (change out)) :=
  Prog.informed_bind shows fun _ _ held => held

end Programs

section Threads
variable {thread : Tid} {first rest : Prog Op Res Out} {out : Out}
  {told : List (Answered Res)} {fact : List (Answered Res) → Out → Prop}
  {labels : List (Label Tid Job Env Op Res Out)} {request : Op} {answer : Res request}

theorem answersOf_mem [DecidableEq Tid]
    (member : (⟨request, answer⟩ : Answered Res) ∈ answersOf thread labels) :
    .act thread request answer ∈ labels := by
  induction labels with
  | nil => cases member
  | cons label labels ih =>
      cases label with
      | act moving asked given =>
          by_cases mine : moving = thread
          · subst moving
            rw [answersOf, if_pos rfl] at member
            rcases List.mem_cons.mp member with now | later
            · cases now
              exact List.mem_cons_self
            · exact List.mem_cons_of_mem _ (ih later)
          · rw [answersOf, if_neg mine] at member
            exact List.mem_cons_of_mem _ (ih member)
      | _ => exact List.mem_cons_of_mem _ (ih member)

variable [DecidableEq Tid]

theorem advances_shows (advances : Advances thread first labels rest)
    (shows : Shows fact told first) : Shows fact (told ++ answersOf thread labels) rest := by
  induction advances with
  | refl => simpa [answersOf] using shows
  | own answer _ ih =>
      rw [answersOf_append, answersOf_own, ← List.append_assoc]
      exact ih.2 answer
  | other apart _ ih =>
      rw [answersOf_append, answersOf_other apart, List.append_nil]
      exact ih

variable {sys : System State Tid Job Env Op Res Out}
  {before after : Config State Tid Job Op Res Out} {job : Job}

/-- A thread that runs has advanced in its job since it took it. -/
theorem run_transcript (run : Run (Step sys) before labels after)
    (idle : ∀ job rest, before.threads thread ≠ .running job rest)
    (running : after.threads thread = .running job rest) :
    ∃ early late, labels = early ++ .start thread job :: late ∧
      Advances thread (sys.program job) late rest := by
  -- backwards to the last start of this thread; what comes between is its own or other
  induction run generalizing rest with
  | refl => exact absurd running (idle job rest)
  | @next middle last labels label ran taken ih =>
      by_cases mine : By thread label
      · cases taken with
        | @start moving begun _ _ =>
            obtain rfl : moving = thread := mine
            rw [threads_set, if_pos rfl] at running
            cases running
            exact ⟨labels, [], rfl, .refl⟩
        | @act moving begun request next answer shared at_op _ =>
            obtain rfl : moving = thread := mine
            have moved :=
              (threads_set middle moving moving (.running begun (next answer))).symm.trans running
            rw [if_pos rfl] at moved
            cases moved
            obtain ⟨early, late, rfl, advances⟩ := ih at_op
            exact ⟨early, late ++ [_], by simp, .own answer advances⟩
        | @fail moving _ _ _ _ =>
            obtain rfl : moving = thread := mine
            rw [threads_set, if_pos rfl] at running
            cases running
        | @finish moving _ _ _ =>
            obtain rfl : moving = thread := mine
            rw [threads_set, if_pos rfl] at running
            cases running
        | env _ => exact mine.elim
      · rw [step_other taken mine] at running
        obtain ⟨early, late, rfl, advances⟩ := ih running
        exact ⟨early, late ++ [label], by simp, .other mine advances⟩

theorem run_told (run : Run (Step sys) before labels after)
    (idle : ∀ job rest, before.threads thread ≠ .running job rest)
    (finished : .finish thread job out ∈ labels)
    (shows : Shows fact [] (sys.program job)) :
    ∃ early late rest,
      labels = early ++ .start thread job :: late ++ .finish thread job out :: rest ∧
        fact (answersOf thread late) out := by
  obtain ⟨front, back, left, right, rfl, ran, taken, -⟩ := run_member run finished
  cases taken with
  | finish at_ret =>
      obtain ⟨early, late, rfl, advances⟩ := run_transcript ran idle at_ret
      exact ⟨early, late, back, by simp, advances_shows advances shows⟩

end Threads

section Once
variable {kind : Op → Bool}

/-- No way through the program makes two requests of this kind, counting one
made before if `used`. -/
abbrev Once (kind : Op → Bool) (used : Bool) (prog : Prog Op Res Out) : Prop :=
  prog.Informed (fun used request => kind request = true → used = false)
    (fun used request _ => used || kind request) (fun _ _ => True) used

theorem once_only {used : Bool} {prog : Prog Op Res Out}
    (only : prog.Only fun request => kind request = false) : Once kind used prog := by
  induction prog with
  | ret out => trivial
  | op request next ih =>
      refine ⟨fun same => absurd same (by simp [only.1]), fun answer => ?_⟩
      dsimp only
      rw [only.1, Bool.or_false]
      exact ih answer (only.2 answer)

theorem once_bind {used : Bool} {first : Prog Op Res Mid} {rest : Mid → Prog Op Res Out}
    (only : first.Only fun request => kind request = false)
    (tail : ∀ out, Once kind used (rest out)) : Once kind used (first.bind rest) := by
  induction first with
  | ret out => exact tail out
  | op request next ih =>
      refine ⟨fun same => absurd same (by simp [only.1]), fun answer => ?_⟩
      dsimp only
      rw [only.1, Bool.or_false]
      exact ih answer (only.2 answer)

def asks [DecidableEq Tid] (kind : Op → Bool) (thread : Tid) : Label Tid Job Env Op Res Out → Bool
  | .act moving request _ => moving = thread && kind request
  | _ => false

def Spent (kind : Op → Bool) (asked : Nat) : Status Job Op Res Out → Prop
  | .fresh => asked = 0
  | .running _ rest => ∃ used, Once kind used rest ∧ asked ≤ 1 ∧ (used = false → asked = 0)
  | .ended => asked ≤ 1

variable [DecidableEq Tid] {sys : System State Tid Job Env Op Res Out} {thread : Tid}
  {before after : Config State Tid Job Op Res Out} {labels : List (Label Tid Job Env Op Res Out)}

theorem asks_other {label : Label Tid Job Env Op Res Out} (apart : ¬ By thread label) :
    asks kind thread label = false := by
  cases label with
  | act moving request answer =>
      exact Bool.and_eq_false_imp.mpr fun mine => absurd (of_decide_eq_true mine) apart
  | _ => rfl

/-- A thread that takes one job makes such a request once. -/
theorem run_once (run : Run (Step sys) before labels after) (fresh : before.threads thread = .fresh)
    (single : sys.restarts thread = false)
    (once : ∀ job, sys.starts thread job = true → Once kind false (sys.program job)) :
    Spent kind (labels.filter (asks kind thread)).length (after.threads thread) := by
  induction run with
  | refl =>
      rw [fresh]
      rfl
  | @next middle last labels label ran taken ih =>
      rw [List.filter_append]
      -- Only the thread itself can ask; it asks once in its only job.
      by_cases mine : By thread label
      · cases taken with
        | @start moving job idle may =>
            obtain rfl : moving = thread := mine
            rw [threads_set, if_pos rfl]
            have none : (labels.filter (asks kind moving)).length = 0 := by
              cases status : middle.threads moving with
              | fresh => simpa [status, Spent] using ih
              | running job rest => simp [status, Idle] at idle
              | ended => simp [status, Idle, single] at idle
            exact ⟨false, once job may, by simp [none, asks], by simp [none, asks]⟩
        | @act moving job request next answer shared at_op done =>
            obtain rfl : moving = thread := mine
            rw [at_op] at ih
            obtain ⟨used, may, few, unused⟩ := ih
            change Spent kind _ ((middle.set moving (.running job (next answer))).threads moving)
            rw [threads_set, if_pos rfl]
            refine ⟨used || kind request, may.2 answer, ?_, ?_⟩
            · cases now : kind request with
              | true => simp [asks, now, unused (may.1 now)]
              | false => simpa [asks, now] using few
            · intro never
              obtain ⟨before, now⟩ := Bool.or_eq_false_iff.mp never
              simpa [asks, now] using unused before
        | @fail moving job request next at_op =>
            obtain rfl : moving = thread := mine
            rw [at_op] at ih
            obtain ⟨used, -, few, -⟩ := ih
            rw [threads_set, if_pos rfl]
            simpa [asks, Spent] using few
        | @finish moving job out at_ret =>
            obtain rfl : moving = thread := mine
            rw [at_ret] at ih
            obtain ⟨used, -, few, -⟩ := ih
            rw [threads_set, if_pos rfl]
            simpa [asks, Spent] using few
        | env _ => exact mine.elim
      · rw [step_other taken mine]
        simpa [asks_other mine] using ih

theorem run_asked (run : Run (Step sys) before labels after)
    (fresh : before.threads thread = .fresh) (single : sys.restarts thread = false)
    (once : ∀ job, sys.starts thread job = true → Once kind false (sys.program job))
    {left right : Label Tid Job Env Op Res Out} (inLeft : left ∈ labels) (inRight : right ∈ labels)
    (askedLeft : asks kind thread left = true) (askedRight : asks kind thread right = true) :
    left = right := by
  have few : (labels.filter (asks kind thread)).length ≤ 1 := by
    have spent := run_once run fresh single once
    cases status : after.threads thread with
    | fresh => exact (status ▸ spent : _ = 0) ▸ Nat.zero_le 1
    | running job rest =>
        rw [status] at spent
        obtain ⟨_, _, few, _⟩ := spent
        exact few
    | ended => exact (status ▸ spent : _ ≤ 1)
  have first := List.mem_filter.mpr ⟨inLeft, askedLeft⟩
  have second := List.mem_filter.mpr ⟨inRight, askedRight⟩
  match found : labels.filter (asks kind thread), few with
  | [], _ => simp [found] at first
  | [only], _ =>
      rw [found, List.mem_singleton] at first second
      rw [first, second]

end Once

section Echoes
variable {Step Token : Type} [DecidableEq Token]

def echoes (out back : Step → Option Token) : List Token → List Step → Bool
  | _, [] => true
  | seen, step :: rest =>
      (back step).all (· ∈ seen) && echoes out back ((out step).toList ++ seen) rest

theorem echoes_seen {out back : Step → Option Token} {seen : List Token} {early late : List Step}
    {step : Step} {token : Token} (passed : echoes out back seen (early ++ step :: late) = true)
    (given : back step = some token) :
    token ∈ seen ∨ ∃ source ∈ early, out source = some token := by
  induction early generalizing seen with
  | nil =>
      rw [List.nil_append, echoes, Bool.and_eq_true, given] at passed
      exact Or.inl (of_decide_eq_true passed.1)
  | cons source early ih =>
      rw [List.cons_append, echoes, Bool.and_eq_true] at passed
      rcases ih passed.2 with held | ⟨later, member, same⟩
      · rcases List.mem_append.mp held with now | older
        · exact Or.inr ⟨source, List.mem_cons_self, Option.mem_toList.mp now⟩
        · exact Or.inl older
      · exact Or.inr ⟨later, List.mem_cons_of_mem _ member, same⟩

end Echoes

end SecureFileSystem.Transcript
