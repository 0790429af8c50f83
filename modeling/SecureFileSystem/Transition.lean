import Mathlib

/-!
Finite runs of a labelled step relation. A guard restricts which steps a run
may take, judged in the state before the step; every guarded run is a run, and
an invariant need only survive the steps the guard lets through.
-/

namespace SecureFileSystem.Transition

variable {State Label : Type}

/-- Finite runs, with the labels of their steps oldest first. -/
inductive Run (step : State → Label → State → Prop) (before : State) :
    List Label → State → Prop
  | refl : Run step before [] before
  | next {middle after : State} {labels : List Label} {label : Label} :
      Run step before labels middle → step middle label after →
        Run step before (labels ++ [label]) after

/-- The steps a guard on the state before them lets through. -/
def Guarded (guard : State → Label → Prop) (step : State → Label → State → Prop) :
    State → Label → State → Prop :=
  fun before label after => step before label after ∧ guard before label

variable {step : State → Label → State → Prop}

theorem run_single {before after : State} {label : Label} (taken : step before label after) :
    Run step before [label] after := by
  simpa using Run.next Run.refl taken

theorem run_append {before middle after : State} {first second : List Label}
    (left : Run step before first middle) (right : Run step middle second after) :
    Run step before (first ++ second) after := by
  induction right with
  | refl => simpa using left
  | next _ taken ih => simpa using Run.next ih taken

theorem run_cons {before middle after : State} {label : Label} {labels : List Label}
    (taken : step before label middle) (rest : Run step middle labels after) :
    Run step before (label :: labels) after := by
  simpa using run_append (run_single taken) rest

theorem run_split {before after : State} {labels : List Label} (run : Run step before labels after)
    (first second : List Label) (same : labels = first ++ second) :
    ∃ middle, Run step before first middle ∧ Run step middle second after := by
  induction run generalizing second with
  | refl =>
      obtain ⟨rfl, rfl⟩ := List.append_eq_nil_iff.mp same.symm
      exact ⟨before, .refl, .refl⟩
  | @next middle after labels label ran taken ih =>
      rcases List.eq_nil_or_concat second with rfl | ⟨initial, last, rfl⟩
      · rw [List.append_nil] at same
        exact ⟨after, same ▸ Run.next ran taken, .refl⟩
      · rw [List.concat_eq_append, ← List.append_assoc] at same
        obtain ⟨front, back⟩ := List.append_inj' same rfl
        obtain ⟨state, before_state, state_middle⟩ := ih initial front
        rw [List.cons.injEq] at back
        rw [List.concat_eq_append, ← back.1]
        exact ⟨state, before_state, Run.next state_middle taken⟩

theorem run_empty {before after : State} {labels : List Label}
    (run : Run step before labels after) (empty : labels = []) : after = before := by
  cases run with
  | refl => rfl
  | next ran taken => simp at empty

theorem run_uncons {before after : State} {label : Label} {labels : List Label}
    (run : Run step before (label :: labels) after) :
    ∃ middle, step before label middle ∧ Run step middle labels after := by
  generalize same : label :: labels = all at run
  induction run generalizing labels with
  | refl => cases same
  | next ran taken ih =>
      rename_i front last
      cases front with
      | nil =>
          obtain ⟨rfl, rfl⟩ := List.cons.inj same
          obtain rfl := run_empty ran rfl
          exact ⟨_, taken, .refl⟩
      | cons first rest =>
          obtain ⟨rfl, rfl⟩ := List.cons.inj same
          obtain ⟨middle, one, more⟩ := ih rfl
          exact ⟨middle, one, .next more taken⟩

theorem run_member {before after : State} {labels : List Label} {label : Label}
    (run : Run step before labels after) (member : label ∈ labels) :
    ∃ first second left right, labels = first ++ label :: second ∧ Run step before first left ∧
      step left label right ∧ Run step right second after := by
  induction run with
  | refl => cases member
  | @next middle after labels last ran taken ih =>
      rcases List.mem_append.mp member with earlier | now
      · obtain ⟨first, second, left, right, rfl, start, one, rest⟩ := ih earlier
        exact ⟨first, second ++ [last], left, right, by simp, start, one, .next rest taken⟩
      · obtain rfl := List.mem_singleton.mp now
        exact ⟨labels, [], middle, after, rfl, ran, taken, .refl⟩

/-- An invariant that survives every step holds wherever a run ends. -/
theorem run_invariant {inv : State → Prop}
    (preserved : ∀ before label after, inv before → step before label after → inv after)
    {before after : State} {labels : List Label} (run : Run step before labels after)
    (start : inv before) : inv after := by
  induction run with
  | refl => exact start
  | next _ taken ih => exact preserved _ _ _ ih taken

/-- A relation that every step respects takes runs to runs with the same labels. -/
theorem run_alike {Other : Type} {other : Other → Label → Other → Prop} {alike : State → Other → Prop}
    (respects : ∀ left right label after, alike left right → step left label after →
      ∃ next, other right label next ∧ alike after next)
    {before after : State} {labels : List Label} (run : Run step before labels after) {twin : Other}
    (start : alike before twin) : ∃ last, Run other twin labels last ∧ alike after last := by
  induction run with
  | refl => exact ⟨twin, .refl, start⟩
  | next _ taken ih =>
      obtain ⟨middle, ran, there⟩ := ih
      obtain ⟨last, moved, here⟩ := respects _ middle _ _ there taken
      exact ⟨last, .next ran moved, here⟩

theorem run_mono {larger : State → Label → State → Prop}
    (included : ∀ before label after, step before label after → larger before label after)
    {before after : State} {labels : List Label} (run : Run step before labels after) :
    Run larger before labels after := by
  induction run with
  | refl => exact .refl
  | next _ taken ih => exact .next ih (included _ _ _ taken)

theorem guarded_run {guard : State → Label → Prop} {before after : State} {labels : List Label}
    (run : Run (Guarded guard step) before labels after) : Run step before labels after :=
  run_mono (fun _ _ _ taken => taken.1) run

def follow (step : State → Label → Option State) (may : State → Label → Bool) (state : State) :
    List Label → Option State
  | [] => some state
  | label :: rest =>
      if may state label then (step state label).bind fun next => follow step may next rest else none

theorem follow_guarded {step : State → Label → Option State} {may : State → Label → Bool}
    {before : State} {labels : List Label} {check : State → Bool}
    (passed : (follow step may before labels).any check = true) :
    ∃ after, Run (Guarded (fun state label => may state label = true)
      fun before label after => step before label = some after) before labels after ∧
        check after = true := by
  induction labels generalizing before with
  | nil => exact ⟨before, .refl, passed⟩
  | cons label rest ih =>
      rw [follow] at passed
      split at passed
      · rename_i may
        cases taken : step before label with
        | none =>
            rw [taken] at passed
            cases passed
        | some middle =>
            rw [taken] at passed
            obtain ⟨after, run, checked⟩ := ih passed
            exact ⟨after, run_cons ⟨taken, may⟩ run, checked⟩
      · cases passed

end SecureFileSystem.Transition
