import SecureFileSystem.Transition

/-!
A write-once map: put-if-absent, get and remove, and what follows from a
history of them one after the other. `Linearizes` says that such a history
accounts for calls that overlapped.
-/

namespace SecureFileSystem.WriteOnce

open Transition

variable {Id Value Caller : Type} [DecidableEq Id]

abbrev Store (Id Value : Type) := Id → Option Value

def putIfAbsent (store : Store Id Value) (id : Id) (value : Value) : Bool × Store Id Value :=
  match store id with
  | none => (true, Function.update store id (some value))
  | some _ => (false, store)

def get (store : Store Id Value) (id : Id) : Option Value × Store Id Value := (store id, store)

def remove (store : Store Id Value) (id : Id) : Bool × Store Id Value :=
  ((store id).isSome, Function.update store id none)

inductive Event (Id Value : Type) where
  | put (id : Id) (value : Value) (stored : Bool)
  | get (id : Id) (found : Option Value)
  | remove (id : Id) (removed : Bool)
  deriving DecidableEq

def Serves (store : Store Id Value) (event : Event Id Value) (after : Store Id Value) : Prop :=
  match event with
  | .put id value stored => putIfAbsent store id value = (stored, after)
  | .get id found => get store id = (found, after)
  | .remove id removed => remove store id = (removed, after)

/-- Operations one after the other, each with the answer the map gives it. -/
abbrev Sequential (store : Store Id Value) (order : List (Caller × Event Id Value))
    (after : Store Id Value) : Prop :=
  Run (fun store (entry : Caller × Event Id Value) after => Serves store entry.2 after)
    store order after

/-- What callers saw of their operations: which they asked for, what each one
that had ended replied, and which had ended before which began. -/
structure History (Caller Reply Id Value : Type) where
  invoked : Caller → Event Id Value → Prop
  returned : Caller → Reply → Prop
  agrees : Reply → Event Id Value → Prop
  precedes : Caller → Caller → Prop

/-- One order of the operations accounts for the history. -/
structure Linearizes {Reply : Type} (history : History Caller Reply Id Value)
    (store : Store Id Value) (order : List (Caller × Event Id Value)) (after : Store Id Value) :
    Prop where
  sequential : Sequential store order after
  once : (order.map (·.1)).Nodup
  invoked : ∀ caller event, (caller, event) ∈ order → history.invoked caller event
  returned : ∀ caller reply, history.returned caller reply →
    ∃ event, (caller, event) ∈ order ∧ history.agrees reply event
  realTime : ∀ first second, first ∈ order → second ∈ order →
    history.precedes first.1 second.1 → [first, second].Sublist order

theorem serves_lookup {store after : Store Id Value} {event : Event Id Value} (id : Id)
    (served : Serves store event after) :
    after id = store id ∨ (∃ value, event = .put id value true ∧ store id = none ∧
      after id = some value) ∨ event = .remove id true ∧ after id = none := by
  cases event with
  | put other value stored =>
      simp only [Serves, putIfAbsent] at served
      cases held : store other with
      | some _ =>
          rw [held] at served
          cases served
          exact .inl rfl
      | none =>
          rw [held] at served
          cases served
          by_cases same : id = other
          · subst other
            exact .inr (.inl ⟨value, rfl, held, Function.update_self _ _ _⟩)
          · exact .inl (Function.update_of_ne same _ _)
  | get other found =>
      cases served
      exact .inl rfl
  | remove other removed =>
      cases served
      by_cases same : id = other
      · subst other
        rw [Function.update_self]
        cases held : store id with
        | none => exact .inl rfl
        | some value => exact .inr (.inr ⟨rfl, rfl⟩)
      · exact .inl (Function.update_of_ne same _ _)

theorem stored_source {store after : Store Id Value} {order : List (Caller × Event Id Value)}
    (history : Sequential store order after) (id : Id) (value : Value)
    (held : after id = some value) :
    store id = some value ∨ ∃ caller, (caller, .put id value true) ∈ order := by
  induction history with
  | refl => exact .inl held
  | @next middle after order entry ran served ih =>
      rcases serves_lookup id served with same | ⟨put, event, -, now⟩ | ⟨-, now⟩
      · rcases ih (same ▸ held) with start | ⟨caller, member⟩
        · exact .inl start
        · exact .inr ⟨caller, List.mem_append_left _ member⟩
      · rw [now, Option.some.injEq] at held
        subst held
        exact .inr ⟨entry.1, List.mem_append_right _ (by simp [← event])⟩
      · rw [now] at held
        cases held

theorem found_source {store after : Store Id Value} {order : List (Caller × Event Id Value)}
    (history : Sequential store order after) (caller : Caller) (id : Id) (value : Value)
    (found : (caller, .get id (some value)) ∈ order) :
    store id = some value ∨ ∃ writer, (writer, .put id value true) ∈ order := by
  obtain ⟨first, second, left, right, rfl, start, served, -⟩ := run_member history found
  have held : left id = some value := congrArg Prod.fst served
  rcases stored_source start id value held with there | ⟨writer, member⟩
  · exact .inl there
  · exact .inr ⟨writer, List.mem_append_left _ member⟩

/-- Of the puts under an absent id that nobody removes, the first is the only
one that stores, and its value stays. -/
theorem single_winner {store after : Store Id Value} {order : List (Caller × Event Id Value)}
    (history : Sequential store order after) (id : Id) (absent : store id = none)
    (kept : ∀ caller removed, (caller, .remove id removed) ∉ order) :
    (after id = none ∧ ∀ caller value stored, (caller, .put id value stored) ∉ order) ∨
      ∃ winner value, after id = some value ∧ (winner, .put id value true) ∈ order ∧
        ∀ caller other stored, (caller, .put id other stored) ∈ order →
          stored = false ∨ caller = winner ∧ other = value := by
  induction history with
  | refl => exact .inl ⟨absent, fun _ _ _ => List.not_mem_nil⟩
  | @next middle after order entry ran served ih =>
      have calm : ∀ caller removed, (caller, .remove id removed) ∉ order :=
        fun caller removed member => kept caller removed (List.mem_append_left _ member)
      rcases ih calm with ⟨free, none_put⟩ | ⟨winner, value, taken, won, others⟩
      · rcases serves_lookup id served with same | ⟨value, event, -, now⟩ | ⟨event, -⟩
        · left
          constructor
          · rw [same, free]
          · intro caller value stored member
            rcases List.mem_append.mp member with earlier | last
            · exact none_put caller value stored earlier
            · -- a put of a free id would have stored its value
              rw [List.mem_singleton] at last
              subst last
              simp only [Serves, putIfAbsent, free] at served
              cases served
              simp [free] at same
        · right
          refine ⟨entry.1, value, now, List.mem_append_right _ (by simp [← event]), ?_⟩
          intro caller other stored member
          rcases List.mem_append.mp member with earlier | last
          · exact absurd earlier (none_put caller other stored)
          · obtain rfl := List.mem_singleton.mp last
            cases event
            exact .inr ⟨rfl, rfl⟩
        · exact absurd (List.mem_append_right _ (by simp [← event])) (kept entry.1 true)
      · right
        have stays : after id = some value := by
          rcases serves_lookup id served with same | ⟨_, -, free, -⟩ | ⟨event, -⟩
          · rw [same, taken]
          · rw [taken] at free
            cases free
          · exact absurd (List.mem_append_right _ (by simp [← event])) (kept entry.1 true)
        refine ⟨winner, value, stays, List.mem_append_left _ won, ?_⟩
        intro caller other stored member
        rcases List.mem_append.mp member with earlier | last
        · exact others caller other stored earlier
        · obtain rfl := List.mem_singleton.mp last
          simp only [Serves, putIfAbsent, taken] at served
          cases served
          exact .inl rfl

omit [DecidableEq Id] in
theorem event_unique {order : List (Caller × Event Id Value)} (once : (order.map (·.1)).Nodup)
    {caller : Caller} {first second : Event Id Value} (one : (caller, first) ∈ order)
    (other : (caller, second) ∈ order) : first = second := by
  have same := List.inj_on_of_nodup_map once one other rfl
  exact congrArg Prod.snd same

end SecureFileSystem.WriteOnce
