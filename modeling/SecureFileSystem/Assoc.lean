import Mathlib

/-!
Association lists with distinct keys as finite maps: one value is replaced by
dropping the entry and appending the new one.
-/

namespace SecureFileSystem.Assoc

variable {Key Value : Type}

theorem distinct_replace [DecidableEq Key] (entries : List (Key × Value)) (key : Key) (value : Value)
    (distinct : (entries.map Prod.fst).Nodup) :
    ((entries.filter (·.1 ≠ key) ++ [(key, value)]).map Prod.fst).Nodup := by
  rw [List.map_append, List.nodup_append]
  constructor
  · exact distinct.sublist (List.filter_sublist.map Prod.fst)
  · constructor
    · simp
    · rintro name member other last rfl
      obtain ⟨entry, kept, rfl⟩ := List.mem_map.mp member
      have apart : entry.1 ≠ key := by simpa using (List.mem_filter.mp kept).2
      exact apart (by simpa using last)

variable [BEq Key] [LawfulBEq Key]

theorem mem_of_lookup (entries : List (Key × Value)) (key : Key) (value : Value)
    (found : entries.lookup key = some value) : (key, value) ∈ entries := by
  obtain ⟨front, back, rfl, -⟩ := List.lookup_eq_some_iff.mp found
  simp

theorem lookup_filter (entries : List (Key × Value)) (kept : Key × Value → Bool) (key : Key)
    (keeps : ∀ value, kept (key, value) = true) :
    (entries.filter kept).lookup key = entries.lookup key := by
  induction entries with
  | nil => rfl
  | cons entry rest ih =>
      obtain ⟨name, value⟩ := entry
      by_cases same : key = name
      · subst name
        simp [keeps value]
      · have apart : (key == name) = false := by simpa using same
        by_cases passes : kept (name, value) = true
        · simp [passes, List.lookup, apart, ih]
        · simp [passes, List.lookup, apart, ih]

/-- With distinct keys a filter keeps or drops the one value of `key`. -/
theorem lookup_filter_distinct (entries : List (Key × Value)) (kept : Key × Value → Bool)
    (key : Key) (distinct : (entries.map Prod.fst).Nodup) :
    (entries.filter kept).lookup key =
      (entries.lookup key).filter fun value => kept (key, value) := by
  induction entries with
  | nil => rfl
  | cons entry rest ih =>
      obtain ⟨name, value⟩ := entry
      rw [List.map_cons, List.nodup_cons] at distinct
      have tail := ih distinct.2
      by_cases same : key = name
      · subst name
        have absent : rest.lookup key = none := by
          apply List.lookup_eq_none_iff.mpr
          rintro other member
          have apart : key ≠ other.1 := fun equal =>
            distinct.1 (List.mem_map.mpr ⟨other, member, equal.symm⟩)
          simpa using apart
        by_cases passes : kept (key, value) = true
        · simp [passes, Option.filter_some]
        · rw [absent] at tail
          simp [passes, tail, Option.filter_some]
      · have apart : (key == name) = false := by simpa using same
        by_cases passes : kept (name, value) = true
        · simp [passes, List.lookup, apart, tail]
        · simp [passes, List.lookup, apart, tail]

theorem lookup_append_absent (entries : List (Key × Value)) (key : Key) (value : Value)
    (absent : ∀ entry ∈ entries, entry.1 ≠ key) :
    (entries ++ [(key, value)]).lookup key = some value := by
  induction entries with
  | nil => simp
  | cons entry rest ih =>
      have apart : (key == entry.1) = false := by
        simpa using Ne.symm (absent entry List.mem_cons_self)
      simp only [List.cons_append, List.lookup, apart]
      exact ih fun other member => absent other (List.mem_cons_of_mem _ member)

theorem lookup_replace [DecidableEq Key] (entries : List (Key × Value)) (key other : Key) (value : Value) :
    (entries.filter (·.1 ≠ key) ++ [(key, value)]).lookup other =
      if other = key then some value else entries.lookup other := by
  by_cases same : other = key
  · subst other
    rw [if_pos rfl]
    apply lookup_append_absent
    intro entry member
    simpa using (List.mem_filter.mp member).2
  · rw [if_neg same, List.lookup_append, lookup_filter]
    · have apart : (other == key) = false := by simpa using same
      simp [List.lookup, apart]
    · intro held
      simpa using same

end SecureFileSystem.Assoc
