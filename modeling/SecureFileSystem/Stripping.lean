import SecureFileSystem.Uuid

/-!
Stripping a text: what is left has no such character at its ends, and a text
without any at its ends is left as it is.
-/

namespace SecureFileSystem.Stripping

open Base Uuid

theorem dropWhile_kept (drop : Char → Bool) (text : Text)
    (first : ∀ character ∈ text.head?, drop character = false) : text.dropWhile drop = text := by
  cases text with
  | nil => rfl
  | cons character rest => exact List.dropWhile_cons_of_neg (by simp [first character rfl])

theorem strip_kept (drop : Char → Bool) (text : Text)
    (first : ∀ character ∈ text.head?, drop character = false)
    (last : ∀ character ∈ text.getLast?, drop character = false) : strip drop text = text := by
  rw [List.getLast?_eq_head?_reverse] at last
  unfold strip
  rw [dropWhile_kept drop text first, dropWhile_kept drop text.reverse last, List.reverse_reverse]

theorem strip_clean (drop : Char → Bool) (text : Text)
    (clean : ∀ character ∈ text, drop character = false) : strip drop text = text := by
  apply strip_kept
  · exact fun character first => clean character (List.mem_of_mem_head? first)
  · exact fun character last => clean character (List.mem_of_mem_getLast? last)

theorem strip_last (drop : Char → Bool) (text : Text) :
    ∀ character ∈ (strip drop text).getLast?, drop character = false := by
  intro character last
  unfold strip at last
  rw [List.getLast?_reverse] at last
  have kept := List.head?_dropWhile_not drop (text.dropWhile drop).reverse
  rw [last] at kept
  simpa using kept

theorem strip_first (drop : Char → Bool) (text : Text) :
    ∀ character ∈ (strip drop text).head?, drop character = false := by
  intro character first
  obtain ⟨after, split⟩ : strip drop text <+: text.dropWhile drop := by
    unfold strip
    rw [← List.reverse_suffix, List.reverse_reverse]
    exact List.dropWhile_suffix drop
  have kept := List.head?_dropWhile_not drop text
  have same : (text.dropWhile drop).head? = some character := by
    rw [← split, List.head?_append, first]
    rfl
  rw [same] at kept
  simpa using kept

theorem strip_sublist (drop : Char → Bool) (text : Text) : (strip drop text).Sublist text := by
  have inner := (List.dropWhile_sublist drop (l := (text.dropWhile drop).reverse)).reverse
  rw [List.reverse_reverse] at inner
  exact inner.trans (List.dropWhile_sublist drop)

theorem strip_nil (drop : Char → Bool) (text : Text) (blank : strip drop text = []) :
    ∀ character ∈ text, drop character = true := by
  unfold strip at blank
  rw [List.reverse_eq_nil_iff, List.dropWhile_eq_nil_iff] at blank
  intro character member
  by_contra kept
  have stays : character ∈ text.dropWhile drop := by
    rw [← List.takeWhile_append_dropWhile (p := drop) (l := text)] at member
    rcases List.mem_append.mp member with front | back
    · exact absurd (List.mem_takeWhile_imp front) kept
    · exact back
  exact kept (blank character (List.mem_reverse.mpr stays))

theorem strip_append (drop : Char → Bool) (front text : Text) (blank : strip drop front = []) :
    strip drop (front ++ text) = strip drop text := by
  have dropped : (front ++ text).dropWhile drop = text.dropWhile drop := by
    rw [List.dropWhile_append, List.dropWhile_eq_nil_iff.mpr (strip_nil drop front blank)]
    rfl
  unfold strip
  rw [dropped]

theorem strip_split (drop : Char → Bool) (text : Text) :
    ∃ front back, text = front ++ strip drop text ++ back ∧
      (∀ character ∈ front, drop character = true) ∧
      (∀ character ∈ back, drop character = true) := by
  refine ⟨text.takeWhile drop, ((text.dropWhile drop).reverse.takeWhile drop).reverse, ?_,
    fun character member => List.mem_takeWhile_imp member, fun character member =>
      List.mem_takeWhile_imp (List.mem_reverse.mp member)⟩
  rw [strip, List.append_assoc, ← List.reverse_append, List.takeWhile_append_dropWhile,
    List.reverse_reverse, List.takeWhile_append_dropWhile]

theorem mem_strip {drop : Char → Bool} {text : Text} {character : Char}
    (member : character ∈ text) (kept : drop character = false) : character ∈ strip drop text := by
  obtain ⟨front, back, split, before, after⟩ := strip_split drop text
  rw [split] at member
  rcases List.mem_append.mp member with inside | late
  · rcases List.mem_append.mp inside with early | inside
    · rw [before character early] at kept
      contradiction
    · exact inside
  · rw [after character late] at kept
    contradiction

theorem strip_between {drop : Char → Bool} {front core back : Text}
    (before : ∀ character ∈ front, drop character = true)
    (after : ∀ character ∈ back, drop character = true)
    (kept : ∀ character ∈ core, drop character = false) (nonempty : core ≠ []) :
    strip drop (front ++ core ++ back) = core := by
  have stays : ∀ (text rest : Text), (∀ character ∈ text, drop character = false) → text ≠ [] →
      (text ++ rest).dropWhile drop = text ++ rest := by
    intro text rest clean some
    cases text with
    | nil => exact absurd rfl some
    | cons first others =>
        rw [List.cons_append, List.dropWhile_cons_of_neg (by simp [clean first])]
  rw [strip, List.append_assoc, List.dropWhile_append_of_pos before, stays core back kept nonempty,
    List.reverse_append, List.dropWhile_append_of_pos (by simpa using after)]
  have reversed := stays core.reverse [] (by simpa using kept) (by simpa using nonempty)
  rw [List.append_nil] at reversed
  rw [reversed, List.reverse_reverse]

end SecureFileSystem.Stripping
