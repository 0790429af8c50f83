import Mathlib

/-!
Pages of a sorted listing that grows while it is read. Every item keeps its
place or moves back, so whoever reads forward page by page cannot pass one by.
-/

namespace SecureFileSystem.Pages

variable {Item : Type} {order : Item → Item → Prop}

def page (order : Item → Item → Prop) [DecidableRel order] (items : List Item)
    (offset size : Nat) : List Item :=
  ((items.insertionSort order).drop offset).take size

/-- Items before an item in a listing are before it in a larger one. -/
theorem position_grows {small large : List Item} (sorted : small.Pairwise order)
    (once : small.Nodup) (sorted' : large.Pairwise order)
    (antisymm : ∀ left ∈ large, ∀ right ∈ large, order left right → order right left →
      left = right)
    (grows : small ⊆ large) {index : Nat} {item : Item} (found : small[index]? = some item) :
    ∃ later, index ≤ later ∧ large[later]? = some item := by
  obtain ⟨inside, rfl⟩ := List.getElem?_eq_some_iff.mp found
  obtain ⟨later, there⟩ := List.mem_iff_getElem?.mp (grows (List.getElem_mem inside))
  obtain ⟨within, same⟩ := List.getElem?_eq_some_iff.mp there
  refine ⟨later, ?_, there⟩
  have ahead : small.take index ⊆ large.take later := by
    intro other member
    obtain ⟨place, early, rfl⟩ := List.mem_iff_getElem.mp member
    rw [List.length_take] at early
    rw [List.getElem_take]
    have first : order small[place] small[index] :=
      List.pairwise_iff_getElem.mp sorted place index (by omega) inside (by omega)
    have apart : small[place] ≠ small[index] := by
      intro equal
      have places := (List.Nodup.getElem_inj_iff once).mp equal
      omega
    obtain ⟨found_at, bound, there'⟩ := List.mem_iff_getElem.mp
      (grows (List.getElem_mem (show place < small.length by omega)))
    -- behind the item it would be before and after it
    have before : found_at < later := by
      by_contra behind
      rcases Nat.lt_or_eq_of_le (Nat.le_of_not_lt behind) with after | rfl
      · have second : order large[later] large[found_at] :=
          List.pairwise_iff_getElem.mp sorted' later found_at within bound after
        rw [same, there'] at second
        exact apart (antisymm _ (grows (List.getElem_mem _)) _ (grows (List.getElem_mem _)) first
          second)
      · exact apart (there'.symm.trans same)
    rw [← there']
    exact List.mem_iff_getElem.mpr ⟨found_at, by rw [List.length_take]; omega, List.getElem_take⟩
  have count := (List.subperm_of_subset (once.sublist (List.take_sublist _ _)) ahead).length_le
  rw [List.length_take, List.length_take] at count
  omega

section Reading
variable [DecidableRel order] {items : List Item} {offset size index : Nat} {item : Item}

theorem page_full (found : (items.insertionSort order)[index]? = some item)
    (behind : offset + size ≤ index) : (page order items offset size).length = size := by
  obtain ⟨inside, -⟩ := List.getElem?_eq_some_iff.mp found
  rw [page, List.length_take, List.length_drop]
  omega

theorem page_shows (found : (items.insertionSort order)[index]? = some item)
    (begun : offset ≤ index) (ends : index < offset + size) :
    item ∈ page order items offset size := by
  obtain ⟨inside, rfl⟩ := List.getElem?_eq_some_iff.mp found
  apply List.mem_iff_getElem.mpr
  refine ⟨index - offset, ?_, ?_⟩
  · rw [page, List.length_take, List.length_drop]
    omega
  · simp only [page, List.getElem_take, List.getElem_drop]
    congr 1
    omega

theorem page_sublist (items : List Item) (offset size : Nat) :
    (page order items offset size).Sublist (items.insertionSort order) :=
  (List.take_sublist _ _).trans (List.drop_sublist _ _)

theorem page_mem (member : item ∈ page order items offset size) : item ∈ items :=
  (List.mem_insertionSort order).mp ((page_sublist items offset size).subset member)

theorem page_once (once : items.Nodup) : (page order items offset size).Nodup :=
  ((List.perm_insertionSort order items).nodup_iff.mpr once).sublist (page_sublist _ _ _)

theorem page_sorted [Std.Total order] [IsTrans Item order] :
    (page order items offset size).Pairwise order :=
  (List.pairwise_insertionSort order items).sublist (page_sublist _ _ _)

end Reading

end SecureFileSystem.Pages
