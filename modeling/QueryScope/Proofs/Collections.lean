import Mathlib.Data.List.Nodup

/-!
# Lists as collections

A list that stands for a collection may be given in any order. Looking for a member then has to
find the same one, which it does when there are not two that would do; and sorting by a text has to
end with the same list, which it does when no two members share the text.
-/

namespace QueryScope.Collections

variable {α : Type}

/-- The first member with a property is any member with it, when there are not two of them. -/
theorem find?_eq_some_iff_of_single {members : List α} {property : α → Bool}
    (single : ∀ left ∈ members, ∀ right ∈ members, property left = true → property right = true →
      left = right) (member : α) :
    members.find? property = some member ↔ member ∈ members ∧ property member = true := by
  constructor
  · intro found
    exact ⟨List.mem_of_find?_eq_some found, List.find?_some found⟩
  · rintro ⟨isMember, holds⟩
    obtain ⟨first, found⟩ := Option.isSome_iff_exists.mp
      (List.find?_isSome.mpr ⟨member, isMember, holds⟩)
    rw [found, single first (List.mem_of_find?_eq_some found) member isMember
      (List.find?_some found) holds]

/-- The first member with a key is any member with it, when keys differ. -/
theorem find?_key_eq_some_iff {κ : Type} [DecidableEq κ] {keyOf : α → κ} {members : List α}
    (distinct : (members.map keyOf).Nodup) (key : κ) (member : α) :
    members.find? (keyOf · == key) = some member ↔ member ∈ members ∧ keyOf member = key := by
  rw [find?_eq_some_iff_of_single, beq_iff_eq]
  intro left isLeft right isRight atLeft atRight
  exact List.inj_on_of_nodup_map distinct isLeft isRight
    ((beq_iff_eq.mp atLeft).trans (beq_iff_eq.mp atRight).symm)

variable {text : α → String}

/-- What is strictly in order has no member twice. -/
theorem nodup_of_pairwise_lt {members : List α}
    (ordered : members.Pairwise fun left right => text left < text right) : members.Nodup := by
  refine ordered.imp ?_
  intro left right before same
  rw [same] at before
  exact String.lt_irrefl _ before

/-- Sorting by texts that differ puts members strictly in order. -/
theorem pairwise_lt_mergeSort {inOrder : α → α → Bool}
    (isOrder : ∀ left right, inOrder left right = true ↔ text left ≤ text right)
    {members : List α} (distinct : (members.map text).Nodup) :
    (members.mergeSort inOrder).Pairwise fun left right => text left < text right := by
  have ordered : (members.mergeSort inOrder).Pairwise fun left right =>
      inOrder left right = true := by
    apply List.pairwise_mergeSort
    · intro first second third
      rw [isOrder, isOrder, isOrder]
      exact String.le_trans
    · intro left right
      rw [Bool.or_eq_true, isOrder, isOrder]
      exact String.le_total _ _
  have stillDistinct : ((members.mergeSort inOrder).map text).Nodup :=
    ((List.mergeSort_perm members inOrder).map text).nodup_iff.mpr distinct
  rw [List.Nodup, List.pairwise_map] at stillDistinct
  refine (ordered.and stillDistinct).imp ?_
  rintro left right ⟨before, different⟩
  exact Std.lt_of_le_of_ne ((isOrder left right).mp before) different

/-- Lists that are strictly in order are the same if they have the same members. -/
theorem eq_of_pairwise_lt {left right : List α}
    (leftOrdered : left.Pairwise fun first second => text first < text second)
    (rightOrdered : right.Pairwise fun first second => text first < text second)
    (same : ∀ member, member ∈ left ↔ member ∈ right) : left = right := by
  have reordered : left.Perm right :=
    (List.perm_ext_iff_of_nodup (nodup_of_pairwise_lt leftOrdered)
      (nodup_of_pairwise_lt rightOrdered)).mpr same
  refine reordered.eq_of_pairwise ?_ leftOrdered rightOrdered
  intro first second _ _ before behind
  exact absurd behind (String.lt_asymm before)

end QueryScope.Collections
