import Mathlib.Data.List.Basic
import QueryScope.Scope.Visibility

/-!
# The tables that a query refers to

The tables of the main query are listed under their full names, each name once: names that differ
only in the case of ASCII letters count as one, and the first spelling stands for all. So a name is
kept exactly if no name before it is the same. This holds of every list of scopes, also of one that
no query has: the main query is simply the first scope without a parent.
-/

namespace QueryScope

namespace Text

/-- Two names are the same if they have the same capitals. -/
theorem sameName_iff {left right : String} :
    sameName left right = true ↔ upper left = upper right := beq_iff_eq

/-- Every name is the same as itself. -/
theorem sameName_refl (name : String) : sameName name name = true := sameName_iff.mpr rfl

/-- What is the same as a name is the same as nothing else. -/
theorem sameName_congr_right {left right : String} (same : sameName left right = true)
    (name : String) : sameName name left = sameName name right := by
  rw [sameName, sameName, sameName_iff.mp same]

end Text

namespace Scopes

open Text (sameName)

/-- The name at a position, if no name before it is the same. -/
def firstAt? (names : List String) (position : Nat) : Option String :=
  names[position]?.filter fun name => (names.take position).all fun earlier => !sameName earlier name

/-- The full names of the tables in a scope's FROM clause, in order. Derived tables and entries
without a name are passed over. -/
def tableNames (scope : Scope) : List String :=
  ((scope.tables.filter (!·.isDerived)).map (·.fullName)).filter (· != "")

/-- To have seen one more name in capitals is to leave out its spellings. -/
theorem unseen_cons (name : String) (seen names : List String) :
    unseen (Text.upper name :: seen) names =
      (unseen seen names).filter fun other => !sameName name other := by
  induction names generalizing name seen with
  | nil => rfl
  | cons next others inductionHypothesis =>
    rw [unseen, unseen, List.contains_cons]
    by_cases known : seen.contains (Text.upper next) = true
    · rw [known, Bool.or_true, if_pos rfl, if_pos rfl, inductionHypothesis]
    rw [if_neg known, Bool.eq_false_iff.mpr known, Bool.or_false]
    by_cases same : sameName name next = true
    · -- the next name is left out here because it is seen, and there because it is a spelling
      have capitals := Text.sameName_iff.mp same
      rw [if_pos (beq_iff_eq.mpr capitals.symm), List.filter_cons_of_neg (by simp [same]),
        ← capitals, inductionHypothesis, List.filter_filter]
      simp only [Bool.and_self]
    · have different : ¬ (Text.upper next == Text.upper name) = true := by
        rw [beq_iff_eq]
        exact fun capitals => same (Text.sameName_iff.mpr capitals.symm)
      rw [if_neg different, List.filter_cons_of_pos (by simp [same]), inductionHypothesis,
        inductionHypothesis, inductionHypothesis, List.filter_filter, List.filter_filter]
      simp only [Bool.and_comm]

/-- The first of some names is kept, and from then on its spellings are left out. -/
theorem firstSpellings_cons (name : String) (others : List String) :
    firstSpellings (name :: others) =
      name :: (firstSpellings others).filter fun other => !sameName name other := by
  rw [firstSpellings, firstSpellings, ← unseen_cons]
  rfl

/-- Behind one more name, a position has a first spelling if it had one before that is not the same
as that name. -/
theorem firstAt?_cons_succ (name : String) (others : List String) (position : Nat) :
    firstAt? (name :: others) (position + 1) =
      (firstAt? others position).filter fun other => !sameName name other := by
  simp only [firstAt?, List.getElem?_cons_succ, List.take_succ_cons, List.all_cons,
    Option.filter_filter]
  congr 1
  funext other
  exact Bool.and_comm _ _

/-- What is kept stands at the positions of the first spellings. -/
theorem firstSpellings_eq_filterMap (names : List String) :
    firstSpellings names = (List.range names.length).filterMap (firstAt? names) := by
  induction names with
  | nil => rfl
  | cons name others inductionHypothesis =>
    have first : firstAt? (name :: others) 0 = some name := by simp [firstAt?]
    rw [firstSpellings_cons, inductionHypothesis, List.length_cons, List.range_succ_eq_map,
      List.filterMap_cons_some first, List.filterMap_map, List.filter_filterMap]
    congr 2
    funext position
    exact (firstAt?_cons_succ name others position).symm

/-- What is kept comes in the order of the names. -/
theorem firstSpellings_sublist (names : List String) : (firstSpellings names).Sublist names := by
  induction names with
  | nil => exact .slnil
  | cons name others inductionHypothesis =>
    rw [firstSpellings_cons]
    exact (List.filter_sublist.trans inductionHypothesis).cons_cons name

/-- No two of the names that are kept are the same. -/
theorem pairwise_firstSpellings (names : List String) :
    (firstSpellings names).Pairwise fun left right => sameName left right = false := by
  induction names with
  | nil => exact .nil
  | cons name others inductionHypothesis =>
    rw [firstSpellings_cons, List.pairwise_cons]
    constructor
    · intro other member
      simpa using (List.mem_filter.mp member).2
    · exact inductionHypothesis.filter _

/-- Of every name the first spelling is kept. -/
theorem exists_first_of_mem {names : List String} {name : String} (member : name ∈ names) :
    ∃ first ∈ firstSpellings names, sameName first name = true ∧
      names.find? (sameName · name) = some first := by
  induction names with
  | nil => cases member
  | cons head others inductionHypothesis =>
    rw [firstSpellings_cons]
    by_cases same : sameName head name = true
    · exact ⟨head, List.mem_cons_self, same, by simp [same]⟩
    · have inOthers : name ∈ others := by
        rcases List.mem_cons.mp member with rfl | inOthers
        · exact absurd (Text.sameName_refl name) same
        · exact inOthers
      obtain ⟨first, kept, isSame, found⟩ := inductionHypothesis inOthers
      -- the head is not the first spelling, so it is not the same as the first spelling either
      have different : sameName head first = false := by
        rw [Text.sameName_congr_right isSame]
        simpa using same
      have stillKept : first ∈ (firstSpellings others).filter fun other => !sameName head other := by
        simp [kept, different]
      exact ⟨first, List.mem_cons_of_mem _ stillKept, isSame, by simp [same, found]⟩

/-- What it means that each of some names is kept once, in its first spelling. -/
structure KeepsFirst (names kept : List String) : Prop where
  /-- No two names that are kept are the same. -/
  distinct : kept.Pairwise fun left right => sameName left right = false
  /-- The names that are kept come in their order. -/
  inOrder : kept.Sublist names
  /-- Every name is kept in the first of its spellings. -/
  first : ∀ name ∈ names, ∃ spelling ∈ kept, sameName spelling name = true ∧
    names.find? (sameName · name) = some spelling
  /-- They are kept exactly at the positions where no name before is the same. -/
  positions : kept = (List.range names.length).filterMap (firstAt? names)

/-- The tables that some scopes refer to: those of the first scope without a parent, if there is
one, each in its first spelling. -/
theorem referencedTables_keepsFirst (scopes : List Scope) :
    (∃ before main behind, scopes = before ++ main :: behind ∧
        (∀ scope ∈ before, scope.parent ≠ none) ∧ main.parent = none ∧
        KeepsFirst (tableNames main) (referencedTables scopes)) ∨
      (∀ scope ∈ scopes, scope.parent ≠ none) ∧ referencedTables scopes = [] := by
  cases found : scopes.find? (·.isMain) with
  | none =>
    refine .inr ⟨?_, ?_⟩
    · intro scope member orphan
      have inside := List.find?_eq_none.mp found scope member
      simp [Scope.isMain, orphan] at inside
    · rw [referencedTables, found]
  | some main =>
    obtain ⟨isMain, before, behind, split, parented⟩ := List.find?_eq_some_iff_append.mp found
    have tables : referencedTables scopes = firstSpellings (tableNames main) := by
      rw [referencedTables, found, tableNames]
    refine .inl ⟨before, main, behind, split, ?_, ?_, ?_⟩
    · intro scope member orphan
      have inside := parented scope member
      simp [Scope.isMain, orphan] at inside
    · simpa [Scope.isMain] using isMain
    · rw [tables]
      exact ⟨pairwise_firstSpellings _, firstSpellings_sublist _, fun _ => exists_first_of_mem,
        firstSpellings_eq_filterMap _⟩

end Scopes

end QueryScope
