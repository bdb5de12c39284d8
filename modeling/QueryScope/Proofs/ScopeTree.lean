import Mathlib.Data.List.Basic
import QueryScope.Proofs.FromEntries
import QueryScope.Proofs.Masking
import QueryScope.Proofs.Levels

/-!
# The scopes of a query form a tree

Extraction yields a list whose members refer to one another by index. This module says what kind
of list it is, for every text: positions are indices, the main query spans the whole text, every
other scope has a parent one level up that lies around it, spans never cross, and a derived table
is linked to a child of the scope whose FROM clause it stands in.
-/

namespace QueryScope.ScopeTree

open SubquerySpans Nesting

/-- The outlines behind that of the main query are those of the subqueries. -/
theorem all_succ (length : Nat) (subqueries : List Subquery) (position : Nat) :
    (Outline.all length subqueries)[position + 1]? =
      (subqueries[position]?).map fun subquery =>
        Outline.ofSubquery subqueries subquery position := by
  rw [Outline.all, List.getElem?_cons_succ, List.getElem?_map, List.getElem?_zipIdx]
  cases subqueries[position]? with
  | none => rfl
  | some subquery => simp

/-- Every outline has its position as index. -/
theorem index_of_all {length : Nat} {subqueries : List Subquery} {position : Nat}
    {outline : Outline} (found : (Outline.all length subqueries)[position]? = some outline) :
    outline.index = position := by
  cases position with
  | zero =>
    cases found
    rfl
  | succ previous =>
    rw [all_succ] at found
    obtain ⟨subquery, _, rfl⟩ := Option.map_eq_some_iff.mp found
    rfl

/-- The scope around a subquery: its outline is in the list, it is one level up, and unless it is
the main query it is closed later and leaves room on both sides. -/
theorem exists_parent (length : Nat) {subqueries : List Subquery} (nested : Nested subqueries)
    {position : Nat} {subquery : Subquery} (found : subqueries[position]? = some subquery) :
    ∃ parentIndex parent,
      (Outline.ofSubquery subqueries subquery position).parent = some parentIndex ∧
      (Outline.all length subqueries)[parentIndex]? = some parent ∧
      (Outline.ofSubquery subqueries subquery position).level = parent.level + 1 ∧
      (parentIndex = 0 ∨
        position + 1 < parentIndex ∧ StrictlyInside subquery.span parent.span) := by
  cases shortest : Outline.shortest? (Outline.around subqueries subquery.span.start) with
  | none =>
    refine ⟨0, Outline.main length, ?_, rfl, ?_, .inl rfl⟩
    · simp only [Outline.ofSubquery, Outline.parentOf, shortest, Option.map_none,
        Option.getD_none]
    · simp only [Outline.ofSubquery, (shortest?_eq_none_iff _).mp shortest, Outline.main,
        List.length_nil]
  | some best =>
    obtain ⟨parent, parentPosition⟩ := best
    obtain ⟨isAround, _⟩ := shortest?_eq_some shortest
    obtain ⟨parentAt, parentAround⟩ := (mem_around_iff _ _ _ _).mp isAround
    obtain ⟨later, inside⟩ := (nested.inside_iff found parentAt).mp parentAround
    refine ⟨parentPosition + 1, Outline.ofSubquery subqueries parent parentPosition, ?_, ?_, ?_,
      .inr ⟨by omega, inside⟩⟩
    · simp only [Outline.ofSubquery, Outline.parentOf, shortest, Option.map_some,
        Option.getD_some]
    · rw [all_succ, parentAt, Option.map_some]
    · have chain := (nested.around_perm found shortest).length_eq
      rw [List.length_cons] at chain
      simp only [Outline.ofSubquery, chain]

/-- A list of scopes that is a tree with well-kept links, for a text of the given length. -/
structure WellFormed (length : Nat) (scopes : List Scope) : Prop where
  /-- There is a main query, and it covers the whole text. -/
  main : ∃ scope, scopes[0]? = some scope ∧ scope.level = 0 ∧ scope.parent = none ∧
    scope.aliasName = none ∧ scope.span = ⟨0, length⟩
  /-- Positions are indices. -/
  indexed : ∀ position (scope : Scope), scopes[position]? = some scope → scope.index = position
  /-- Every other scope has another scope around it, one level up. Unless that one is the main
  query it comes later in the list and leaves room on both sides. -/
  parented : ∀ position (scope : Scope), 0 < position → scopes[position]? = some scope →
    ∃ parentIndex, ∃ parent : Scope, scope.parent = some parentIndex ∧ parentIndex ≠ position ∧
      scopes[parentIndex]? = some parent ∧ scope.level = parent.level + 1 ∧
      (parent.span.start ≤ scope.span.start ∧ scope.span.stop ≤ parent.span.stop) ∧
      (parentIndex = 0 ∨ position < parentIndex ∧ StrictlyInside scope.span parent.span)
  /-- Two subqueries are apart, or one is inside the other with room on both sides. -/
  laminar : ∀ first second, ∀ left right : Scope, 0 < first → 0 < second → first ≠ second →
    scopes[first]? = some left → scopes[second]? = some right →
    left.span.stop ≤ right.span.start ∨ right.span.stop ≤ left.span.start ∨
      StrictlyInside left.span right.span ∨ StrictlyInside right.span left.span
  /-- An entry of a FROM clause has a table name or is a derived table, and not both. -/
  kinds : ∀ scope ∈ scopes, ∀ reference ∈ scope.tables,
    (reference.tableName.isSome = true ∧ reference.isDerived = false) ∨
      (reference.tableName.isSome = false ∧ reference.isDerived = true)
  /-- A link leads to a child of the scope that owns it. -/
  links : ∀ scope ∈ scopes, ∀ reference ∈ scope.tables, ∀ link,
    reference.derivedScope = some link →
      ∃ child, scopes[link]? = some child ∧ child.parent = some scope.index

/-- A subquery ends inside its query. -/
theorem stop_le_length {query : String} {subquery : Subquery}
    (member : subquery ∈ subqueriesOf query) :
    subquery.span.stop ≤ (Bytes.ofString query).length := by
  have within := stop_le_length_of_mem_all member
  rwa [codeOf, CodeView.length_codeView] at within

/-- What linking keeps of an entry. -/
theorem kind_link (children : List Outline) (masked : Masked) (earlier : Nat) (entry : FromEntry) :
    (Outline.link children masked earlier entry).tableName = entry.reference.tableName ∧
      (Outline.link children masked earlier entry).isDerived = entry.reference.isDerived := by
  rw [Outline.link]
  split <;> exact ⟨rfl, rfl⟩

/-- A derived table that was not linked before is linked to a child if at all: to one with the same
alias, or to one that masking remembers. -/
theorem exists_child_of_link {query : String} {outline : Outline} {earlier link : Nat}
    {entry : FromEntry} (unlinked : entry.reference.derivedScope = none)
    (linked : (Outline.link (childrenIn query outline) (maskedOf query outline) earlier
      entry).derivedScope = some link) :
    ∃ child ∈ childrenIn query outline, child.index = link := by
  rw [Outline.link] at linked
  split at linked
  · simp only [Option.or_eq_some_iff] at linked
    rcases linked with byAlias | ⟨_, byPosition⟩
    · obtain ⟨name, _, found⟩ := Option.bind_eq_some_iff.mp byAlias
      obtain ⟨child, isFirst, same⟩ := Option.map_eq_some_iff.mp found
      exact ⟨child, List.mem_of_find?_eq_some isFirst, same⟩
    · obtain ⟨ordinal, _, found⟩ := Option.bind_eq_some_iff.mp byPosition
      obtain ⟨span, isChild⟩ := Masked.exists_child_of_mem_mask (List.mem_of_getElem? found)
      obtain ⟨child, member, same⟩ := List.mem_map.mp isChild
      cases same
      exact ⟨child, member, rfl⟩
  · rw [unlinked] at linked
    cases linked

/-- The scope at a position is what the outline there becomes. -/
theorem getElem?_extract {query : String} {position : Nat} {scope : Scope}
    (found : (extract query)[position]? = some scope) :
    ∃ outline, (outlinesOf query)[position]? = some outline ∧ scope = scopeOf query outline := by
  rw [extract_eq_map, List.getElem?_map] at found
  obtain ⟨outline, placed, same⟩ := Option.map_eq_some_iff.mp found
  exact ⟨outline, placed, same.symm⟩

/-- The outline of every scope but the main query belongs to a subquery. -/
theorem getElem?_outlinesOf {query : String} {position : Nat} {outline : Outline}
    (behindMain : 0 < position) (found : (outlinesOf query)[position]? = some outline) :
    ∃ subquery, (subqueriesOf query)[position - 1]? = some subquery ∧
      outline = Outline.ofSubquery (subqueriesOf query) subquery (position - 1) := by
  obtain ⟨previous, rfl⟩ := Nat.exists_eq_succ_of_ne_zero (Nat.pos_iff_ne_zero.mp behindMain)
  rw [outlinesOf, all_succ] at found
  obtain ⟨subquery, placed, same⟩ := Option.map_eq_some_iff.mp found
  exact ⟨subquery, placed, same.symm⟩

/-- Every child is a subquery. -/
theorem exists_subquery_of_mem_childrenIn {query : String} {outline child : Outline}
    (member : child ∈ childrenIn query outline) :
    ∃ position subquery, (subqueriesOf query)[position]? = some subquery ∧
      child = Outline.ofSubquery (subqueriesOf query) subquery position := by
  obtain ⟨isOutline, isInside⟩ := List.mem_filter.mp member
  obtain ⟨position, placed⟩ := List.getElem?_of_mem isOutline
  have behindMain : 0 < position := by
    apply Nat.pos_of_ne_zero
    rintro rfl
    cases placed
    cases isInside
  obtain ⟨subquery, found, same⟩ := getElem?_outlinesOf behindMain placed
  exact ⟨position - 1, subquery, found, same⟩

/-- Two subqueries at different positions are apart or one is inside the other. -/
theorem apart_or_inside {subqueries : List Subquery} (nested : Nested subqueries)
    {first second : Nat} {left right : Subquery} (leftAt : subqueries[first]? = some left)
    (rightAt : subqueries[second]? = some right) (different : first ≠ second) :
    left.span.stop ≤ right.span.start ∨ right.span.stop ≤ left.span.start ∨
      StrictlyInside left.span right.span ∨ StrictlyInside right.span left.span := by
  rcases Nat.lt_or_gt_of_ne different with earlier | later
  · obtain ⟨ends, inside | apart⟩ := nested.endsBefore leftAt rightAt earlier
    · exact .inr (.inr (.inl ⟨inside, ends⟩))
    · exact .inl apart
  · obtain ⟨ends, inside | apart⟩ := nested.endsBefore rightAt leftAt later
    · exact .inr (.inr (.inr ⟨inside, ends⟩))
    · exact .inr (.inl apart)

/-- Every scope but the main query has a parent around it. -/
theorem parented_extract {query : String} {position : Nat} {scope : Scope}
    (behindMain : 0 < position) (found : (extract query)[position]? = some scope) :
    ∃ parentIndex, ∃ parent : Scope, scope.parent = some parentIndex ∧ parentIndex ≠ position ∧
      (extract query)[parentIndex]? = some parent ∧ scope.level = parent.level + 1 ∧
      (parent.span.start ≤ scope.span.start ∧ scope.span.stop ≤ parent.span.stop) ∧
      (parentIndex = 0 ∨ position < parentIndex ∧ StrictlyInside scope.span parent.span) := by
  obtain ⟨outline, placed, rfl⟩ := getElem?_extract found
  obtain ⟨subquery, subqueryAt, rfl⟩ := getElem?_outlinesOf behindMain placed
  obtain ⟨parentIndex, parent, isParent, parentAt, levels, inside⟩ :=
    exists_parent (Bytes.ofString query).length (nested_all (codeOf query)) subqueryAt
  refine ⟨parentIndex, scopeOf query parent, isParent, by omega, ?_, levels, ?_, ?_⟩
  · rw [extract_eq_map, List.getElem?_map]
    exact congrArg (Option.map (scopeOf query)) parentAt
  · rcases inside with rfl | ⟨_, afterStart, beforeStop⟩
    · cases parentAt
      exact ⟨Nat.zero_le _, stop_le_length (List.mem_of_getElem? subqueryAt)⟩
    · exact ⟨Nat.le_of_lt afterStart, Nat.le_of_lt beforeStop⟩
  · rcases inside with isMain | ⟨later, inside⟩
    · exact .inl isMain
    · exact .inr ⟨by omega, inside⟩

/-- An entry of a scope's FROM clause is a named table or a derived one, and a link leads to a child
of the scope. -/
theorem reference_extract {query : String} {scope : Scope} (member : scope ∈ extract query)
    {reference : TableReference} (listed : reference ∈ scope.tables) :
    reference.tableName.isSome = !reference.isDerived ∧
      ∀ link, reference.derivedScope = some link →
        ∃ child, (extract query)[link]? = some child ∧ child.parent = some scope.index := by
  rw [extract_eq_map] at member
  obtain ⟨outline, _, rfl⟩ := List.mem_map.mp member
  rw [scopeOf_eq_assemble, Outline.assemble] at listed
  obtain ⟨entry, read, rfl⟩ := List.mem_map.mp listed
  obtain ⟨_, _, _, _, shape, _, made⟩ := FromEntry.exists_place_of_mem_readAll read
  refine ⟨?_, ?_⟩
  · rw [(kind_link _ _ _ entry).1, (kind_link _ _ _ entry).2]
    exact made.named
  · intro link linked
    obtain ⟨child, isChild, rfl⟩ := exists_child_of_link made.unlinked linked
    obtain ⟨isOutline, isInside⟩ := List.mem_filter.mp isChild
    obtain ⟨position, placed⟩ := List.getElem?_of_mem isOutline
    refine ⟨scopeOf query child, ?_, by simpa using isInside⟩
    rw [extract_eq_map, List.getElem?_map, index_of_all placed, placed, Option.map_some]

/-- The scopes of every text form a tree. -/
theorem extract_wellFormed (query : String) :
    WellFormed query.utf8ByteSize (extract query) where
  main := by
    refine ⟨scopeOf query (Outline.main (Bytes.ofString query).length), ?_, rfl, rfl, rfl, ?_⟩
    · rw [extract_eq_map, List.getElem?_map]
      rfl
    · rw [span_scopeOf, Outline.main, Bytes.length_ofString]
  indexed := by
    intro position scope found
    obtain ⟨outline, placed, rfl⟩ := getElem?_extract found
    exact index_of_all placed
  parented := by
    intro position scope behindMain found
    exact parented_extract behindMain found
  laminar := by
    intro first second left right firstBehind secondBehind different leftAt rightAt
    obtain ⟨leftOutline, leftPlaced, rfl⟩ := getElem?_extract leftAt
    obtain ⟨rightOutline, rightPlaced, rfl⟩ := getElem?_extract rightAt
    obtain ⟨leftSubquery, leftFound, rfl⟩ := getElem?_outlinesOf firstBehind leftPlaced
    obtain ⟨rightSubquery, rightFound, rfl⟩ := getElem?_outlinesOf secondBehind rightPlaced
    exact apart_or_inside (nested_all _) leftFound rightFound (by omega)
  kinds := by
    intro scope member reference listed
    have exactlyOne := (reference_extract member listed).1
    cases derived : reference.isDerived with
    | false => exact .inl ⟨by rw [exactlyOne, derived]; rfl, rfl⟩
    | true => exact .inr ⟨by rw [exactlyOne, derived]; rfl, rfl⟩
  links := by
    intro scope member reference listed
    exact (reference_extract member listed).2

end QueryScope.ScopeTree
