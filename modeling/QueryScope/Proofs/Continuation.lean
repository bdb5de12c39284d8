import Mathlib.Data.List.Basic
import QueryScope.Proofs.Composition

/-!
# Typing on leaves closed subqueries alone

While a query is being typed, text is added at its end. What is added may complete a mark that the
last byte has begun, close parentheses that were open, or go on with the word that is the alias of
the last subquery. None of this reaches back over the closing parenthesis of a subquery: the code
up to there is the same, so the subquery is found at the same position, and its scope is made from
the text between its parentheses alone. Only what the surroundings decide may change: the alias,
the level and the parent.
-/

namespace QueryScope.Continuation

open Parentheses SubquerySpans Nesting ScopeTree QueryScope.Composition

/-- The bytes of a text that goes on. -/
theorem ofString_append (text more : String) :
    Bytes.ofString (text ++ more) = Bytes.ofString text ++ Bytes.ofString more := by
  rw [Bytes.ofString, String.toList_append, List.flatMap_append]
  rfl

/-- What is cut out of a text does not change when the text goes on. -/
theorem extract_append (bytes more : Bytes) (start : Nat) {stop : Nat}
    (within : stop ≤ bytes.length) :
    (bytes ++ more).extract start stop = bytes.extract start stop := by
  simpa using Window.extract_window [] bytes more start within

/-- Subqueries of a code are subqueries of every longer code, and they come first. -/
theorem spans_all_prefix (code more : Bytes) :
    ((Subquery.all code).value).map (·.span) <+:
      ((Subquery.all (code ++ more)).value).map (·.span) := by
  have samePairs : Subquery.pairs (code ++ more) = Subquery.pairs code ++
      Subquery.pairsFrom code.length (waitingBehind 0 [] code) more := by
    rw [Subquery.pairs, pairsFrom_append, Nat.zero_add]
    rfl
  have sameSpans : (Subquery.pairs code).filterMap (fun pair =>
      if beginsWithSelect (code.extract (pair.1 + 1) pair.2) then
        some (⟨pair.1, pair.2 + 1⟩ : Span) else none) =
      (Subquery.pairs code).filterMap (fun pair =>
        if beginsWithSelect ((code ++ more).extract (pair.1 + 1) pair.2) then
          some ⟨pair.1, pair.2 + 1⟩ else none) := by
    apply List.filterMap_congr
    rintro ⟨opening, closing⟩ found
    have matching := (mem_pairs_iff code opening closing).mp found
    have within := (List.getElem?_eq_some_iff.mp matching.closes).1
    rw [extract_append code more _ (Nat.le_of_lt within)]
  rw [spans_all, spans_all, samePairs, List.filterMap_append, sameSpans]
  exact List.prefix_append _ _

/-- The code of a query that goes on is the same up to a closing parenthesis: no mark that is
completed behind the parenthesis has begun in front of it. -/
theorem codeOf_append {query : String} {before behind : Bytes}
    (code : codeOf query = before ++ Byte.closeParen :: behind) (more : String) :
    ∃ further, codeOf (query ++ more) = before ++ Byte.closeParen :: further := by
  obtain ⟨front, back, whole, inCode, frontView, _⟩ :=
    CodeView.codeView_cut (by decide) (by decide) code
  refine ⟨codeView (back ++ Bytes.ofString more), ?_⟩
  rw [codeOf, ofString_append, whole, List.append_assoc, List.cons_append,
    CodeView.codeView_plain _ (by decide) inCode, frontView]

/-- A subquery of a query that goes on is found at the same position, and it stands at the same
place. -/
theorem exists_same_span {query : String} {position : Nat} {subquery : Subquery}
    (found : (subqueriesOf query)[position]? = some subquery) (more : String) :
    ∃ other, (subqueriesOf (query ++ more))[position]? = some other ∧
      other.span = subquery.span := by
  have listed : subquery.span ∈ (subqueriesOf query).map (·.span) :=
    List.mem_map_of_mem (List.mem_of_getElem? found)
  obtain ⟨opening, closing, place, matching, selects⟩ := (mem_spans_all_iff _ _).mp listed
  obtain ⟨before, inside, behind, code, balanced, isOpening, isClosing⟩ :=
    (matches_iff_split _ _ _).mp matching
  have cut : codeOf query = (before ++ Byte.openParen :: inside) ++ Byte.closeParen :: behind := by
    rw [code, List.append_assoc, List.cons_append]
  obtain ⟨further, longer⟩ := codeOf_append cut more
  -- the code that the two queries have in common ends with the subquery's closing parenthesis
  obtain ⟨common, isCommon⟩ : ∃ common : Bytes,
      common = before ++ Byte.openParen :: (inside ++ [Byte.closeParen]) := ⟨_, rfl⟩
  have shorterCode : codeOf query = common ++ behind := by
    rw [code, isCommon]
    simp
  have longerCode : codeOf (query ++ more) = common ++ further := by
    rw [longer, isCommon]
    simp
  have inCommon : subquery.span ∈ ((Subquery.all common).value).map (·.span) := by
    refine (mem_spans_all_iff _ _).mpr ⟨opening, closing, place, ?_, ?_⟩
    · exact (matches_iff_split _ _ _).mpr
        ⟨before, inside, [], isCommon, balanced, isOpening, isClosing⟩
    · rw [shorterCode, extract_append common behind] at selects
      · exact selects
      · rw [isCommon, isClosing]
        simp only [List.length_append, List.length_cons]
        omega
  obtain ⟨index, placed⟩ := List.getElem?_of_mem inCommon
  have within := (List.getElem?_eq_some_iff.mp placed).1
  have inShorter : ((subqueriesOf query).map (·.span))[index]? = some subquery.span := by
    obtain ⟨rest, split⟩ := spans_all_prefix common behind
    rw [subqueriesOf, shorterCode, ← split, List.getElem?_append_left within, placed]
  have inLonger : ((subqueriesOf (query ++ more)).map (·.span))[index]? = some subquery.span := by
    obtain ⟨rest, split⟩ := spans_all_prefix common further
    rw [subqueriesOf, longerCode, ← split, List.getElem?_append_left within, placed]
  rw [List.getElem?_map, Option.map_eq_some_iff] at inShorter inLonger
  obtain ⟨same, sameAt, sameSpan⟩ := inShorter
  have isPosition : index = position := (nested_all _).position_eq sameAt found sameSpan
  rw [isPosition] at inLonger
  exact inLonger

/-- Two scopes that agree in all that is made from a subquery's own text. -/
structure SameOwn (left right : Scope) : Prop where
  index : left.index = right.index
  span : left.span = right.span
  content : left.content = right.content
  selectList : left.selectList = right.selectList
  fromClause : left.fromClause = right.fromClause
  whereClause : left.whereClause = right.whereClause
  tables : left.tables = right.tables
  exposedColumns : left.exposedColumns = right.exposedColumns

/-- All else is the alias, the level and the parent. -/
theorem SameOwn.eq_update {left right : Scope} (same : SameOwn left right) :
    right = { left with
      aliasName := right.aliasName, level := right.level, parent := right.parent } := by
  rw [same.index, same.span, same.content, same.selectList, same.fromClause, same.whereClause,
    same.tables, same.exposedColumns]

/-- Subqueries with the same text, at the same place and position of two queries, have the same
scope apart from their surroundings. -/
theorem sameOwn_of_inside {left right : String} (first : Inset left) (second : Inset right)
    (samePosition : first.frame.hostPosition = second.frame.hostPosition)
    (sameSpan : first.frame.host.span = second.frame.host.span)
    (sameInside : first.inside = second.inside) :
    SameOwn (scopeOf left first.frame.hostOutline) (scopeOf right second.frame.hostOutline) := by
  have sameText : first.text = second.text := by
    rw [Inset.text, Inset.text, sameInside]
  have sameMain : first.mainOutline = second.mainOutline := by
    rw [Inset.mainOutline, Inset.mainOutline, first.length_eq, second.length_eq, sameInside]
  have sameInner : first.frame.inner.length = second.frame.inner.length := by
    rw [first.inner_eq, second.inner_eq, sameInside]
  have sameLead : first.frame.placement.lead = second.frame.placement.lead := by
    simp only [Frame.hostPosition] at samePosition
    simp only [Frame.placement]
    omega
  have sameReference : first.frame.placement.reference = second.frame.placement.reference := by
    funext reference
    rw [Placement.reference, Placement.reference, sameLead]
  obtain ⟨selectList, fromClause, whereClause, exposedColumns, tables⟩ := first.host_scope
  obtain ⟨selectList', fromClause', whereClause', exposedColumns', tables'⟩ := second.host_scope
  rw [sameText, sameMain] at selectList fromClause whereClause exposedColumns tables
  constructor
  · rw [index_scopeOf, index_scopeOf, Frame.hostOutline, Frame.hostOutline]
    simp only [Outline.ofSubquery, samePosition]
  · exact sameSpan
  · have contents := first.contents_eq.trans (sameInside.trans second.contents_eq.symm)
    rw [scopeOf_eq_assemble, scopeOf_eq_assemble]
    simp only [Outline.assemble]
    rw [Outline.value_content rfl, Outline.value_content rfl]
    exact congrArg (fun bytes => Text.trim (Bytes.text bytes)) contents
  · rw [selectList, selectList']
  · rw [fromClause, fromClause']
  · rw [whereClause, whereClause']
  · rw [tables, tables', sameReference]
  · rw [exposedColumns, exposedColumns']

/-- Typing on never disturbs a closed subquery: its scope is found again at the same position, and
nothing but its alias, its level and its parent may be different. -/
theorem extract_append_stable (query more : String) (position : Nat) (scope : Scope)
    (behindMain : 1 ≤ position) (found : (extract query)[position]? = some scope) :
    ∃ aliasName level parent, (extract (query ++ more))[position]? =
      some { scope with aliasName, level, parent } := by
  obtain ⟨outline, placed, rfl⟩ := getElem?_extract found
  obtain ⟨host, hostAt, rfl⟩ := getElem?_outlinesOf behindMain placed
  obtain ⟨other, otherAt, sameSpan⟩ := exists_same_span hostAt more
  have ended := stop_le_length (List.mem_of_getElem? hostAt)
  obtain ⟨first, rfl, firstPosition⟩ := exists_inset hostAt
  obtain ⟨second, rfl, secondPosition⟩ := exists_inset otherAt
  have sameInside : first.inside = second.inside := by
    rw [← first.contents_eq, ← second.contents_eq, sameSpan, ofString_append, extract_append]
    omega
  have sameOwn := sameOwn_of_inside first second (firstPosition.trans secondPosition.symm)
    sameSpan.symm sameInside
  have isFirst : Outline.ofSubquery (subqueriesOf query) first.frame.host (position - 1) =
      first.frame.hostOutline := by
    rw [Frame.hostOutline, first.whole_eq, firstPosition]
  have secondAt : (extract (query ++ more))[position]? =
      some (scopeOf (query ++ more) second.frame.hostOutline) := by
    have atIndex := second.frame.all_host (Bytes.ofString (query ++ more)).length
    have index : second.frame.placement.index 0 = position := by
      rw [Placement.index, if_pos rfl]
      simp only [Frame.placement]
      omega
    rw [← second.outlinesOf_query, index] at atIndex
    rw [extract_eq_map, List.getElem?_map, atIndex, Option.map_some]
  rw [isFirst, secondAt]
  exact ⟨_, _, _, congrArg some sameOwn.eq_update⟩

/-- A query whose outer subquery is still open. -/
def halfTyped : String := "SELECT (SELECT (SELECT 1) a"

/-- The inner subquery stays the first one when the outer subquery is closed around it and its
alias is typed on, although its alias, level and parent are then others. -/
theorem extract_append_stable_halfTyped :
    ∃ scope other, (extract halfTyped)[1]? = some scope ∧
      (extract (halfTyped ++ "b)"))[1]? = some other ∧
      (scope.aliasName, scope.level, scope.parent) = (some "a", 1, some 0) ∧
      (other.aliasName, other.level, other.parent) = (some "ab", 2, some 2) ∧
      other = { scope with aliasName := some "ab", level := 2, parent := some 2 } := by
  have outline : (outlinesOf halfTyped)[1]? =
      some ⟨1, 1, ⟨15, 25⟩, ⟨16, 24⟩, some "a", some 0⟩ := by decide +kernel
  have found : (extract halfTyped)[1]? =
      some (scopeOf halfTyped ⟨1, 1, ⟨15, 25⟩, ⟨16, 24⟩, some "a", some 0⟩) := by
    rw [extract_eq_map, List.getElem?_map, outline, Option.map_some]
  have closedOutline : (outlinesOf (halfTyped ++ "b)"))[1]? =
      some ⟨1, 2, ⟨15, 25⟩, ⟨16, 24⟩, some "ab", some 2⟩ := by decide +kernel
  have closed : (extract (halfTyped ++ "b)"))[1]? =
      some (scopeOf (halfTyped ++ "b)") ⟨1, 2, ⟨15, 25⟩, ⟨16, 24⟩, some "ab", some 2⟩) := by
    rw [extract_eq_map, List.getElem?_map, closedOutline, Option.map_some]
  obtain ⟨aliasName, level, parent, stable⟩ :=
    extract_append_stable halfTyped "b)" 1 _ (Nat.le_refl 1) found
  rw [closed, Option.some.injEq] at stable
  have isAlias : aliasName = some "ab" := (congrArg Scope.aliasName stable).symm
  have isLevel : level = 2 := (congrArg Scope.level stable).symm
  have isParent : parent = some 2 := (congrArg Scope.parent stable).symm
  rw [isAlias, isLevel, isParent] at stable
  exact ⟨_, _, found, closed, rfl, rfl, stable⟩

end QueryScope.Continuation
