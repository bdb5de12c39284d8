import Mathlib.Data.List.Basic
import QueryScope.Proofs.EntryPlaces
import QueryScope.Proofs.ScopeTree

/-!
# Which scope a derived table is linked to

In a query that holds no placeholder of its own, the placeholder of a derived table stands for the
subquery that was written at the entry. So by position alone the entry leads to the scope that
yields its rows. But names come first: the entry is linked to the first child of the scope that
has the entry's alias, wherever in the scope that child stands, and only if there is none to the
subquery at the entry. The link is right exactly if no other child is the first with the alias.
-/

namespace QueryScope

open Quotes Placeholder EntryPlace

namespace Masked

/-- The children that masking a part of a query replaces, in the order of their beginnings. -/
def replaced (content : Span) (children : List (Span × Nat)) : List (Span × Nat) :=
  (children.filter fun child => content.encloses child.1).mergeSort fun left right =>
    decide (left.1.start ≤ right.1.start)

/-- The entries of a masked block's FROM clause, each with the offset in the block at which its name
stands. -/
def located (masked : Masked) : List (Nat × FromEntry) :=
  (FromEntry.located (masked.textAt masked.clauses.fromClause)
    (masked.codeAt masked.clauses.fromClause)).map fun entry =>
      (masked.clauses.fromClause.start + entry.1, entry.2)

/-- The entries are those that are located. -/
theorem entries_eq_map_located (masked : Masked) : masked.entries = masked.located.map (·.2) := by
  rw [entries, FromEntry.value_readAll, located, List.map_map]
  rfl

/-- A derived table stands at a placeholder, and it comes with the number of those before it in its
clause. -/
theorem standsAt_of_mem_located {masked : Masked} (legible : Legible masked.code) {offset : Nat}
    {entry : FromEntry} (found : (offset, entry) ∈ masked.located)
    (derived : entry.reference.isDerived = true) :
    StandsAt masked.code offset ∧ ∃ ordinal, entry.ordinal = some ordinal ∧
      count (masked.code.take offset) = masked.earlier + ordinal := by
  have clause : Stretch masked.code masked.clauses.fromClause := stretch_fromClause legible
  have clauseLegible : Legible (masked.codeAt masked.clauses.fromClause) :=
    clause.legible_extract legible
  obtain ⟨⟨inClause, _⟩, located, same⟩ := List.mem_map.mp found
  cases same
  obtain ⟨span, isSpan, place, isPlace, shape, shaped, made, rfl, _⟩ :=
    FromEntry.exists_place_of_mem_located located
  have stretch := stretch_place clauseLegible (stretch_spans clauseLegible span isSpan) isPlace
  have isPlaceholder : Text.sameName shape.name.text Placeholder.text = true := by
    rw [← made.derived, derived]
  obtain ⟨inStretch, counted⟩ := standsAt_of_derived clauseLegible stretch shaped isPlaceholder
  obtain ⟨stands, countedAll⟩ := clause.standsAt inStretch
  refine ⟨stands, _, by rw [made.counted, if_pos derived], ?_⟩
  rw [earlier, Window.extract_zero, Window.extract_zero, ← counted]
  exact countedAll

end Masked

namespace DerivedLinks

open SubquerySpans ScopeTree

/-- The children that are replaced in the block of an outline. -/
def replacedIn (query : String) (outline : Outline) : List (Span × Nat) :=
  Masked.replaced outline.body
    ((childrenIn query outline).map fun child => (child.span, child.index))

/-- The offset in the query of the name of an entry: where the subquery begins when the entry is a
derived table. Scopes and entries are given by their numbers. -/
def entryOffset? (query : String) (position number : Nat) : Option Nat :=
  (outlinesOf query)[position]?.bind fun outline =>
    ((maskedOf query outline).located[number]?).map fun entry =>
      Masked.originFrom outline.body.start entry.1 ((replacedIn query outline).map (·.1))

/-- The scopes directly inside the one at a position. -/
def childScopes (query : String) (position : Nat) : List Scope :=
  (extract query).filter (·.parent == some position)

/-- The first of some scopes with the given alias. -/
def namesake? (scopes : List Scope) (aliasName : Option String) : Option Scope :=
  aliasName.bind fun name => scopes.find? fun scope => scope.aliasName.any (Text.sameName · name)

variable {query : String} {outline : Outline}

/-- The code of a query is legible. -/
theorem legible_codeOf (query : String) : Legible (codeOf query) := .codeView ⟨query, rfl⟩

/-- A subquery begins and ends at seams. -/
theorem seams_of_mem {subquery : Subquery} (member : subquery ∈ subqueriesOf query) :
    Seam (codeOf query) subquery.span.start ∧ Seam (codeOf query) subquery.span.stop := by
  obtain ⟨opening, closing, same, matching⟩ := exists_matches_of_mem_all member
  have legible := legible_codeOf query
  rw [same]
  exact ⟨legible.seam_at matching.opens (by decide) (by decide) (by decide),
    legible.seam_behind matching.closes (by decide) (by decide) (by decide)⟩

/-- The content of a subquery is what stands between its parentheses, trimmed. -/
theorem trimmed_content {subquery : Subquery} (found : subquery ∈ subqueriesOf query) :
    Bytes.Trimmed (codeOf query) ⟨subquery.span.start + 1, subquery.span.stop - 1⟩
      subquery.content := by
  obtain ⟨opening, closing, same, matching⟩ := exists_matches_of_mem_all found
  have content : subquery.content = (Bytes.trim (codeOf query) ⟨opening + 1, closing⟩).value := by
    rw [content_of_mem_all found, same, Nat.add_sub_cancel]
  rw [content, same, Nat.add_sub_cancel]
  exact Bytes.trimmed_trim matching.inOrder
    (Nat.le_of_lt (List.getElem?_eq_some_iff.mp matching.closes).1)

/-- The body of a scope begins at a seam and ends at a cut. -/
theorem ends_body (member : outline ∈ outlinesOf query) :
    Seam (codeOf query) outline.body.start ∧ Bytes.CutAt (codeOf query) outline.body.stop ∧
      outline.body.start ≤ outline.body.stop := by
  have legible := legible_codeOf query
  rcases main_or_subquery_of_mem member with rfl | ⟨subquery, found, position, rfl⟩
  · refine ⟨legible.seam_zero, ?_, Nat.zero_le _⟩
    rw [Outline.main, ← CodeView.length_codeView]
    exact .length legible.spells
  · obtain ⟨opening, closing, same, matching⟩ := exists_matches_of_mem_all found
    have first : Seam (codeOf query) (opening + 1) :=
      legible.seam_behind matching.opens (by decide) (by decide) (by decide)
    have second : Bytes.CutAt (codeOf query) closing :=
      .at_ascii legible.spells matching.closes (by decide)
    have trimmed := trimmed_content found
    rw [same, Nat.add_sub_cancel] at trimmed
    have ends := trimmed.cutAt legible.spells first.cut second
    exact ⟨legible.seam_behind_blanks first ends.1.within trimmed.blankFront trimmed.startLe,
      ends.2, trimmed.inOrder⟩

/-- A child that is replaced is one of the scope's children, and it may be replaced. -/
theorem exists_child_of_mem_replacedIn {span : Span} {index : Nat}
    (member : (span, index) ∈ replacedIn query outline) :
    (∃ child ∈ childrenIn query outline, child.span = span ∧ child.index = index) ∧
      Masked.Replaceable (codeOf query) outline.body.stop span := by
  rw [replacedIn, Masked.replaced, List.mem_mergeSort, List.mem_filter, List.mem_map] at member
  obtain ⟨⟨child, isChild, same⟩, enclosed⟩ := member
  cases same
  refine ⟨⟨child, isChild, rfl, rfl⟩, ?_⟩
  obtain ⟨position, subquery, found, rfl⟩ := exists_subquery_of_mem_childrenIn isChild
  have listed := List.mem_of_getElem? found
  obtain ⟨start, stop⟩ := seams_of_mem listed
  rw [Span.encloses, Bool.and_eq_true, decide_eq_true_eq, decide_eq_true_eq] at enclosed
  exact ⟨Nat.le_of_lt ((Nesting.nested_all _).proper subquery listed), enclosed.2, start, stop⟩

/-- The masked code of a scope is legible. -/
theorem legible_maskedOf (member : outline ∈ outlinesOf query) :
    Legible (maskedOf query outline).code := by
  obtain ⟨begins, ends, inOrder⟩ := ends_body member
  apply Masked.legible_maskFrom (legible_codeOf query) begins ends inOrder
  intro child replaced
  exact (exists_child_of_mem_replacedIn replaced).2

/-- The child that a derived table comes from: masking remembers it at the number of the entry's
placeholder, and it begins where the entry stands in the query. -/
theorem exists_child_of_derived (free : Free (codeOf query)) (member : outline ∈ outlinesOf query)
    {offset : Nat} {entry : FromEntry} (found : (offset, entry) ∈ (maskedOf query outline).located)
    (derived : entry.reference.isDerived = true) :
    ∃ child ∈ childrenIn query outline,
      (entry.ordinal.bind fun ordinal =>
        (maskedOf query outline).children[(maskedOf query outline).earlier + ordinal]?) =
          some child.index ∧
      Masked.originFrom outline.body.start offset ((replacedIn query outline).map (·.1)) =
        child.span.start := by
  obtain ⟨stands, ordinal, isOrdinal, counted⟩ :=
    Masked.standsAt_of_mem_located (legible_maskedOf member) found derived
  have within : ∀ child ∈ replacedIn query outline, child.1.start ≤ (codeOf query).length := by
    intro child replaced
    exact (exists_child_of_mem_replacedIn replaced).2.start.cut.within
  obtain ⟨⟨childSpan, index⟩, replaced, remembered, origin, _⟩ :=
    Masked.exists_child_of_standsAt free outline.body.stop within stands
  obtain ⟨⟨child, isChild, rfl, rfl⟩, _⟩ := exists_child_of_mem_replacedIn replaced
  refine ⟨child, isChild, ?_, origin⟩
  rw [isOrdinal, Option.bind_some, ← counted]
  exact remembered

/-- The scopes inside a scope are those of the outlines inside its outline. -/
theorem childScopes_eq_map {position : Nat}
    (placed : (outlinesOf query)[position]? = some outline) :
    childScopes query position = (childrenIn query outline).map (scopeOf query) := by
  rw [childScopes, extract_eq_map, List.filter_map, childrenIn, Outline.childrenOf,
    index_of_all placed]
  rfl

/-- Scopes with the same index are the same. -/
theorem eq_of_index_eq {left right : Scope} (leftListed : left ∈ extract query)
    (rightListed : right ∈ extract query) (same : left.index = right.index) : left = right := by
  have placed {scope : Scope} (listed : scope ∈ extract query) :
      (extract query)[scope.index]? = some scope := by
    obtain ⟨position, found⟩ := List.getElem?_of_mem listed
    obtain ⟨outline, outlineAt, rfl⟩ := getElem?_extract found
    rw [index_scopeOf, index_of_all outlineAt, found]
  have leftAt := placed leftListed
  rw [same, placed rightListed] at leftAt
  exact (Option.some.inj leftAt).symm

/-- Children that begin at the same offset are the same. -/
theorem eq_of_start_eq {left right : Outline} (leftInside : left ∈ childrenIn query outline)
    (rightInside : right ∈ childrenIn query outline) (same : left.span.start = right.span.start) :
    left = right := by
  obtain ⟨first, leftSubquery, leftAt, rfl⟩ := exists_subquery_of_mem_childrenIn leftInside
  obtain ⟨second, rightSubquery, rightAt, rfl⟩ := exists_subquery_of_mem_childrenIn rightInside
  have nested := Nesting.nested_all (codeOf query)
  have leftProper := nested.proper leftSubquery (List.mem_of_getElem? leftAt)
  have rightProper := nested.proper rightSubquery (List.mem_of_getElem? rightAt)
  have samePosition : first = second := by
    by_contra different
    have places := apart_or_inside nested leftAt rightAt different
    simp only [Nesting.StrictlyInside] at places
    simp only [Outline.ofSubquery] at same
    omega
  subst samePosition
  cases leftAt.symm.trans rightAt
  rfl

/-- The link of a derived table whose own child is known: the first child with the same alias goes
before it. -/
theorem link_of_derived {children : List Outline} {masked : Masked} {earlier : Nat}
    {entry : FromEntry} {child : Outline} (derived : entry.reference.isDerived = true)
    (byPosition : (entry.ordinal.bind fun ordinal => masked.children[earlier + ordinal]?) =
      some child.index) :
    (Outline.link children masked earlier entry).aliasName = entry.reference.aliasName ∧
      (Outline.link children masked earlier entry).derivedScope =
        some (((entry.reference.aliasName.bind fun name => children.find? fun other =>
          other.aliasName.any (Text.sameName · name)).getD child).index) := by
  rw [Outline.link, if_pos derived]
  refine ⟨rfl, ?_⟩
  simp only [byPosition]
  cases entry.reference.aliasName with
  | none => rfl
  | some name =>
    simp only [Option.bind_some]
    cases children.find? fun child => child.aliasName.any (Text.sameName · name) with
    | none => rfl
    | some first => rfl

/-- The first child with a given alias, as an outline and as a scope. -/
theorem namesake?_map (children : List Outline) (aliasName : Option String) :
    namesake? (children.map (scopeOf query)) aliasName =
      (aliasName.bind fun name =>
        children.find? fun child => child.aliasName.any (Text.sameName · name)).map
          (scopeOf query) := by
  cases aliasName with
  | none => rfl
  | some name =>
    rw [namesake?, Option.bind_some, Option.bind_some, List.find?_map]
    rfl

/-- What goes before a child is the child itself exactly if no other child is the first with the
alias. -/
theorem index_getD_namesake?_iff {position : Nat} {child : Scope}
    (isChild : child ∈ childScopes query position) (aliasName : Option String) :
    some ((namesake? (childScopes query position) aliasName).getD child).index = some child.index ↔
      ∀ first ∈ namesake? (childScopes query position) aliasName, first = child := by
  have listed {scope : Scope} (member : scope ∈ childScopes query position) :
      scope ∈ extract query := (List.mem_filter.mp member).1
  cases named : namesake? (childScopes query position) aliasName with
  | none => simp
  | some first =>
    obtain ⟨name, _, isFirst⟩ := Option.bind_eq_some_iff.mp named
    have firstListed := listed (List.mem_of_find?_eq_some isFirst)
    rw [Option.getD_some, Option.some.injEq]
    constructor
    · rintro same other ⟨⟩
      exact eq_of_index_eq firstListed (listed isChild) same
    · intro same
      rw [same first rfl]

/-- Every derived table stands for exactly one child of its scope, the subquery written at the
entry. It is linked to the first child that has its alias, or else to the child that it stands for.
So the link is right exactly if no other child is the first with that alias. -/
theorem derived_link_exact (query : String) (free : Free (codeOf query)) {position number : Nat}
    {scope : Scope} {reference : TableReference} (isScope : (extract query)[position]? = some scope)
    (listed : scope.tables[number]? = some reference) (derived : reference.isDerived = true) :
    ∃ child ∈ childScopes query position,
      entryOffset? query position number = some child.span.start ∧
      (∀ other ∈ childScopes query position,
        other.span.start = child.span.start → other = child) ∧
      reference.derivedScope =
        some ((namesake? (childScopes query position) reference.aliasName).getD child).index ∧
      (reference.derivedScope = some child.index ↔
        ∀ first ∈ namesake? (childScopes query position) reference.aliasName, first = child) := by
  obtain ⟨outline, placed, rfl⟩ := getElem?_extract isScope
  rw [scopeOf_eq_assemble, Outline.assemble, Masked.entries_eq_map_located] at listed
  simp only [List.map_map, List.getElem?_map, Option.map_eq_some_iff] at listed
  obtain ⟨⟨offset, entry⟩, found, rfl⟩ := listed
  have isDerived : entry.reference.isDerived = true :=
    (kind_link _ _ _ entry).2.symm.trans derived
  obtain ⟨child, inside, byPosition, origin⟩ := exists_child_of_derived free
    (List.mem_of_getElem? placed) (List.mem_of_getElem? found) isDerived
  obtain ⟨sameAlias, linked⟩ := link_of_derived isDerived byPosition
  have isChild : scopeOf query child ∈ childScopes query position := by
    rw [childScopes_eq_map placed]
    exact List.mem_map_of_mem inside
  have linkedTo : (Outline.link (childrenIn query outline) (maskedOf query outline)
      (maskedOf query outline).earlier entry).derivedScope =
        some ((namesake? (childScopes query position) entry.reference.aliasName).getD
          (scopeOf query child)).index := by
    rw [linked, childScopes_eq_map placed, namesake?_map, Option.getD_map, index_scopeOf]
  refine ⟨scopeOf query child, isChild, ?_, ?_, ?_, ?_⟩
  · rw [entryOffset?, placed, Option.bind_some, found, Option.map_some, origin, span_scopeOf]
  · rw [childScopes_eq_map placed]
    intro other member same
    obtain ⟨otherOutline, otherInside, rfl⟩ := List.mem_map.mp member
    rw [eq_of_start_eq otherInside inside same]
  · rw [Function.comp_apply, sameAlias]
    exact linkedTo
  · rw [Function.comp_apply, sameAlias, linkedTo]
    exact index_getD_namesake?_iff isChild _

/-- A query whose scalar subquery and derived table have the same alias. -/
def namesakes : String := "SELECT (SELECT 1) d, 1 FROM (SELECT 2) d"

/-- The outline of its main query. -/
def namesakesOutline : Outline := Outline.main (Bytes.ofString namesakes).length

/-- Its main query in masked form. -/
def namesakesMasked : Bytes := Bytes.ofString "SELECT (__SUBSELECT__) d, 1 FROM (__SUBSELECT__) d"

/-- Its FROM clause in masked form. -/
def namesakesClause : Bytes := Bytes.ofString "(__SUBSELECT__) d"

/-- The main query of `namesakes` has two children, and both have the alias `d`. -/
theorem childrenIn_namesakes :
    childrenIn namesakes namesakesOutline =
      [⟨1, 1, ⟨7, 17⟩, ⟨8, 16⟩, some "d", some 0⟩,
        ⟨2, 1, ⟨28, 38⟩, ⟨29, 37⟩, some "d", some 0⟩] := by
  decide +kernel

/-- Both children are replaced, as neither overlaps the other. -/
theorem replacedIn_namesakes :
    replacedIn namesakes namesakesOutline = [(⟨7, 17⟩, 1), (⟨28, 38⟩, 2)] := by
  have enclosed : ([(⟨7, 17⟩, 1), (⟨28, 38⟩, 2)] : List (Span × Nat)).filter (fun child =>
      namesakesOutline.body.encloses child.1) = [(⟨7, 17⟩, 1), (⟨28, 38⟩, 2)] := by decide +kernel
  rw [replacedIn, Masked.replaced, childrenIn_namesakes, List.map_cons, List.map_cons, List.map_nil,
    enclosed]
  apply List.mergeSort_of_pairwise
  decide

/-- Masked, the query has two placeholders, which stand for the scopes 1 and 2 in this order. -/
theorem maskedOf_namesakes :
    maskedOf namesakes namesakesOutline = ⟨namesakesMasked, namesakesMasked, [1, 2]⟩ := by
  have masked : maskedOf namesakes namesakesOutline =
      (Masked.maskFrom (Bytes.ofString namesakes) (codeOf namesakes) namesakesOutline.body.stop
        namesakesOutline.body.start (replacedIn namesakes namesakesOutline)).value := rfl
  rw [masked, replacedIn_namesakes]
  decide +kernel

/-- The FROM clause of `namesakes` has one entry: the derived table, at its beginning. -/
theorem located_namesakesClause :
    FromEntry.located namesakesClause namesakesClause =
      [(0, ⟨{ TableReference.derived with aliasName := some "d" }, some 0⟩)] := by
  have spans : (FromEntry.spans namesakesClause).value = [⟨0, 17⟩] := by
    have parts : TopLevel.split namesakesClause Byte.comma = [⟨0, 17⟩] := by decide +kernel
    have upToEnd : namesakesClause.extract 0 17 = namesakesClause := by decide +kernel
    rw [FromEntry.value_spans, parts, List.map_singleton, upToEnd,
      FromEntry.betweenJoins_of_none (by decide +kernel)]
    decide +kernel
  have place : FromEntry.place? namesakesClause ⟨0, 17⟩ = some ⟨0, 17⟩ := by decide +kernel
  have shape : FromEntry.shapeAt? namesakesClause ⟨0, 17⟩ =
      some ⟨none, ⟨0, Placeholder.text.toList⟩, some ⟨16, ['d']⟩⟩ := by
    rw [FromEntry.shapeAt?, FromEntry.Shape.read?,
      Identifier.readPath_of_none 0 (by decide +kernel)]
    decide +kernel
  rw [FromEntry.located, spans]
  simp only [List.filterMap_cons, List.filterMap_nil, place, Option.bind_some, shape]
  decide +kernel

/-- In the masked block that entry stands where the clause does, behind the other placeholder. -/
theorem located_namesakes :
    (maskedOf namesakes namesakesOutline).located =
      [(33, ⟨{ TableReference.derived with aliasName := some "d" }, some 0⟩)] := by
  have clause : (Masked.mk namesakesMasked namesakesMasked [1, 2]).clauses.fromClause =
      ⟨33, 50⟩ := by decide +kernel
  have cut : namesakesMasked.extract 33 50 = namesakesClause := by decide +kernel
  rw [maskedOf_namesakes, Masked.located, clause, Masked.textAt, Masked.codeAt, cut,
    located_namesakesClause]
  rfl

/-- The derived table of that query is linked to the scalar subquery, which comes first, and not to
the subquery that is written at the entry. -/
theorem derived_link_exact_namesakes :
    Free (codeOf namesakes) ∧ ∃ scope reference child,
      (extract namesakes)[0]? = some scope ∧ scope.tables[0]? = some reference ∧
      reference.isDerived = true ∧ child ∈ childScopes namesakes 0 ∧
      entryOffset? namesakes 0 0 = some child.span.start ∧ child.index = 2 ∧
      reference.derivedScope = some 1 := by
  have free : Free (codeOf namesakes) := by decide +kernel
  have placed : (outlinesOf namesakes)[0]? = some namesakesOutline := rfl
  have isScope : (extract namesakes)[0]? = some (scopeOf namesakes namesakesOutline) := by
    rw [extract_eq_map, List.getElem?_map, placed, Option.map_some]
  obtain ⟨reference, listed, derived, hasAlias⟩ : ∃ reference,
      (scopeOf namesakes namesakesOutline).tables[0]? = some reference ∧
      reference.isDerived = true ∧ reference.aliasName = some "d" := by
    rw [scopeOf_eq_assemble, Outline.assemble, Masked.entries_eq_map_located, located_namesakes]
    exact ⟨_, rfl, rfl, rfl⟩
  obtain ⟨child, isChild, standing, _, linked, _⟩ :=
    derived_link_exact namesakes free isScope listed derived
  refine ⟨free, _, reference, child, isScope, listed, derived, isChild, standing, ?_, ?_⟩
  · have offset : entryOffset? namesakes 0 0 = some 28 := by
      rw [entryOffset?, placed, Option.bind_some, located_namesakes, replacedIn_namesakes]
      decide +kernel
    have second : ∀ inside ∈ childrenIn namesakes namesakesOutline,
        inside.span.start = 28 → inside.index = 2 := by
      rw [childrenIn_namesakes]
      decide
    rw [childScopes_eq_map placed] at isChild
    obtain ⟨inside, isInside, rfl⟩ := List.mem_map.mp isChild
    exact second inside isInside (Option.some.inj (standing.symm.trans offset))
  · have named : ((childrenIn namesakes namesakesOutline).find? fun inside =>
        inside.aliasName.any (Text.sameName · "d")).map (·.index) = some 1 := by
      rw [childrenIn_namesakes]
      decide +kernel
    obtain ⟨first, isFirst, isOne⟩ := Option.map_eq_some_iff.mp named
    rw [linked, hasAlias, childScopes_eq_map placed, namesake?_map, Option.bind_some, isFirst,
      Option.map_some, Option.getD_some, index_scopeOf, isOne]

end DerivedLinks

end QueryScope
