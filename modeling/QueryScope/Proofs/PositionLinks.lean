import Mathlib.Data.List.Pairwise
import QueryScope.Proofs.DerivedLinks
import QueryScope.Proofs.EntryOrder

/-!
# Links by position

A derived table without an alias can be linked only by its position: placeholders are counted in
front of the FROM clause and in front of the entry, and the sum is the position of a child in the
order of masking. The count is right wherever other subqueries stand, in the select list, in earlier
entries or in the conditions of earlier joins: the entry is linked to the subquery that is written
at it. Since entries and subqueries come in the same order, no two such entries share a subquery.
-/

namespace QueryScope

open Quotes Placeholder

namespace Masked

/-- What stands in masked code comes from the cursor or from behind it. -/
theorem le_originFrom {cursor : Nat} (offset : Nat) {spans : List Span}
    (inOrder : ∀ span ∈ spans, span.start ≤ span.stop) : cursor ≤ originFrom cursor offset spans := by
  induction spans generalizing cursor offset with
  | nil => exact Nat.le_add_right _ _
  | cons span others inductionHypothesis =>
    have othersInOrder : ∀ other ∈ others, other.start ≤ other.stop :=
      fun other member => inOrder other (List.mem_cons_of_mem _ member)
    rw [originFrom]
    split
    · exact inductionHypothesis offset othersInOrder
    · rename_i ahead
      have behind : cursor ≤ span.start := Nat.not_lt.mp ahead
      split
      · exact Nat.le_add_right _ _
      · split
        · exact behind
        · exact Nat.le_trans behind (Nat.le_trans (inOrder span List.mem_cons_self)
            (inductionHypothesis _ othersInOrder))

/-- Of two placeholders the first one comes from a child that ends before the origin of the second
one. -/
theorem exists_child_before_origin {text code : Bytes} (free : Free code) (stop : Nat) {cursor : Nat}
    {children : List (Span × Nat)}
    (proper : ∀ child ∈ children, child.1.start ≤ child.1.stop ∧ child.1.start ≤ code.length)
    {first second : Nat} (before : first < second)
    (standsFirst : StandsAt (maskFrom text code stop cursor children).value.code first)
    (standsSecond : StandsAt (maskFrom text code stop cursor children).value.code second) :
    ∃ child ∈ children, originFrom cursor first (children.map (·.1)) = child.1.start ∧
      child.1.stop ≤ originFrom cursor second (children.map (·.1)) := by
  induction children generalizing cursor first second with
  | nil => exact absurd standsFirst ((free.extract cursor stop).not_standsAt first)
  | cons child others inductionHypothesis =>
    have othersProper : ∀ other ∈ others,
        other.1.start ≤ other.1.stop ∧ other.1.start ≤ code.length :=
      fun other member => proper other (List.mem_cons_of_mem _ member)
    rw [List.map_cons]
    rcases Nat.lt_or_ge child.1.start cursor with overlaps | ahead
    · rw [maskFrom_cons_of_lt text code stop cursor others overlaps] at standsFirst standsSecond
      obtain ⟨found, member, origin, ends⟩ :=
        inductionHypothesis othersProper before standsFirst standsSecond
      refine ⟨found, List.mem_cons_of_mem _ member, ?_, ?_⟩
      · rw [originFrom, if_pos overlaps, origin]
      · rwa [originFrom, if_pos overlaps]
    · rw [value_maskFrom_cons text code stop cursor others ahead] at standsFirst standsSecond
      simp only [List.append_assoc] at standsFirst standsSecond
      have pieceLength := Window.length_extract code cursor (proper child List.mem_cons_self).2
      have pieceFree := free.extract cursor child.1.start
      have here : originFrom cursor (child.1.start - cursor) (child.1 :: others.map (·.1)) =
          child.1.start := by
        rw [originFrom, if_neg (Nat.not_lt.mpr ahead), if_neg (Nat.lt_irrefl _),
          if_pos (Nat.lt_add_of_pos_right (by decide))]
      have behind (further : Nat) : originFrom cursor
          (child.1.start - cursor + (bytes.length + further)) (child.1 :: others.map (·.1)) =
            originFrom child.1.stop further (others.map (·.1)) := by
        rw [originFrom, if_neg (Nat.not_lt.mpr ahead), ← Nat.add_assoc, if_neg (by omega),
          if_neg (by omega), Nat.add_sub_cancel_left]
      rcases pieceFree.eq_or_behind standsSecond with isHere | ⟨further, isBehind, standsBehind⟩
      · -- The second placeholder is not the first one of all, because another one is before it.
        rcases pieceFree.eq_or_behind standsFirst with rfl | ⟨_, rfl, _⟩ <;> omega
      rw [pieceLength] at isBehind
      subst isBehind
      rw [behind]
      rcases pieceFree.eq_or_behind standsFirst with isHere | ⟨nearer, isBehind, standsNearer⟩
      · rw [pieceLength] at isHere
        subst isHere
        refine ⟨child, List.mem_cons_self, here, le_originFrom _ ?_⟩
        intro span member
        obtain ⟨other, isOther, rfl⟩ := List.mem_map.mp member
        exact (othersProper other isOther).1
      · rw [pieceLength] at isBehind
        subst isBehind
        obtain ⟨found, member, origin, ends⟩ :=
          inductionHypothesis othersProper (by omega) standsNearer standsBehind
        exact ⟨found, List.mem_cons_of_mem _ member, by rw [behind, origin], ends⟩

/-- The entries of a masked block come in the order in which their names stand. -/
theorem pairwise_located {masked : Masked} (legible : Legible masked.code) :
    masked.located.Pairwise fun first second => first.1 < second.1 := by
  rw [located, List.pairwise_map]
  have clauseLegible := (EntryPlace.stretch_fromClause legible).legible_extract legible
  refine (FromEntry.pairwise_located clauseLegible _).imp ?_
  intro first second before
  exact Nat.add_lt_add_left before _

end Masked

namespace DerivedLinks

open ScopeTree

variable {query : String} {outline : Outline}

/-- A derived table with all that it comes from: the entry behind it, the place of the entry in the
masked block, and the child that is written there. -/
structure ComesFrom (query : String) (outline : Outline) (number : Nat)
    (reference : TableReference) (offset : Nat) (entry : FromEntry) (child : Outline) : Prop where
  found : (maskedOf query outline).located[number]? = some (offset, entry)
  derived : entry.reference.isDerived = true
  isReference : reference = Outline.link (childrenIn query outline) (maskedOf query outline)
    (maskedOf query outline).earlier entry
  inside : child ∈ childrenIn query outline
  byPosition : (entry.ordinal.bind fun ordinal =>
    (maskedOf query outline).children[(maskedOf query outline).earlier + ordinal]?) =
      some child.index
  origin : Masked.originFrom outline.body.start offset ((replacedIn query outline).map (·.1)) =
    child.span.start

/-- Every derived table of a scope comes from some child. -/
theorem exists_comesFrom (free : Free (codeOf query)) (member : outline ∈ outlinesOf query)
    {number : Nat} {reference : TableReference}
    (listed : (scopeOf query outline).tables[number]? = some reference)
    (derived : reference.isDerived = true) :
    ∃ offset entry child, ComesFrom query outline number reference offset entry child := by
  rw [tables_scopeOf, Masked.entries_eq_map_located, List.map_map, List.getElem?_map,
    Option.map_eq_some_iff] at listed
  obtain ⟨⟨offset, entry⟩, found, rfl⟩ := listed
  have isDerived : entry.reference.isDerived = true := (kind_link _ _ _ entry).2.symm.trans derived
  obtain ⟨child, inside, byPosition, origin⟩ :=
    exists_child_of_derived free member (List.mem_of_getElem? found) isDerived
  exact ⟨offset, entry, child, found, isDerived, rfl, inside, byPosition, origin⟩

namespace ComesFrom

variable {number offset position : Nat} {reference : TableReference} {entry : FromEntry}
  {child : Outline}

/-- The child begins where the entry stands in the query. -/
theorem entryOffset?_eq (comes : ComesFrom query outline number reference offset entry child)
    (placed : (outlinesOf query)[position]? = some outline) :
    entryOffset? query position number = some (scopeOf query child).span.start := by
  rw [entryOffset?, placed, Option.bind_some, comes.found, Option.map_some, comes.origin,
    span_scopeOf]

/-- The child is one of the scopes inside. -/
theorem mem_childScopes (comes : ComesFrom query outline number reference offset entry child)
    (placed : (outlinesOf query)[position]? = some outline) :
    scopeOf query child ∈ childScopes query position := by
  rw [childScopes_eq_map placed]
  exact List.mem_map_of_mem comes.inside

/-- No other scope inside begins where the child does. -/
theorem eq_of_start (comes : ComesFrom query outline number reference offset entry child)
    (placed : (outlinesOf query)[position]? = some outline) {other : Scope}
    (isChild : other ∈ childScopes query position)
    (same : other.span.start = (scopeOf query child).span.start) : other = scopeOf query child := by
  rw [childScopes_eq_map placed] at isChild
  obtain ⟨otherOutline, inside, rfl⟩ := List.mem_map.mp isChild
  rw [eq_of_start_eq inside comes.inside same]

/-- Without an alias the table is linked to the child. -/
theorem derivedScope_eq (comes : ComesFrom query outline number reference offset entry child)
    (noAlias : reference.aliasName = none) : reference.derivedScope = some child.index := by
  obtain ⟨sameAlias, linked⟩ :=
    @link_of_derived (childrenIn query outline) _ _ _ _ comes.derived comes.byPosition
  rw [← comes.isReference] at sameAlias linked
  rw [linked, ← sameAlias, noAlias]
  rfl

/-- Children come in the order of the tables that come from them. -/
theorem before {laterNumber laterOffset : Nat} {laterReference : TableReference}
    {laterEntry : FromEntry} {laterChild : Outline} (free : Free (codeOf query))
    (member : outline ∈ outlinesOf query)
    (comes : ComesFrom query outline number reference offset entry child)
    (laterComes : ComesFrom query outline laterNumber laterReference laterOffset laterEntry laterChild)
    (isBefore : number < laterNumber) : child.span.stop ≤ laterChild.span.start := by
  have legible := legible_maskedOf member
  have offsets : offset < laterOffset := by
    have ordered := List.pairwise_iff_getElem.mp (Masked.pairwise_located legible)
    obtain ⟨within, isHere⟩ := List.getElem?_eq_some_iff.mp comes.found
    obtain ⟨laterWithin, isLater⟩ := List.getElem?_eq_some_iff.mp laterComes.found
    have lower := ordered number laterNumber within laterWithin isBefore
    rwa [isHere, isLater] at lower
  obtain ⟨stands, _⟩ := Masked.standsAt_of_mem_located legible
    (List.mem_of_getElem? comes.found) comes.derived
  obtain ⟨laterStands, _⟩ := Masked.standsAt_of_mem_located legible
    (List.mem_of_getElem? laterComes.found) laterComes.derived
  have proper : ∀ replaced ∈ replacedIn query outline,
      replaced.1.start ≤ replaced.1.stop ∧ replaced.1.start ≤ (codeOf query).length := by
    intro replaced isReplaced
    have replaceable := (exists_child_of_mem_replacedIn isReplaced).2
    exact ⟨replaceable.inOrder, replaceable.start.cut.within⟩
  obtain ⟨⟨span, index⟩, isReplaced, origin, ends⟩ :=
    Masked.exists_child_before_origin free outline.body.stop proper offsets stands laterStands
  obtain ⟨⟨found, inside, rfl, _⟩, _⟩ := exists_child_of_mem_replacedIn isReplaced
  rw [comes.origin] at origin
  rw [laterComes.origin] at ends
  rwa [eq_of_start_eq inside comes.inside origin.symm] at ends

end ComesFrom

/-- A derived table that no alias names. -/
def IsUnnamed (reference : TableReference) : Prop :=
  reference.isDerived = true ∧ reference.aliasName = none

instance (reference : TableReference) : Decidable (IsUnnamed reference) :=
  inferInstanceAs (Decidable (_ ∧ _))

/-- Every derived table without an alias is linked to the one child of its scope that begins where the
entry stands in the query. Of two such tables the one that comes first is linked to the child that
comes first, so both are linked to different ones. -/
theorem unnamed_links_by_position (query : String) (free : Free (codeOf query)) {position : Nat}
    {scope : Scope} (isScope : (extract query)[position]? = some scope) :
    (∀ number reference, scope.tables[number]? = some reference → IsUnnamed reference →
      ∃ child ∈ childScopes query position,
        entryOffset? query position number = some child.span.start ∧
        (∀ other ∈ childScopes query position,
          other.span.start = child.span.start → other = child) ∧
        reference.derivedScope = some child.index) ∧
      scope.tables.Pairwise fun first second => IsUnnamed first → IsUnnamed second →
        ∃ firstChild ∈ childScopes query position, ∃ secondChild ∈ childScopes query position,
          first.derivedScope = some firstChild.index ∧
          second.derivedScope = some secondChild.index ∧
          firstChild.span.stop ≤ secondChild.span.start := by
  obtain ⟨outline, placed, rfl⟩ := getElem?_extract isScope
  have member := List.mem_of_getElem? placed
  constructor
  · rintro number reference listed ⟨derived, noAlias⟩
    obtain ⟨offset, entry, child, comes⟩ := exists_comesFrom free member listed derived
    exact ⟨scopeOf query child, comes.mem_childScopes placed, comes.entryOffset?_eq placed,
      fun other isChild => comes.eq_of_start placed isChild, comes.derivedScope_eq noAlias⟩
  · rw [List.pairwise_iff_getElem]
    rintro first second isFirst isSecond isBefore ⟨derived, noAlias⟩ ⟨laterDerived, laterNoAlias⟩
    obtain ⟨_, _, child, comes⟩ :=
      exists_comesFrom free member (List.getElem?_eq_getElem isFirst) derived
    obtain ⟨_, _, laterChild, laterComes⟩ :=
      exists_comesFrom free member (List.getElem?_eq_getElem isSecond) laterDerived
    exact ⟨scopeOf query child, comes.mem_childScopes placed, scopeOf query laterChild,
      laterComes.mem_childScopes placed, comes.derivedScope_eq noAlias,
      laterComes.derivedScope_eq laterNoAlias, comes.before free member laterComes isBefore⟩

/-- Children that are listed in the order of their beginnings are replaced in this order. -/
theorem maskedOf_of_sorted {children : List (Span × Nat)}
    (isChildren : (childrenIn query outline).map (fun child => (child.span, child.index)) = children)
    (enclosed : ∀ child ∈ children, outline.body.encloses child.1 = true)
    (sorted : children.Pairwise fun first second => first.1.start ≤ second.1.start) :
    maskedOf query outline = (Masked.maskFrom (Bytes.ofString query) (codeOf query)
      outline.body.stop outline.body.start children).value := by
  rw [maskedOf, Masked.mask, isChildren, List.filter_eq_self.mpr enclosed,
    List.mergeSort_of_pairwise]
  simpa using sorted

/-- A query with subqueries in the select list and in the condition of a join, and with a derived
table without an alias in front of the join and another one behind it. -/
def crowdedFrom : String := "SELECT (SELECT 1) FROM (SELECT 2) JOIN t ON (SELECT 3), (SELECT 4)"

/-- The outline of its main query. -/
def crowdedOutline : Outline := Outline.main (Bytes.ofString crowdedFrom).length

/-- Its main query in masked form. -/
def crowdedMasked : Bytes := Bytes.ofString
  "SELECT (__SUBSELECT__) FROM (__SUBSELECT__) JOIN t ON (__SUBSELECT__), (__SUBSELECT__)"

theorem childrenIn_crowdedFrom :
    childrenIn crowdedFrom crowdedOutline =
      [⟨1, 1, ⟨7, 17⟩, ⟨8, 16⟩, none, some 0⟩, ⟨2, 1, ⟨23, 33⟩, ⟨24, 32⟩, none, some 0⟩,
        ⟨3, 1, ⟨44, 54⟩, ⟨45, 53⟩, none, some 0⟩, ⟨4, 1, ⟨56, 66⟩, ⟨57, 65⟩, none, some 0⟩] := by
  decide +kernel

theorem maskedOf_crowdedFrom :
    maskedOf crowdedFrom crowdedOutline = ⟨crowdedMasked, crowdedMasked, [1, 2, 3, 4]⟩ := by
  have isChildren : (childrenIn crowdedFrom crowdedOutline).map
      (fun child => (child.span, child.index)) =
        [(⟨7, 17⟩, 1), (⟨23, 33⟩, 2), (⟨44, 54⟩, 3), (⟨56, 66⟩, 4)] := by
    rw [childrenIn_crowdedFrom]
    rfl
  rw [maskedOf_of_sorted isChildren (by decide +kernel) (by decide)]
  decide +kernel

/-- Its derived tables are linked to the second subquery and to the fourth one. -/
theorem unnamed_links_by_position_crowdedFrom :
    Free (codeOf crowdedFrom) ∧ ∃ scope, (extract crowdedFrom)[0]? = some scope ∧
      scope.tables.map (fun reference => (decide (IsUnnamed reference), reference.derivedScope)) =
        [(true, some 2), (false, none), (true, some 4)] ∧
      ∀ number reference, scope.tables[number]? = some reference → IsUnnamed reference →
        ∃ child ∈ childScopes crowdedFrom 0,
          entryOffset? crowdedFrom 0 number = some child.span.start ∧
          (∀ other ∈ childScopes crowdedFrom 0,
            other.span.start = child.span.start → other = child) ∧
          reference.derivedScope = some child.index := by
  have free : Free (codeOf crowdedFrom) := by decide +kernel
  have isScope : (extract crowdedFrom)[0]? = some (scopeOf crowdedFrom crowdedOutline) := by
    rw [extract_eq_map]
    rfl
  refine ⟨free, _, isScope, ?_, (unnamed_links_by_position crowdedFrom free isScope).1⟩
  rw [tables_scopeOf, maskedOf_crowdedFrom, childrenIn_crowdedFrom]
  decide +kernel

end DerivedLinks

end QueryScope
