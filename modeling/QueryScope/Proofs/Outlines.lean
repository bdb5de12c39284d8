import Mathlib.Data.List.Basic
import QueryScope.Scope.Extract

/-!
# Scopes and their outlines

Extraction draws the outlines of all scopes and then takes each one apart. What an outline says
about a scope is kept, so every fact about the places of scopes in a query is a fact about
outlines. This module also names the subqueries and outlines of a query.
-/

namespace QueryScope

namespace Masked

/-- Where the clauses of a masked block stand. -/
def clauses (masked : Masked) : Clauses := (Clauses.ofCode masked.code).value

/-- The text of a part of a masked block. -/
def textAt (masked : Masked) (span : Span) : Bytes := masked.text.extract span.start span.stop

/-- The code of a part of a masked block. -/
def codeAt (masked : Masked) (span : Span) : Bytes := masked.code.extract span.start span.stop

/-- The entries of a masked block's FROM clause, not linked yet. -/
def entries (masked : Masked) : List FromEntry :=
  (FromEntry.readAll (masked.textAt masked.clauses.fromClause)
    (masked.codeAt masked.clauses.fromClause)).value

/-- The columns that a masked block's select list names. -/
def columns (masked : Masked) : List String :=
  (SelectItem.columnNames (masked.textAt masked.clauses.selectList)
    (masked.codeAt masked.clauses.selectList)).value

/-- The number of placeholders in front of a masked block's FROM clause. -/
def earlier (masked : Masked) : Nat :=
  Placeholder.count (masked.code.extract 0 masked.clauses.fromClause.start)

end Masked

/-- The scope of an outline, given its content, its children and its masked block. -/
def Outline.assemble (outline : Outline) (content : String) (children : List Outline)
    (masked : Masked) : Scope where
  level := outline.level
  index := outline.index
  span := outline.span
  content := content
  aliasName := outline.aliasName
  parent := outline.parent
  selectList := Bytes.text (masked.textAt masked.clauses.selectList)
  fromClause := Bytes.text (masked.textAt masked.clauses.fromClause)
  whereClause := Bytes.text (masked.textAt masked.clauses.whereClause)
  tables := masked.entries.map (Outline.link children masked masked.earlier)
  exposedColumns := (SelectItem.columnNames (masked.textAt masked.clauses.selectList)
    (masked.codeAt masked.clauses.selectList)).value

/-- The content of a subquery's scope is what its parentheses enclose, trimmed. -/
theorem Outline.value_content {outline : Outline} {parent : Nat}
    (isInside : outline.parent = some parent) (bytes : Bytes) :
    (outline.content bytes).value = Text.trim (Bytes.text
      (bytes.extract (outline.span.start + 1) (outline.span.stop - 1))) := by
  rw [Outline.content, isInside]
  rfl

/-- The code view of a query given as a text. -/
def codeOf (query : String) : Bytes := codeView (Bytes.ofString query)

/-- The subqueries of a query, in the order of closing. -/
def subqueriesOf (query : String) : List Subquery := (Subquery.all (codeOf query)).value

namespace Outline

/-- The outline of the subquery at a position of the list, when its level counts the scopes around
it. -/
def ofSubquery (subqueries : List Subquery) (subquery : Subquery) (position : Nat) : Outline :=
  { index := position + 1
    level := (around subqueries subquery.span.start).length + 1
    span := subquery.span
    body := subquery.content
    aliasName := subquery.aliasName
    parent := some (parentOf subqueries subquery) }

/-- The outlines of all scopes, with levels that count the scopes around. -/
def all (length : Nat) (subqueries : List Subquery) : List Outline :=
  main length :: subqueries.zipIdx.map fun candidate =>
    ofSubquery subqueries candidate.1 candidate.2

end Outline

/-- The outlines of a query's scopes. -/
def outlinesOf (query : String) : List Outline :=
  Outline.all (Bytes.ofString query).length (subqueriesOf query)

/-- Every outline is that of the main query or of a subquery. -/
theorem main_or_subquery_of_mem {query : String} {outline : Outline}
    (member : outline ∈ outlinesOf query) :
    outline = Outline.main (Bytes.ofString query).length ∨
      ∃ subquery ∈ subqueriesOf query, ∃ position,
        outline = Outline.ofSubquery (subqueriesOf query) subquery position := by
  rw [outlinesOf, Outline.all, List.mem_cons] at member
  rcases member with isMain | isSubquery
  · exact .inl isMain
  · obtain ⟨⟨subquery, position⟩, placed, same⟩ := List.mem_map.mp isSubquery
    exact .inr ⟨subquery, List.fst_mem_of_mem_zipIdx placed, position, same.symm⟩

/-- The scope that an outline of a query becomes. -/
def scopeOf (query : String) (outline : Outline) : Scope :=
  (Outline.complete (Bytes.ofString query) (codeOf query) (outlinesOf query) outline).value

@[simp] theorem index_scopeOf (query : String) (outline : Outline) :
    (scopeOf query outline).index = outline.index := rfl

@[simp] theorem level_scopeOf (query : String) (outline : Outline) :
    (scopeOf query outline).level = outline.level := rfl

@[simp] theorem span_scopeOf (query : String) (outline : Outline) :
    (scopeOf query outline).span = outline.span := rfl

@[simp] theorem aliasName_scopeOf (query : String) (outline : Outline) :
    (scopeOf query outline).aliasName = outline.aliasName := rfl

@[simp] theorem parent_scopeOf (query : String) (outline : Outline) :
    (scopeOf query outline).parent = outline.parent := rfl

/-- The scopes directly inside the one that an outline belongs to. -/
def childrenIn (query : String) (outline : Outline) : List Outline :=
  Outline.childrenOf (outlinesOf query) outline.index

/-- The block of an outline with its direct subqueries replaced. -/
def maskedOf (query : String) (outline : Outline) : Masked :=
  (Masked.mask (Bytes.ofString query) (codeOf query) outline.body
    ((childrenIn query outline).map fun child => (child.span, child.index))).value

/-- A scope depends on its query only through its content, its children and its masked block. -/
theorem scopeOf_eq_assemble (query : String) (outline : Outline) :
    scopeOf query outline = outline.assemble (outline.content (Bytes.ofString query)).value
      (childrenIn query outline) (maskedOf query outline) := rfl

/-- The tables of a scope are the linked entries of its masked block. -/
theorem tables_scopeOf (query : String) (outline : Outline) :
    (scopeOf query outline).tables = (maskedOf query outline).entries.map
      (Outline.link (childrenIn query outline) (maskedOf query outline)
        (maskedOf query outline).earlier) := by
  rw [scopeOf_eq_assemble]
  rfl

/-- The columns of a scope are those of its masked block. -/
theorem exposedColumns_scopeOf (query : String) (outline : Outline) :
    (scopeOf query outline).exposedColumns = (maskedOf query outline).columns := by
  rw [scopeOf_eq_assemble]
  rfl

/-- The spans of the scopes are that of the main query and those of the subqueries. -/
theorem spans_extract (query : String) :
    (extract query).map (·.span) =
      ⟨0, (Bytes.ofString query).length⟩ :: (subqueriesOf query).map (·.span) := by
  simp only [extract, extraction, Checked.value_bind, Checked.value_each, Outline.drawAll,
    List.map_cons, List.map_map]
  conv_rhs => rw [← List.zipIdx_map_fst 0 (subqueriesOf query), List.map_map]
  rfl

end QueryScope
