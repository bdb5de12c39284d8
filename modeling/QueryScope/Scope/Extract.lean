import QueryScope.Sql.CodeView
import QueryScope.Sql.Clause
import QueryScope.Sql.Masked
import QueryScope.Sql.FromEntry
import QueryScope.Sql.SelectItem
import QueryScope.Scope.Basic
import QueryScope.Scope.Subquery

/-!
# The scopes of a query

Extraction turns any text, also one that is still being typed, into its scopes. First the outline of
every scope is drawn: the main query comes first and the subqueries follow in the order of
closing; the parent of a subquery is the shortest subquery around it, or the main query. Then each
scope is taken apart with its direct subqueries masked, and the derived tables of its FROM clause
are linked to the scopes that yield their rows.
-/

namespace QueryScope

/-- A scope of which only the place in the query is known. -/
structure Outline where
  index : Nat
  level : Nat
  span : Span
  /-- What is taken apart: the contents without the blanks at their ends. -/
  body : Span
  aliasName : Option String
  parent : Option Nat
deriving DecidableEq, Repr

namespace Outline

/-- The subqueries around an offset, each with its position in the list. -/
def around (subqueries : List Subquery) (offset : Nat) : List (Subquery × Nat) :=
  subqueries.zipIdx.filter fun (subquery, _) => subquery.span.strictlyContains offset

/-- The position of the shortest of some subqueries; of two that are equally short, the first. -/
def shortest? : List (Subquery × Nat) → Option (Subquery × Nat)
  | [] => none
  | candidate :: others =>
    match shortest? others with
    | none => some candidate
    | some other =>
      if other.1.span.length < candidate.1.span.length then some other else some candidate

/-- The index of the scope directly around a subquery: that of the shortest subquery around it, or
that of the main query, which is 0. Every other scope's index is one more than its position. -/
def parentOf (subqueries : List Subquery) (subquery : Subquery) : Nat :=
  ((shortest? (around subqueries subquery.span.start)).map (·.2 + 1)).getD 0

/-- Put a subquery in front of the first one that is not longer. -/
def insertByLength (candidate : Subquery × Nat) : List (Subquery × Nat) → List (Subquery × Nat)
  | [] => [candidate]
  | next :: others =>
    if next.1.span.length ≤ candidate.1.span.length then
      candidate :: next :: others
    else
      next :: insertByLength candidate others

/-- The subqueries from the longest to the shortest, each with its position in the list; those that
are equally long stay in order. -/
def longestFirst (subqueries : List Subquery) : List (Subquery × Nat) :=
  subqueries.zipIdx.foldr insertByLength []

/-- Set the level of a subquery to one more than that of its parent. Levels are kept by index. -/
def assignLevel (subqueries : List Subquery) (levels : List Nat) (candidate : Subquery × Nat) :
    List Nat :=
  levels.set (candidate.2 + 1) (levels.getD (parentOf subqueries candidate.1) 0 + 1)

/-- The levels of all scopes, by index. A parent is longer than its children, so it has its level
before they ask for it. -/
def levels (subqueries : List Subquery) : List Nat :=
  (longestFirst subqueries).foldl (assignLevel subqueries)
    (List.replicate (subqueries.length + 1) 0)

/-- The outline of the main query. -/
def main (length : Nat) : Outline :=
  { index := 0, level := 0, span := ⟨0, length⟩, body := ⟨0, length⟩
    aliasName := none, parent := none }

/-- The outline of the subquery at a position of the list, with its level. -/
def draw (subqueries : List Subquery) (level : Nat) (subquery : Subquery) (position : Nat) :
    Outline :=
  { index := position + 1
    level
    span := subquery.span
    body := subquery.content
    aliasName := subquery.aliasName
    parent := some (parentOf subqueries subquery) }

/-- The outlines of all scopes of a query of the given length. -/
def drawAll (length : Nat) (subqueries : List Subquery) : List Outline :=
  let levels := levels subqueries
  main length :: subqueries.zipIdx.map fun candidate =>
    draw subqueries (levels.getD (candidate.2 + 1) 0) candidate.1 candidate.2

/-- The scopes directly inside the one with the given index. -/
def childrenOf (outlines : List Outline) (index : Nat) : List Outline :=
  outlines.filter (·.parent == some index)

/-- The text of a scope. The main query's is the query as it is; a subquery's is what stands
between its parentheses, trimmed. -/
def content (outline : Outline) (query : Bytes) : Checked String :=
  match outline.parent with
  | none => pure (Bytes.text query)
  | some _ => do
    let inside ← Bytes.cut query ⟨outline.span.start + 1, outline.span.stop - 1⟩
    return Text.trim (Bytes.text inside)

/-- The entry's reference, linked to the scope that yields its rows if it is a derived table: the
first of the children with the same alias, or else the child whose placeholder the entry is.
`earlier` placeholders come before the FROM clause. -/
def link (children : List Outline) (masked : Masked) (earlier : Nat) (entry : FromEntry) :
    TableReference :=
  let byAlias : Option Nat := entry.reference.aliasName.bind fun name =>
    (children.find? fun child => child.aliasName.any (Text.sameName · name)).map (·.index)
  let byPosition : Option Nat := entry.ordinal.bind fun ordinal =>
    masked.children[earlier + ordinal]?
  if entry.reference.isDerived then
    { entry.reference with derivedScope := byAlias.or byPosition }
  else
    entry.reference

/-- The scope with the given outline, taken apart. -/
def complete (query code : Bytes) (outlines : List Outline) (outline : Outline) :
    Checked Scope := do
  let children := childrenOf outlines outline.index
  let content ← outline.content query
  let masked ← Masked.mask query code outline.body
    (children.map fun child => (child.span, child.index))
  let clauses ← Clauses.ofCode masked.code
  let selectText ← Bytes.cut masked.text clauses.selectList
  let selectCode ← Bytes.cut masked.code clauses.selectList
  let fromText ← Bytes.cut masked.text clauses.fromClause
  let fromCode ← Bytes.cut masked.code clauses.fromClause
  let whereText ← Bytes.cut masked.text clauses.whereClause
  let beforeFrom ← Bytes.cut masked.code ⟨0, clauses.fromClause.start⟩
  let entries ← FromEntry.readAll fromText fromCode
  let exposedColumns ← SelectItem.columnNames selectText selectCode
  return {
    level := outline.level
    index := outline.index
    span := outline.span
    content
    aliasName := outline.aliasName
    parent := outline.parent
    selectList := Bytes.text selectText
    fromClause := Bytes.text fromText
    whereClause := Bytes.text whereText
    tables := entries.map (link children masked (Placeholder.count beforeFrom))
    exposedColumns }

end Outline

/-- The scopes of a query, with whether every read and every cut on the way was sound. -/
def extraction (query : String) : Checked (List Scope) := do
  let bytes := Bytes.ofString query
  let code := codeView bytes
  let subqueries ← Subquery.all code
  let outlines := Outline.drawAll bytes.length subqueries
  Checked.each (Outline.complete bytes code outlines) outlines

/-- The scopes of a query, the main query first. -/
def extract (query : String) : List Scope := (extraction query).value

end QueryScope
