import QueryScope.Text.Checked
import QueryScope.Sql.Word
import QueryScope.Sql.Keyword

/-!
# Clauses of a SELECT block

A SELECT block is taken apart into its select list, its FROM clause and its WHERE clause. Each
clause runs up to the first keyword at top level that can end it, and that keyword may open the
next one. A statement without `SELECT` can still have a FROM clause and a WHERE clause.
-/

namespace QueryScope

/-- The clauses that matter to the visibility of names. -/
inductive Clause where
  | selectList
  | fromClause
  | whereClause
deriving DecidableEq, Repr

namespace Clause

/-- A keyword that ends a clause, and the clause that it opens, if it opens one. -/
structure Terminator where
  keyword : Keyword
  opens : Option Clause
deriving Repr

/-- The keyword that opens the FROM clause. -/
def fromTerminator : Terminator := ⟨Keyword.ofString "FROM", some fromClause⟩

/-- The keyword that opens the WHERE clause. -/
def whereTerminator : Terminator := ⟨Keyword.ofString "WHERE", some whereClause⟩

/-- The keywords behind the WHERE clause that any of the three clauses ends at. -/
def laterTerminators : List Terminator :=
  ["GROUP BY", "ORDER BY", "HAVING", "UNION", "INTERSECT", "EXCEPT", "FETCH", "LIMIT", "OFFSET",
    "FOR"].map fun text => ⟨Keyword.ofString text, none⟩

/-- The mark that ends a statement. -/
def endOfStatement : Terminator := ⟨Keyword.ofString ";", none⟩

/-- The keyword that opens an isolation clause, which ends a FROM clause or a WHERE clause. -/
def isolation : Terminator := ⟨Keyword.ofString "WITH", none⟩

/-- The terminators of each clause, in the order in which they are tried. -/
def terminators : Clause → List Terminator
  | selectList => fromTerminator :: whereTerminator :: laterTerminators ++ [endOfStatement]
  | fromClause => whereTerminator :: laterTerminators ++ [isolation, endOfStatement]
  | whereClause => laterTerminators ++ [isolation, endOfStatement]

/-- A clause that a keyword opens, and the offset just behind the keyword. -/
structure Opening where
  clause : Clause
  offset : Nat
deriving DecidableEq, Repr

/-- The clause that the terminator at a hit opens. -/
def Opening.ofHit? (terminators : List Terminator) (hit : Keyword.Hit) : Option Opening :=
  (terminators[hit.index]?).bind fun terminator =>
    terminator.opens.map fun clause => ⟨clause, hit.span.stop⟩

/-- Search for the first terminator of a list at top level, at or after `offset`. -/
def search (code : Bytes) (offset : Nat) (terminators : List Terminator) :
    Checked (Option Keyword.Hit) :=
  Keyword.search code offset (terminators.map (·.keyword))

/-- The first terminator of a list at top level, at or after `offset`. -/
def find? (code : Bytes) (offset : Nat) (terminators : List Terminator) : Option Keyword.Hit :=
  (search code offset terminators).value

@[simp] theorem value_search (code : Bytes) (offset : Nat) (terminators : List Terminator) :
    (search code offset terminators).value = find? code offset terminators := by rw [find?]

/-- Terminators are found as their keywords are. -/
theorem find?_eq (code : Bytes) (offset : Nat) (terminators : List Terminator) :
    find? code offset terminators = Keyword.find? code offset (terminators.map (·.keyword)) := rfl

/-- The clause that begins at `offset`: where it stands without the blanks at its ends, and what the
terminator behind it opens. -/
def read (clause : Clause) (code : Bytes) (offset : Nat) : Checked (Span × Option Opening) := do
  let hit ← search code offset clause.terminators
  let span ← Bytes.trim code ⟨offset, (hit.map (·.span.start)).getD code.length⟩
  return (span, hit.bind (Opening.ofHit? clause.terminators))

/-- A clause ends in front of the first terminator, or at the end. -/
theorem value_read (clause : Clause) (code : Bytes) (offset : Nat) :
    (clause.read code offset).value =
      ((Bytes.trim code ⟨offset, ((find? code offset clause.terminators).map
        (·.span.start)).getD code.length⟩).value,
      (find? code offset clause.terminators).bind (Opening.ofHit? clause.terminators)) := by
  rw [read, Checked.value_bind, Checked.value_bind, value_search]
  rfl

/-- The clause if the opening is its own; otherwise it is absent, and the opening is left for the
next one. -/
def readOpened (clause : Clause) (code : Bytes) (opening : Option Opening) :
    Checked (Span × Option Opening) :=
  match opening with
  | none => pure (Span.absent, none)
  | some opening =>
    if opening.clause = clause then clause.read code opening.offset
    else pure (Span.absent, some opening)

end Clause

/-- Where the clauses of a SELECT block stand. A clause that is absent is the empty span at the
beginning. -/
structure Clauses where
  selectList : Span
  fromClause : Span
  whereClause : Span
deriving DecidableEq, Repr

namespace Clauses

/-- Whether the word that follows `SELECT` only says whether rows may repeat. -/
def isQuantifier (word : Word) : Bool := word.is "DISTINCT" || word.is "ALL"

/-- The offset behind the word that comes at `offset`, if it is a quantifier. -/
def behindQuantifier (offset : Nat) (word : Option Word) : Nat :=
  match word.filter isQuantifier with
  | some quantifier => quantifier.span.stop
  | none => offset

/-- Search for the offset just behind `SELECT`, and behind the quantifier that may follow it. -/
def searchSelectList (code : Bytes) : Checked (Option Nat) := do
  match ← Keyword.search code 0 [Keyword.ofString "SELECT"] with
  | none => return none
  | some hit =>
    let word ← Word.scan code hit.span.stop
    return some (behindQuantifier hit.span.stop word)

/-- The offset at which the select list begins. -/
def selectListOffset? (code : Bytes) : Option Nat := (searchSelectList code).value

@[simp] theorem value_searchSelectList (code : Bytes) :
    (searchSelectList code).value = selectListOffset? code := by rw [selectListOffset?]

/-- The select list begins behind the first `SELECT` and the quantifier there. -/
theorem selectListOffset?_eq (code : Bytes) :
    selectListOffset? code = (Keyword.find? code 0 [Keyword.ofString "SELECT"]).map fun hit =>
      behindQuantifier hit.span.stop (Word.next? code hit.span.stop) := by
  rw [selectListOffset?, searchSelectList, Checked.value_bind, Keyword.value_search]
  cases Keyword.find? code 0 [Keyword.ofString "SELECT"] with
  | none => rfl
  | some hit => rfl

/-- The select list, and what the terminator behind it opens. Without `SELECT` there is no list, and
the first keyword tells which clause is opened. -/
def readSelectList (code : Bytes) : Checked (Span × Option Clause.Opening) := do
  match ← searchSelectList code with
  | some offset => Clause.selectList.read code offset
  | none =>
    let leading := [Clause.fromTerminator, Clause.whereTerminator]
    let hit ← Clause.search code 0 leading
    return (Span.absent, hit.bind (Clause.Opening.ofHit? leading))

/-- The clauses of a SELECT block, given by its code. -/
def ofCode (code : Bytes) : Checked Clauses := do
  let (selectList, afterSelect) ← readSelectList code
  let (fromClause, afterFrom) ← Clause.fromClause.readOpened code afterSelect
  let (whereClause, _) ← Clause.whereClause.readOpened code afterFrom
  return ⟨selectList, fromClause, whereClause⟩

end Clauses

end QueryScope
