import QueryScope.Text.Checked
import QueryScope.Sql.Word
import QueryScope.Sql.Keyword
import QueryScope.Sql.Identifier
import QueryScope.Sql.Placeholder
import QueryScope.Scope.TableReference

/-!
# Entries of a FROM clause

The entries of a FROM clause are separated by commas and by `JOIN`, both at top level. An entry is
a table, given by a path, or a placeholder, and may be followed by an alias. The words that say
what kind of join comes next, the condition of a join and a leading `LATERAL` do not belong to
the entry. What cannot be read as an entry is passed over.
-/

namespace QueryScope

/-- An entry of a FROM clause as it was read. -/
structure FromEntry where
  reference : TableReference
  /-- For a derived table, the number of placeholders before it in the clause. -/
  ordinal : Option Nat
deriving DecidableEq, Repr

namespace FromEntry

/-- The keyword that begins another entry. -/
def join : Keyword := Keyword.ofString "JOIN"

/-- The keywords that begin a join's condition. -/
def conditions : List Keyword := [Keyword.ofString "ON", Keyword.ofString "USING"]

/-- A join takes up space, so the search for the next one always moves on. -/
theorem takesSpace_join : Keyword.TakesSpace [join] := by
  intro keyword member
  rw [List.mem_singleton] at member
  subst member
  decide

/-- Search for the joins from `start` on; the result is what lies between them. -/
def searchJoins (code : Bytes) (start : Nat) : Checked (List Span) :=
  (Keyword.search code start [join]).andThen fun found _isFound =>
    match found with
    | none => pure [⟨start, code.length⟩]
    | some hit => do
      let others ← searchJoins code hit.span.stop
      return ⟨start, hit.span.start⟩ :: others
termination_by code.length - start
decreasing_by
  have bounds := Keyword.span_of_find?_eq_some takesSpace_join _isFound.symm
  omega

/-- The pieces of the code from `start` on that lie between joins. -/
def betweenJoins (code : Bytes) (start : Nat) : List Span := (searchJoins code start).value

@[simp] theorem value_searchJoins (code : Bytes) (start : Nat) :
    (searchJoins code start).value = betweenJoins code start := by rw [betweenJoins]

/-- Where the entries of a FROM clause stand, blanks and conditions included. -/
def spans (code : Bytes) : Checked (List Span) := do
  let parts ← Checked.each (fun (part : Span) => do
    let upToEnd ← Bytes.cut code ⟨0, part.stop⟩
    searchJoins upToEnd part.start) (TopLevel.split code Byte.comma)
  return parts.flatten

/-- The offset of the last blank. -/
def lastBlank? : Bytes → Option Nat
  | [] => none
  | byte :: rest =>
    match lastBlank? rest with
    | some offset => some (offset + 1)
    | none => if Byte.isBlank byte then some 0 else none

/-- The last blank is one of the bytes. -/
theorem lastBlank?_lt {entry : Bytes} {offset : Nat} (isLast : lastBlank? entry = some offset) :
    offset < entry.length := by
  induction entry generalizing offset with
  | nil => cases isLast
  | cons byte rest inductionHypothesis =>
    rw [lastBlank?] at isLast
    split at isLast
    · rename_i later
      cases isLast
      exact Nat.succ_lt_succ (inductionHypothesis later)
    · rw [Option.ite_none_right_eq_some] at isLast
      cases isLast.2
      exact Nat.zero_lt_succ _

/-- Where an entry stands without the words at its end that say what kind of join comes next, or
nothing when it is such a word itself. -/
def dropModifiers (code : Bytes) (span : Span) : Checked (Option Span) :=
  (Bytes.cut code span).andThen fun entry _isEntry =>
    match _isLast : lastBlank? entry with
    | none => pure (if Word.isJoinModifier entry then none else some span)
    | some offset =>
      if Word.isJoinModifier (entry.drop (offset + 1)) then
        (Bytes.trim code ⟨span.start, span.start + offset⟩).andThen fun shorter _isShorter =>
          dropModifiers code shorter
      else
        pure (some span)
termination_by span.length
decreasing_by
  have before := lastBlank?_lt _isLast
  have taken : entry.length ≤ span.stop - span.start := by
    rw [_isEntry, Bytes.cut, List.extract_eq_take_drop]
    exact List.length_take_le _ _
  have inside := Bytes.trim_inside code ⟨span.start, span.start + offset⟩
  rw [_isShorter, Span.length, Span.length]
  simp only at inside
  omega

/-- The parts of an entry. -/
structure Shape where
  /-- Where the path in front of the name stands, when there is one. -/
  qualifier : Option Span
  /-- The name of the table, or the placeholder. -/
  name : Fragment
  /-- The identifier in the place of an alias. -/
  aliasName : Option Fragment
deriving DecidableEq, Repr

/-- The alias that the characters behind a name begin with; they stand at `offset`. After blanks
comes `AS` and an identifier, or else an identifier alone. -/
def readAlias? (offset : Nat) (characters : List Char) : Option Fragment :=
  if characters.head?.any Text.isBlank then
    let ahead := characters.dropWhile Text.isBlank
    let named (rest : List Char) : Option Fragment :=
      (Identifier.read? .folded rest).map fun (name, _) =>
        ⟨offset + (Bytes.width characters - Bytes.width rest), name⟩
    ((Identifier.afterAs? ahead).bind named).or (named ahead)
  else
    none

/-- The span from the first to the last of some fragments. -/
def cover (fragments : List Fragment) : Option Span :=
  match fragments.head?, fragments.getLast? with
  | some first, some last => some ⟨first.offset, last.stop⟩
  | _, _ => none

/-- The parts of the entry that the characters begin with. A placeholder behind a path and a dot
is the entry's name, and then the whole path is its qualifier; otherwise the name is the last
identifier of the path. -/
def Shape.read? (characters : List Char) : Option Shape :=
  let (path, rest) := Identifier.readPath .folded 0 characters
  let beforePlaceholder := if path.isEmpty then some rest else Identifier.afterDot? rest
  match beforePlaceholder.bind fun ahead => (Placeholder.read? ahead).map (ahead, ·) with
  | some (ahead, placeholder, after) =>
    let name : Fragment := ⟨Bytes.width characters - Bytes.width ahead, placeholder⟩
    some ⟨cover path, name, readAlias? name.stop after⟩
  | none =>
    path.getLast?.map fun name => ⟨cover path.dropLast, name, readAlias? name.stop rest⟩

/-- The name that a qualifier stands for: its identifiers, unquoted and joined by dots. The dots
are looked for in the code, because a quoted identifier may contain one. -/
def readQualifier (text code : Bytes) : Checked String := do
  let parts ← Checked.each (Bytes.cut text) (TopLevel.split code Byte.dot)
  return String.intercalate "."
    (parts.map fun part => Identifier.unquote (Text.trim (Bytes.text part)))

/-- The reference that an entry of the given shape makes. The entry's text and code are given, and
`before` is the code of the clause in front of the entry. A reserved word is neither an alias nor
the name of a table, unless it is quoted. -/
def ofShape (text code before : Bytes) (shape : Shape) : Checked (Option FromEntry) := do
  let allowed (fragment : Fragment) : Bool := fragment.isQuoted || !Word.isReserved fragment.text
  let named (fragment : Fragment) : Checked String := do
    let identifier ← Bytes.cut text fragment.span
    return Identifier.unquote (Bytes.text identifier)
  let aliasName ← match shape.aliasName.filter allowed with
    | some fragment => some <$> named fragment
    | none => pure none
  if Text.sameName shape.name.text Placeholder.text then
    return some ⟨{ TableReference.derived with aliasName }, some (Placeholder.count before)⟩
  else if !allowed shape.name then
    return none
  else
    let name ← named shape.name
    let schema ← match shape.qualifier with
      | some span => do
        let qualifierText ← Bytes.cut text span
        let qualifierCode ← Bytes.cut code span
        some <$> readQualifier qualifierText qualifierCode
      | none => pure none
    return some ⟨{ TableReference.table name with schema, aliasName }, none⟩

/-- Where an entry stands without a leading `LATERAL` and the blanks behind it. -/
def dropLateral (code : Bytes) (table : Span) : Checked Span := do
  let word ← Word.scan code table.start
  if word.any (·.is "LATERAL") then
    Bytes.trim code ⟨table.start + "LATERAL".length, table.stop⟩
  else
    return table

/-- Where the entry proper stands in the given span of a FROM clause: without the condition, the
words that say what kind of join follows, a leading `LATERAL` and the blanks at the ends. -/
def locate (code : Bytes) (span : Span) : Checked (Option Span) := do
  let upToEnd ← Bytes.cut code ⟨0, span.stop⟩
  let condition ← Keyword.search upToEnd span.start conditions
  let whole ← Bytes.trim code ⟨span.start, (condition.map (·.span.start)).getD span.stop⟩
  match ← dropModifiers code whole with
  | none => return none
  | some table =>
    let entry ← dropLateral code table
    return if entry.isEmpty then none else some entry

/-- The entry that stands in the given span of a FROM clause, if there is one. -/
def readAt (text code : Bytes) (span : Span) : Checked (Option FromEntry) := do
  match ← locate code span with
  | none => return none
  | some entry =>
    let entryCode ← Bytes.cut code entry
    let entryText ← Bytes.cut text entry
    match Shape.read? (Bytes.decode entryCode) with
    | none => return none
    | some shape =>
      let before ← Bytes.cut code ⟨0, entry.start⟩
      ofShape entryText entryCode before shape

/-- The entries of a FROM clause, given by its text and its code. -/
def readAll (text code : Bytes) : Checked (List FromEntry) := do
  let places ← spans code
  Checked.eachSome (readAt text code) places

end FromEntry

end QueryScope
