import Mathlib.Data.List.Forall2
import QueryScope.Proofs.DerivedLinks
import QueryScope.Proofs.SchemaParts
import QueryScope.Proofs.SelectLists

/-!
# Comments and literals do not matter, except around the dots of a schema

Two queries with the same code view differ only in what the view blanks out: comments and the
contents of quotes. If the code has no double quotes, extraction finds the same scopes in both, at
the same places, with the same aliases, parents, tables and columns. There is one exception. The
schema in front of a table's name is cut out of the text as a whole, and only the blanks around its
dots are taken off. A comment next to a dot inside a schema of several parts stays in the schema. So
schemas may differ, but only those of several parts, and only if somewhere in the code a blank
stands next to a dot. Even then they have the same names in the same order, one in each part.
-/

namespace QueryScope.Noninterference

open EntryShape BareName Bytes Quotes

/-- Two schemas of several parts that have the same bare names in them, in the same order. -/
def SameNames (left right : Option String) : Prop :=
  ∃ names first second, 2 ≤ names.length ∧ left = some first ∧ right = some second ∧
    SchemaParts.HasNames names first ∧ SchemaParts.HasNames names second

/-- Two references that agree. If dots may be set apart, schemas of several parts agree only in their
names. -/
structure SameReference (setApart : Prop) (left right : TableReference) : Prop where
  tableName : left.tableName = right.tableName
  aliasName : left.aliasName = right.aliasName
  isDerived : left.isDerived = right.isDerived
  derivedScope : left.derivedScope = right.derivedScope
  schema : left.schema = right.schema ∨ (setApart ∧ SameNames left.schema right.schema)

/-- Where no dot is set apart, the references are the same. -/
theorem SameReference.eq {setApart : Prop} {left right : TableReference}
    (same : SameReference setApart left right) (together : ¬ setApart) : left = right := by
  obtain ⟨tableName, aliasName, isDerived, derivedScope, schema⟩ := same
  have sameSchema : left.schema = right.schema := by
    rcases schema with equal | ⟨apart, _⟩
    · exact equal
    · exact absurd apart together
  cases left
  cases right
  simp only at tableName aliasName isDerived derivedScope sameSchema
  rw [tableName, aliasName, isDerived, derivedScope, sameSchema]

/-- The text of some code: the code shows it, and it stands somewhere in a text. -/
structure TextOf (code text : Bytes) : Prop where
  shows : Shows code text
  inText : InText text

/-- A piece of the text is the text of the same piece of the code. -/
theorem TextOf.extract {code text : Bytes} (textOf : TextOf code text) (start stop : Nat) :
    TextOf (code.extract start stop) (text.extract start stop) :=
  ⟨textOf.shows.extract start stop, textOf.inText.extract start stop⟩

variable {left right : Bytes}

/-- The schemas that a qualifier makes of two texts with the same code are the same, unless they have
several parts and a dot is set apart. -/
theorem readQualifier_eq_or_sameNames {path : List Fragment} {used : List Char}
    (spelled : Spelled .folded 0 path used) (leftText : TextOf (encoded used) left)
    (rightText : TextOf (encoded used) right) :
    (FromEntry.readQualifier left (encoded used)).value =
        (FromEntry.readQualifier right (encoded used)).value ∨
      (¬ CloseDots used ∧ SameNames (some (FromEntry.readQualifier left (encoded used)).value)
        (some (FromEntry.readQualifier right (encoded used)).value)) := by
  have sameText (plain : ∀ character ∈ used, isPlain character = true) : left = right := by
    have genuine := isGenuine_of_mem_encoded plain
    rw [leftText.shows.eq_of_genuine genuine, rightText.shows.eq_of_genuine genuine]
  by_cases close : CloseDots used
  · left
    rw [sameText (spelled.plain_of_closeDots close)]
  · rcases spelled.plain_or_several with plain | several
    · left
      rw [sameText plain]
    · right
      have something : path ≠ [] := by
        rintro rfl
        cases several
      refine ⟨close, path.map (·.characters), _, _, ?_, rfl, rfl, ?_, ?_⟩
      · rwa [List.length_map]
      · exact SchemaParts.hasNames_readQualifier spelled something leftText.inText leftText.shows
      · exact SchemaParts.hasNames_readQualifier spelled something rightText.inText rightText.shows

/-- Two entries that agree in the same sense as their references. -/
structure SameEntry (setApart : Prop) (left right : FromEntry) : Prop where
  reference : SameReference setApart left.reference right.reference
  ordinal : left.ordinal = right.ordinal

variable {setApart : Prop}

/-- The entries that a shape makes of two texts with the same code. -/
theorem sameEntry_ofShape {characters : List Char} {shape : FromEntry.Shape}
    (shaped : ReadShape characters shape) (either : CloseDots characters ∨ setApart)
    (leftText : TextOf (encoded characters) left) (rightText : TextOf (encoded characters) right)
    (before : Bytes) :
    Option.Rel (SameEntry setApart)
      (FromEntry.ofShape left (encoded characters) before shape).value
      (FromEntry.ofShape right (encoded characters) before shape).value := by
  have sameName {fragment : Fragment} (stands : Stands 0 characters fragment) :
      FromEntry.nameOf left fragment = FromEntry.nameOf right fragment := by
    rw [FromEntry.nameOf, FromEntry.nameOf, stands.extract_eq leftText.shows,
      stands.extract_eq rightText.shows]
  have sameAlias : (shape.aliasName.filter FromEntry.mayBeName).map (FromEntry.nameOf left) =
      (shape.aliasName.filter FromEntry.mayBeName).map (FromEntry.nameOf right) := by
    cases accepted : shape.aliasName.filter FromEntry.mayBeName with
    | none => rfl
    | some fragment =>
      have isAlias := Option.eq_some_of_filter_eq_some accepted
      rw [Option.map_some, Option.map_some, sameName (shaped.aliasName fragment isAlias)]
  rw [FromEntry.value_ofShape, FromEntry.value_ofShape, sameAlias, FromEntry.made?, FromEntry.made?]
  split
  · exact .some ⟨⟨rfl, rfl, rfl, rfl, .inl rfl⟩, rfl⟩
  · split
    · rw [sameName shaped.name]
      refine .some ⟨⟨rfl, rfl, rfl, rfl, ?_⟩, rfl⟩
      cases qualified : shape.qualifier with
      | none => exact .inl rfl
      | some span =>
        obtain ⟨path, used, behind, rfl, spelled, rfl⟩ := shaped.qualifier span qualified
        have piece : (encoded (used ++ behind)).extract 0 (Bytes.width used) = encoded used := by
          rw [Window.extract_zero, encoded, List.flatMap_append, ← length_encoded, List.take_left]
        have leftPiece := leftText.extract 0 (Bytes.width used)
        have rightPiece := rightText.extract 0 (Bytes.width used)
        rw [piece] at leftPiece rightPiece
        simp only [Option.map_some, piece]
        rcases readQualifier_eq_or_sameNames spelled leftPiece rightPiece with
          same | ⟨notClose, sameNames⟩
        · exact .inl (congrArg some same)
        · refine .inr ⟨?_, sameNames⟩
          rcases either with close | apart
          · exact absurd (close.piece (List.prefix_append used behind).isInfix) notClose
          · exact apart
    · exact .none

/-- The entries of a FROM clause are found alike in two texts with the same code. -/
theorem sameEntries_readAll {code : Bytes} (legible : Legible code)
    (noQuote : Byte.doubleQuote ∉ code) (either : CloseDots (decode code) ∨ setApart)
    (leftText : TextOf code left) (rightText : TextOf code right) :
    List.Forall₂ (SameEntry setApart) (FromEntry.readAll left code).value
      (FromEntry.readAll right code).value := by
  rw [FromEntry.value_readAll_eq_filterMap, FromEntry.value_readAll_eq_filterMap]
  have alike : List.Forall₂ (fun first second => first = second ∧
      first ∈ (FromEntry.spans code).value) (FromEntry.spans code).value
        (FromEntry.spans code).value := List.forall₂_same.mpr fun _ member => ⟨rfl, member⟩
  refine List.rel_filterMap ?_ alike
  rintro span _ ⟨rfl, member⟩
  dsimp only
  cases found : FromEntry.place? code span with
  | none => exact .none
  | some place =>
    have stretch := EntryPlace.stretch_place legible
      (EntryPlace.stretch_spans legible span member) found
    have spells := stretch.cutOut.isText
    have isCode := EntryPlace.encoded_decode spells
    have noQuoteHere : '"' ∉ decode (code.extract place.start place.stop) := by
      apply SelectList.quote_not_mem_decode spells
      exact SelectList.quote_not_mem_extract noQuote _ _
    have eitherHere : CloseDots (decode (code.extract place.start place.stop)) ∨ setApart := by
      rcases either with close | apart
      · exact .inl (close.piece stretch.cutOut.isInfix_decode)
      · exact .inr apart
    have leftPiece := leftText.extract place.start place.stop
    have rightPiece := rightText.extract place.start place.stop
    simp only [Option.bind_some, FromEntry.entryAt?, FromEntry.shapeAt?]
    cases shaped : FromEntry.Shape.read? (decode (code.extract place.start place.stop)) with
    | none => exact .none
    | some shape =>
      rw [← isCode] at leftPiece rightPiece
      have same := sameEntry_ofShape (readShape_of_read? noQuoteHere shaped) eitherHere leftPiece
        rightPiece (code.extract 0 place.start)
      rwa [isCode] at same

/-- Linking leaves references alike: it looks only at what they agree in. -/
theorem sameReference_link {first second : FromEntry} (same : SameEntry setApart first second)
    (children : List Outline) (masked : Masked) (text : Bytes) (earlier : Nat) :
    SameReference setApart (Outline.link children masked earlier first)
      (Outline.link children { masked with text } earlier second) := by
  obtain ⟨⟨tableName, aliasName, isDerived, derivedScope, schema⟩, ordinal⟩ := same
  simp only [Outline.link, aliasName, isDerived, ordinal]
  split
  · exact ⟨tableName, rfl, rfl, rfl, schema⟩
  · exact ⟨tableName, aliasName, isDerived, derivedScope, schema⟩

/-- What is masked consists of bytes of the code and of placeholders. -/
theorem mem_or_mem_of_mem_maskFrom {text code : Bytes} {stop cursor : Nat}
    {children : List (Span × Nat)} {byte : UInt8}
    (member : byte ∈ (Masked.maskFrom text code stop cursor children).value.code) :
    byte ∈ code ∨ byte ∈ Placeholder.bytes := by
  have ofPiece {start limit : Nat} (inside : byte ∈ code.extract start limit) : byte ∈ code :=
    List.mem_of_mem_drop (List.mem_of_mem_take inside)
  induction children generalizing cursor with
  | nil => exact .inl (ofPiece member)
  | cons child others inductionHypothesis =>
    rcases Nat.lt_or_ge child.1.start cursor with overlaps | ahead
    · rw [Masked.maskFrom_cons_of_lt text code stop cursor others overlaps] at member
      exact inductionHypothesis member
    · rw [Masked.value_maskFrom_cons text code stop cursor others ahead] at member
      simp only [List.mem_append] at member
      rcases member with (inside | placeholder) | further
      · exact .inl (ofPiece inside)
      · exact .inr placeholder
      · exact inductionHypothesis further

/-- Masking sets no dot apart: neither end of a placeholder is blank. -/
theorem closeDots_maskFrom {text code : Bytes}
    (close : CloseDots (decode code)) {stop cursor : Nat} (begins : Seam code cursor)
    (ends : CutAt code stop) (inOrder : cursor ≤ stop) {children : List (Span × Nat)}
    (replaceable : ∀ child ∈ children, Masked.Replaceable code stop child.1) :
    CloseDots (decode (Masked.maskFrom text code stop cursor children).value.code) := by
  have ofPiece {start limit : Nat} (first : CutAt code start) (second : CutAt code limit)
      (ordered : start ≤ limit) : CloseDots (decode (code.extract start limit)) := by
    have cutOut : CutOut code ⟨start, limit⟩ := ⟨first, second, ordered⟩
    exact close.piece cutOut.isInfix_decode
  induction children generalizing cursor with
  | nil => exact ofPiece begins.cut ends inOrder
  | cons child others inductionHypothesis =>
    have othersReplaceable : ∀ other ∈ others, Masked.Replaceable code stop other.1 :=
      fun other member => replaceable other (List.mem_cons_of_mem _ member)
    rcases Nat.lt_or_ge child.1.start cursor with overlaps | ahead
    · rw [Masked.maskFrom_cons_of_lt text code stop cursor others overlaps]
      exact inductionHypothesis begins inOrder othersReplaceable
    · rw [Masked.value_maskFrom_cons text code stop cursor others ahead]
      have replaced := replaceable child List.mem_cons_self
      have spells := begins.cut.isText_extract replaced.start.cut ahead
      have behind := inductionHypothesis replaced.stop replaced.within othersReplaceable
      have placeholder : decode Placeholder.bytes = Placeholder.text.toList :=
        decode_ofString Placeholder.text
      have together : CloseDots Placeholder.text.toList := by decide +kernel
      have spellsPlaceholder : IsText Placeholder.bytes := ⟨_, rfl⟩
      simp only [List.append_assoc]
      rw [spells.decode_append, spellsPlaceholder.decode_append, placeholder]
      refine List.isChain_append.mpr ⟨ofPiece begins.cut replaced.start.cut ahead,
        List.isChain_append.mpr ⟨together, behind, ?_⟩, ?_⟩
      · intro last isLast next isNext
        have isParenthesis : last = ')' := by
          have known : Placeholder.text.toList.getLast? = some ')' := by decide +kernel
          exact Option.some.inj (isLast.symm.trans known)
        subst isParenthesis
        exact ⟨fun isDot => absurd isDot (by decide), fun _ => by decide⟩
      · intro last isLast next isNext
        have isParenthesis : next = '(' := by
          have known : Placeholder.text.toList.head? = some '(' := by decide +kernel
          rw [List.head?_append, known] at isNext
          exact (Option.some.inj isNext).symm
        subst isParenthesis
        exact ⟨fun _ => by decide, fun isDot => absurd isDot (by decide)⟩

section

variable {block : Masked} {text : Bytes} (legible : Legible block.code)
  (noQuote : Byte.doubleQuote ∉ block.code) (own : TextOf block.code block.text)
  (other : TextOf block.code text)
include legible noQuote own other

/-- The entries of a block are found alike when its text is replaced by another one. -/
theorem sameEntries_block (either : CloseDots (decode block.code) ∨ setApart) :
    List.Forall₂ (SameEntry setApart) block.entries { block with text }.entries := by
  have clause : EntryPlace.Stretch block.code block.clauses.fromClause :=
    EntryPlace.stretch_fromClause legible
  have eitherInClause : CloseDots (decode (block.codeAt block.clauses.fromClause)) ∨ setApart := by
    rcases either with close | apart
    · exact .inl (close.piece clause.cutOut.isInfix_decode)
    · exact .inr apart
  have noQuoteInClause := SelectList.quote_not_mem_extract noQuote block.clauses.fromClause.start
    block.clauses.fromClause.stop
  exact sameEntries_readAll (clause.legible_extract legible) noQuoteInClause eitherInClause
    (own.extract _ _) (other.extract _ _)

/-- So are its tables, whatever the children that they are linked to. -/
theorem sameTables_block (either : CloseDots (decode block.code) ∨ setApart)
    (children : List Outline) :
    List.Forall₂ (SameReference setApart)
      (block.entries.map (Outline.link children block block.earlier))
      ({ block with text }.entries.map
        (Outline.link children { block with text } { block with text }.earlier)) := by
  rw [List.forall₂_map_left_iff, List.forall₂_map_right_iff]
  apply (sameEntries_block legible noQuote own other either).imp
  intro left right same
  exact sameReference_link same children block text block.earlier

/-- The columns of a block are the same when its text is replaced by another one. -/
theorem columns_block : block.columns = { block with text }.columns := by
  have spells := (SelectList.cutOut_selectList legible.spells).isText
  exact SelectList.columnNames_eq spells (SelectList.quote_not_mem_extract noQuote _ _)
    (own.shows.extract _ _) (other.shows.extract _ _)

end

/-- Two scopes in which the same was found, apart from the texts of the scope and its clauses. -/
structure SameFindings (setApart : Prop) (left right : Scope) : Prop where
  level : left.level = right.level
  index : left.index = right.index
  span : left.span = right.span
  aliasName : left.aliasName = right.aliasName
  parent : left.parent = right.parent
  tables : List.Forall₂ (SameReference setApart) left.tables right.tables
  exposedColumns : left.exposedColumns = right.exposedColumns

/-- Masking leaves a text in one piece: with what comes before it and behind it in the query, the
masked text is a text. Only the ends of the children need to fall between characters. -/
theorem isText_around_maskFrom {text code : Bytes} (spells : IsText text) {stop cursor : Nat}
    (inOrder : cursor ≤ stop) {children : List (Span × Nat)}
    (cuts : ∀ child ∈ children, child.1.stop ≤ stop ∧ CutAt text child.1.start ∧
      CutAt text child.1.stop) :
    IsText (text.take cursor ++
      ((Masked.maskFrom text code stop cursor children).value.text ++ text.drop stop)) := by
  induction children generalizing cursor with
  | nil =>
    have whole := Window.take_extract_drop text inOrder
    rw [← whole] at spells
    exact spells
  | cons child others inductionHypothesis =>
    have othersCut := fun other member => cuts other (List.mem_cons_of_mem _ member)
    rcases Nat.lt_or_ge child.1.start cursor with overlaps | ahead
    · rw [Masked.maskFrom_cons_of_lt text code stop cursor others overlaps]
      exact inductionHypothesis inOrder othersCut
    · rw [Masked.value_maskFrom_cons text code stop cursor others ahead]
      obtain ⟨within, start, stop⟩ := cuts child List.mem_cons_self
      have behind := stop.front.of_append (inductionHypothesis within othersCut)
      have placeholder : IsText Placeholder.bytes := ⟨_, rfl⟩
      have joined := start.front.append (placeholder.append behind)
      rw [← Window.take_append_extract text ahead] at joined
      simpa only [List.append_assoc] using joined

/-- The children of a scope may be cut out of the query, because they begin and end with
parentheses. -/
theorem cutAt_of_mem_childrenIn {query : String} {outline child : Outline}
    (member : child ∈ childrenIn query outline) :
    CutAt (ofString query) child.span.start ∧ CutAt (ofString query) child.span.stop := by
  obtain ⟨position, subquery, found, rfl⟩ :=
    ScopeTree.exists_subquery_of_mem_childrenIn member
  obtain ⟨opening, closing, same, matching⟩ :=
    SubquerySpans.exists_matches_of_mem_all (List.mem_of_getElem? found)
  have shows := Shows.codeView (ofString query)
  have spells : IsText (ofString query) := ⟨query, rfl⟩
  have span : (Outline.ofSubquery (subqueriesOf query) subquery position).span =
      ⟨opening, closing + 1⟩ := same
  rw [span]
  constructor
  · exact .at_ascii spells (shows.getElem?_eq matching.opens (by decide)) (by decide)
  · exact .behind_ascii spells (shows.getElem?_eq matching.closes (by decide)) (by decide)

/-- The masked text of a scope is the text of its masked code. -/
theorem textOf_maskedOf {query : String} {outline : Outline}
    (member : outline ∈ outlinesOf query) :
    TextOf (maskedOf query outline).code (maskedOf query outline).text := by
  constructor
  · exact (Shows.codeView (ofString query)).maskFrom _ _ _
  · refine ⟨_, _, isText_around_maskFrom ⟨query, rfl⟩ (DerivedLinks.ends_body member).2.2 ?_⟩
    intro child replaced
    obtain ⟨⟨other, isChild, isSpan, _⟩, replaceable⟩ :=
      DerivedLinks.exists_child_of_mem_replacedIn replaced
    rw [← isSpan]
    exact ⟨isSpan ▸ replaceable.within, cutAt_of_mem_childrenIn isChild⟩

/-- The masked code of a scope has no double quotes when the code of the query has none. -/
theorem quote_not_mem_maskedOf {query : String} (noQuote : Byte.doubleQuote ∉ codeOf query)
    (outline : Outline) : Byte.doubleQuote ∉ (maskedOf query outline).code := by
  intro quoted
  rcases mem_or_mem_of_mem_maskFrom quoted with inCode | inPlaceholder
  · exact noQuote inCode
  · exact absurd inPlaceholder (by decide +kernel)

/-- The masked code of a scope sets no dot apart when the code of the query sets none apart. -/
theorem closeDots_maskedOf {query : String} (close : CloseDots (decode (codeOf query)))
    {outline : Outline} (member : outline ∈ outlinesOf query) :
    CloseDots (decode (maskedOf query outline).code) := by
  obtain ⟨begins, ends, inOrder⟩ := DerivedLinks.ends_body member
  apply closeDots_maskFrom close begins ends inOrder
  intro child replaced
  exact (DerivedLinks.exists_child_of_mem_replacedIn replaced).2

section

variable {first second : String} (sameCode : codeOf first = codeOf second)
include sameCode

/-- The places of scopes depend on the code alone. -/
theorem outlinesOf_eq : outlinesOf first = outlinesOf second := by
  have sameLength : (ofString first).length = (ofString second).length := by
    have lengths := congrArg List.length sameCode
    rwa [codeOf, codeOf, CodeView.length_codeView, CodeView.length_codeView] at lengths
  rw [outlinesOf, outlinesOf, subqueriesOf, subqueriesOf, sameLength, sameCode]

/-- Masked blocks differ only in their texts. -/
theorem maskedOf_eq_update (outline : Outline) :
    maskedOf second outline =
      { maskedOf first outline with text := (maskedOf second outline).text } := by
  rw [maskedOf, maskedOf, childrenIn, childrenIn, ← outlinesOf_eq sameCode, ← sameCode]
  exact Masked.maskFrom_eq_update _ _ _ _ _ _

/-- The same is found in the scopes of an outline. -/
theorem sameFindings_scopeOf (noQuote : Byte.doubleQuote ∉ codeOf first) {outline : Outline}
    (member : outline ∈ outlinesOf first) :
    SameFindings (¬ CloseDots (decode (codeOf first))) (scopeOf first outline)
      (scopeOf second outline) := by
  have legible := DerivedLinks.legible_maskedOf member
  have noQuoteInBlock := quote_not_mem_maskedOf noQuote outline
  have either : CloseDots (decode (maskedOf first outline).code) ∨
      ¬ CloseDots (decode (codeOf first)) := by
    by_cases close : CloseDots (decode (codeOf first))
    · exact .inl (closeDots_maskedOf close member)
    · exact .inr close
  have own := textOf_maskedOf member
  have other : TextOf (maskedOf first outline).code (maskedOf second outline).text := by
    rw [outlinesOf_eq sameCode] at member
    have textOf := textOf_maskedOf member
    rw [maskedOf_eq_update sameCode] at textOf
    exact textOf
  have sameChildren : childrenIn second outline = childrenIn first outline := by
    rw [childrenIn, childrenIn, outlinesOf_eq sameCode]
  constructor
  · rw [level_scopeOf, level_scopeOf]
  · rw [index_scopeOf, index_scopeOf]
  · rw [span_scopeOf, span_scopeOf]
  · rw [aliasName_scopeOf, aliasName_scopeOf]
  · rw [parent_scopeOf, parent_scopeOf]
  · rw [tables_scopeOf, tables_scopeOf, sameChildren, maskedOf_eq_update sameCode]
    exact sameTables_block legible noQuoteInBlock own other either _
  · rw [exposedColumns_scopeOf, exposedColumns_scopeOf, maskedOf_eq_update sameCode]
    exact columns_block legible noQuoteInBlock own other

end

/-- In two queries with the same code view, which has no double quote, the same is found: as many
scopes, at the same places and with the same aliases, parents, columns and tables. Only a schema of
several parts may differ, apart from the names in it, and none does if no blank stands next to a dot
in the code. -/
theorem extract_of_same_code (first second : String) (sameCode : codeOf first = codeOf second)
    (noQuote : Byte.doubleQuote ∉ codeOf first) :
    List.Forall₂ (SameFindings (¬ CloseDots (decode (codeOf first)))) (extract first)
        (extract second) ∧
      (CloseDots (decode (codeOf first)) →
        (extract first).map (·.tables) = (extract second).map (·.tables)) := by
  have findings : List.Forall₂ (SameFindings (¬ CloseDots (decode (codeOf first))))
      (extract first) (extract second) := by
    rw [extract_eq_map, extract_eq_map, ← outlinesOf_eq sameCode, List.forall₂_map_left_iff,
      List.forall₂_map_right_iff, List.forall₂_same]
    intro outline member
    exact sameFindings_scopeOf sameCode noQuote member
  refine ⟨findings, ?_⟩
  intro close
  rw [← List.forall₂_eq_eq_eq, List.forall₂_map_left_iff, List.forall₂_map_right_iff]
  apply findings.imp
  intro left right same
  rw [← List.forall₂_eq_eq_eq]
  exact same.tables.imp fun _ _ alike => alike.eq (not_not_intro close)

/-- A schema of two parts with a comment in front of its dot. -/
def commented : String := "SELECT 1 FROM a/*x*/.b.t"

/-- The same with blanks in the place of the comment. -/
def spaced : String := "SELECT 1 FROM a     .b.t"

/-- A comment that is next to no dot. -/
def remark : String := "SELECT 1/*x*/FROM a.b.t"

/-- The same with another comment. -/
def otherRemark : String := "SELECT 1/*y*/FROM a.b.t"

/-- A comment next to a dot becomes part of the schema, and all else is the same. A comment elsewhere
is not seen in the tables at all. -/
theorem extract_of_same_code_commented :
    (codeOf commented = codeOf spaced ∧
      List.Forall₂ (SameFindings (¬ CloseDots (decode (codeOf commented)))) (extract commented)
        (extract spaced) ∧
      (extract commented).map (·.tables) = [[⟨some "a/*x*/.b", some "t", none, false, none⟩]] ∧
      (extract spaced).map (·.tables) = [[⟨some "a.b", some "t", none, false, none⟩]]) ∧
    (codeOf remark = codeOf otherRemark ∧ remark ≠ otherRemark ∧
      (extract remark).map (·.tables) = (extract otherRemark).map (·.tables)) := by
  have sameCode : codeOf commented = codeOf spaced := by decide +kernel
  have sameRemark : codeOf remark = codeOf otherRemark := by decide +kernel
  have close : CloseDots (decode (codeOf remark)) := by decide +kernel
  obtain ⟨findings, _⟩ := extract_of_same_code commented spaced sameCode (by decide +kernel)
  obtain ⟨_, sameTables⟩ := extract_of_same_code remark otherRemark sameRemark (by decide +kernel)
  refine ⟨⟨sameCode, findings, ?_, ?_⟩, sameRemark, ?_, sameTables close⟩
  · decide +kernel
  · decide +kernel
  · decide +kernel

end QueryScope.Noninterference
