import Mathlib.Data.List.Basic
import QueryScope.Proofs.AliasReading
import QueryScope.Proofs.PositionLinks

/-!
# When a derived table has the alias of its subquery

A derived table and the scope that yields its rows both have an alias, but it is read from two
places: that of the scope behind the subquery in the code of the query, that of the table behind the
placeholder in an entry of masked code. Masking keeps what stands behind the subquery up to the next
subquery, and the entry reaches over the whole alias. So both readers have the same alias before
them, and they agree exactly if it is an identifier and a blank comes in front of it. An alias that
is glued to the parenthesis names the scope, but not the table.
-/

namespace QueryScope

open Bytes EntryShape Placeholder

/-- Behind a part of a piece comes the rest of the piece and what is behind it. -/
theorem drop_of_extract {code front back : Bytes} {start stop : Nat} (inOrder : start ≤ stop)
    (piece : code.extract start stop = front ++ back) :
    code.drop (start + front.length) = back ++ code.drop stop := by
  rw [← List.drop_drop, ← Window.extract_append_drop code inOrder, piece, List.append_assoc,
    List.drop_left]

namespace AliasAt

variable {code gap : Bytes} {offset : Nat} {name : String}

/-- The first byte behind the offset belongs to the alias. -/
theorem getElem?_eq (aliasAt : AliasAt code offset gap name) :
    code[offset]? = (gap ++ ofString name).head? := by
  obtain ⟨back, ahead, _⟩ := aliasAt.here
  obtain ⟨byte, others, isName⟩ := List.exists_cons_of_ne_nil aliasAt.nonempty
  rw [← List.head?_drop, ahead, isName]
  cases gap with
  | nil => rfl
  | cons first rest => rfl

/-- Offsets may be counted from a later beginning. -/
theorem drop_iff : AliasAt (code.drop offset) 0 gap name ↔ AliasAt code offset gap name :=
  ⟨fun ⟨here, introduced, nonempty, isWord, notReserved⟩ =>
    ⟨here, introduced, nonempty, isWord, notReserved⟩,
  fun ⟨here, introduced, nonempty, isWord, notReserved⟩ =>
    ⟨here, introduced, nonempty, isWord, notReserved⟩⟩

/-- What is put behind the code leaves the alias as it is, unless it goes on with the word. -/
theorem append (aliasAt : AliasAt code offset gap name) {rest : Bytes}
    (ended : rest.head?.any Byte.isWordByte = false) : AliasAt (code ++ rest) offset gap name := by
  have within := aliasAt.stop_le_length
  obtain ⟨back, ahead, noWord⟩ := aliasAt.here
  refine ⟨⟨back ++ rest, ?_, ?_⟩, aliasAt.introduced, aliasAt.nonempty, aliasAt.isWord,
    aliasAt.notReserved⟩
  · rw [aliasStop] at within
    rw [List.drop_append_of_le_length (by omega), ahead]
    simp only [List.append_assoc]
  · cases back with
    | nil => exact ended
    | cons byte others => exact noWord

/-- Masking keeps the alias: no child begins in it. -/
theorem maskFrom {text : Bytes} {stop : Nat} {children : List (Span × Nat)}
    (aliasAt : AliasAt code offset gap name) (ends : aliasStop offset gap name ≤ stop)
    (opens : ∀ child ∈ children, code[child.1.start]? = some Byte.openParen) :
    AliasAt (Masked.maskFrom text code stop offset children).value.code 0 gap name := by
  have extracted {stop : Nat} (ends : aliasStop offset gap name ≤ stop) :
      AliasAt (code.extract offset stop) 0 gap name := by
    have piece := aliasAt.extract (Nat.le_refl offset) ends
    rwa [Nat.sub_self] at piece
  induction children with
  | nil => exact extracted ends
  | cons child others inductionHypothesis =>
    rcases Nat.lt_or_ge child.1.start offset with overlaps | ahead
    · rw [Masked.maskFrom_cons_of_lt text code stop offset others overlaps]
      exact inductionHypothesis fun other member => opens other (List.mem_cons_of_mem _ member)
    · rw [Masked.value_maskFrom_cons text code stop offset others ahead]
      simp only [List.append_assoc]
      have before : aliasStop offset gap name ≤ child.1.start :=
        aliasAt.le_of_shown ahead (opens child List.mem_cons_self) (by decide)
      exact (extracted before).append rfl

end AliasAt

/-- What masked code begins with, up to the first opening parenthesis, is what the code goes on with
at the cursor. -/
theorem Masked.exists_append_of_maskFrom {text code front back : Bytes} {stop cursor : Nat}
    {children : List (Span × Nat)} (noParenthesis : Byte.openParen ∉ front)
    (split : (maskFrom text code stop cursor children).value.code = front ++ back) :
    ∃ rest, code.drop cursor = front ++ rest := by
  have ofPiece {stop : Nat} {back : Bytes} (piece : code.extract cursor stop = front ++ back) :
      ∃ rest, code.drop cursor = front ++ rest := by
    rw [List.extract_eq_take_drop] at piece
    refine ⟨back ++ (code.drop cursor).drop (stop - cursor), ?_⟩
    rw [← List.append_assoc, ← piece, List.take_append_drop]
  induction children with
  | nil => exact ofPiece split
  | cons child others inductionHypothesis =>
    rcases Nat.lt_or_ge child.1.start cursor with overlaps | ahead
    · rw [maskFrom_cons_of_lt text code stop cursor others overlaps] at split
      exact inductionHypothesis split
    · rw [value_maskFrom_cons text code stop cursor others ahead] at split
      simp only [List.append_assoc] at split
      rcases List.append_eq_append_iff.mp split with ⟨reach, isFront, isBack⟩ | ⟨reach, isPiece, _⟩
      · cases reach with
        | nil =>
          rw [List.append_nil] at isFront
          exact ofPiece (isFront.symm.trans (List.append_nil front).symm)
        | cons byte more =>
          -- The first byte of the placeholder would be in the part without parentheses.
          have opens : bytes.head? = some Byte.openParen := by decide
          have isFirst := congrArg List.head? isBack
          rw [List.head?_append, opens, Option.some_or, List.cons_append, List.head?_cons,
            Option.some.injEq] at isFirst
          rw [isFront, isFirst] at noParenthesis
          exact absurd (List.mem_append_right _ List.mem_cons_self) noParenthesis
      · exact ofPiece isPiece

/-- A quote that is ahead in masked code is ahead in the code. -/
theorem Subquery.QuoteAhead.of_maskFrom {text code : Bytes} {stop cursor : Nat}
    {children : List (Span × Nat)}
    (quote : QuoteAhead (Masked.maskFrom text code stop cursor children).value.code) :
    QuoteAhead (code.drop cursor) := by
  obtain ⟨used, back, split, passes⟩ := quote
  rw [← List.singleton_append, ← List.append_assoc] at split
  have noParenthesis : Byte.openParen ∉ encoded used ++ [Byte.doubleQuote] := by
    rw [List.mem_append, List.mem_singleton]
    rintro (inUsed | isQuote)
    · exact absurd (passes _ (mem_of_mem_encoded (by decide) inUsed)) (by decide)
    · exact absurd isQuote (by decide)
  obtain ⟨rest, isAhead⟩ := Masked.exists_append_of_maskFrom noParenthesis split
  refine ⟨used, rest, ?_, passes⟩
  rw [isAhead, List.append_assoc, List.singleton_append]

/-- What an entry has behind its placeholder, as the reader of entries sees it. What is ahead of the
placeholder's end begins with the characters that the entry still has; the alias is read from them
and is cut out of the text. The entry reaches over every alias that is set apart. -/
structure EntryTail (ahead : Bytes) (aliasName : Option String) (front after : List Char)
    (rest text : Bytes) : Prop where
  split : ahead = encoded after ++ rest
  shows : Shows (encoded (front ++ after)) text
  reads : aliasName = ((FromEntry.readAlias? (width front) after).filter
    FromEntry.mayBeName).map (FromEntry.nameOf text)
  holds : ∀ gap name, gap ≠ [] → AliasAt ahead 0 gap name →
    aliasStop 0 gap name ≤ (encoded after).length

namespace EntryTail

variable {ahead gap rest text : Bytes} {aliasName : Option String} {front after : List Char}
  {name : String}

/-- The name that is cut out of the text for a bare name of the entry is the name itself. -/
theorem nameOf_eq (shows : Shows (encoded (front ++ after)) text) {used characters more : List Char}
    (isAfter : after = used ++ (characters ++ more)) (bare : BareName.Bare .folded characters)
    (notQuoted : characters.head? ≠ some '"') :
    FromEntry.nameOf text ⟨width front + width used, characters⟩ = String.ofList characters := by
  rw [isAfter, ← List.append_assoc] at shows
  have cut := shows.extract_eq bare.plain
  rw [width_append] at cut
  rw [FromEntry.nameOf, Fragment.span, Fragment.stop, cut, Written.text_encoded,
    Identifier.unquote_of_head? notQuoted]

/-- Behind a blank, an alias that is an identifier is the alias of the entry. -/
theorem eq_some (tail : EntryTail ahead aliasName front after rest text)
    (aliasAt : AliasAt ahead 0 gap name)
    (whole : Identifier.isWhole .folded name.toList = true)
    (notAs : Identifier.spellsAs name.toList = false)
    (blank : ahead[0]?.any Byte.isBlank = true) : aliasName = some name := by
  have apart : gap ≠ [] := by
    rintro rfl
    obtain ⟨byte, others, isName⟩ := List.exists_cons_of_ne_nil aliasAt.nonempty
    rw [aliasAt.getElem?_eq, List.nil_append, isName, List.head?_cons, Option.any_some,
      aliasAt.solid byte (by simp [isName])] at blank
    cases blank
  have inEntry : AliasAt (encoded after) 0 gap name := by
    have taken := aliasAt.take (tail.holds gap name apart aliasAt)
    rwa [tail.split, List.take_left] at taken
  have bare := BareName.bare_of_isWhole aliasAt.noQuote whole
  have notQuoted : name.toList.head? ≠ some '"' :=
    fun isQuote => aliasAt.noQuote (List.mem_of_mem_head? isQuote)
  have reading := inEntry.readAlias?_eq_some (isText_encoded after) whole notAs
    (by rwa [inEntry.getElem?_eq, ← aliasAt.getElem?_eq]) (width front)
  obtain ⟨back, _, isAfter, _⟩ := inEntry.exists_decode
  rw [List.drop_zero, decode_encoded] at reading isAfter
  have mayBe : FromEntry.mayBeName ⟨width front + width (decode gap), name.toList⟩ = true := by
    rw [FromEntry.mayBeName, Fragment.text, String.ofList_toList, aliasAt.notReserved,
      Bool.not_false, Bool.or_true]
  rw [tail.reads, reading, Option.filter_some_pos mayBe, Option.map_some,
    nameOf_eq tail.shows isAfter bare notQuoted, String.ofList_toList]

/-- An identifier that is glued to what is in front of it is not read as an alias. -/
theorem eq_none (tail : EntryTail ahead aliasName front after rest text)
    (aliasAt : AliasAt ahead 0 gap name)
    (whole : Identifier.isWhole .folded name.toList = true)
    (glued : ahead[0]?.any Byte.isBlank = false) : aliasName = none := by
  have split : ahead.drop 0 = encoded after ++ rest := tail.split
  rw [tail.reads, aliasAt.readAlias?_eq_none whole glued split]
  rfl

/-- The alias of an entry is an identifier, or it is written between quotes. -/
theorem isWhole_or_quoteAhead (tail : EntryTail ahead aliasName front after rest text)
    (isAlias : aliasName = some name) :
    Identifier.isWhole .folded name.toList = true ∨ Subquery.QuoteAhead ahead := by
  rw [tail.reads, Option.map_eq_some_iff] at isAlias
  obtain ⟨fragment, found, isName⟩ := isAlias
  obtain ⟨used, remaining, more, isAfter, passed, _, reading, place⟩ :=
    BareName.exists_read_of_readAlias? (Option.eq_some_of_filter_eq_some found)
  by_cases quoted : remaining.head? = some '"'
  · obtain ⟨others, rfl⟩ : ∃ others, remaining = '"' :: others := by
      cases remaining with
      | nil => cases quoted
      | cons first others => exact ⟨others, by rw [Option.some.inj quoted]⟩
    refine .inr ⟨used, encoded others ++ rest, ?_, passed.mayPass⟩
    rw [tail.split, isAfter, encoded_append, encoded_cons, List.append_assoc, List.append_assoc]
    rfl
  · obtain ⟨whole, bare, notQuoted⟩ := Identifier.isWhole_of_read? quoted reading
    rw [(Identifier.append_of_read? reading).1] at isAfter
    have isSelf := nameOf_eq tail.shows isAfter bare notQuoted
    rw [← place] at isSelf
    rw [← isName, isSelf, String.toList_ofList]
    exact .inl whole

end EntryTail

/-- The entry of every derived table of a FROM clause has such a tail behind its placeholder. -/
theorem FromEntry.exists_entryTail {text code : Bytes} (legible : Quotes.Legible code)
    (shows : Shows code text) {offset : Nat} {entry : FromEntry}
    (found : (offset, entry) ∈ located text code) (derived : entry.reference.isDerived = true) :
    offset + bytes.length ≤ code.length ∧ ∃ front after rest entryText,
      EntryTail (code.drop (offset + bytes.length)) entry.reference.aliasName front after rest
        entryText := by
  obtain ⟨span, isSpan, place, isPlace, shape, shaped, made, rfl, isAlias⟩ :=
    exists_place_of_mem_located found
  have stretch := EntryPlace.stretch_place legible
    (EntryPlace.stretch_spans legible span isSpan) isPlace
  have entryLegible := stretch.legible_extract legible
  have piece := EntryPlace.encoded_decode entryLegible.spells
  have hollow := entryLegible.hollow
  rw [← piece] at hollow
  have isPlaceholder : Text.sameName shape.name.text Placeholder.text = true := by
    rw [← made.derived, derived]
  obtain ⟨used, after, split, _, isOffset, reading⟩ :=
    exists_split_of_derived hollow shaped isPlaceholder
  have placeholderLength : (encoded shape.name.characters).length = bytes.length := by
    rw [← map_upper_encoded isPlaceholder, List.length_map]
  have frontLength : (encoded (used ++ shape.name.characters)).length =
      shape.name.offset + bytes.length := by
    rw [encoded_append, List.length_append, placeholderLength, isOffset]
  rw [split, ← List.append_assoc] at piece
  have entryShows := shows.extract place.start place.stop
  rw [← piece] at entryShows
  have entryLength := congrArg List.length piece
  rw [encoded_append, List.length_append, frontLength,
    Window.length_extract code place.start stretch.cutOut.stop.within] at entryLength
  have inOrder := stretch.inOrder
  have within := stretch.cutOut.stop.within
  have behind : code.drop (place.start + shape.name.offset + bytes.length) =
      encoded after ++ code.drop place.stop := by
    rw [Nat.add_assoc, ← frontLength]
    apply drop_of_extract inOrder
    rw [← piece, encoded_append]
  refine ⟨by omega, used ++ shape.name.characters, after, code.drop place.stop,
    text.extract place.start place.stop, behind, entryShows, ?_, ?_⟩
  · have isStop : shape.name.stop = width (used ++ shape.name.characters) := by
      rw [Fragment.stop, isOffset, width_append, length_encoded]
    rw [isAlias, reading, isStop]
  · intro gap name apart aliasAt
    have ends := (AliasAt.drop_iff.mp aliasAt).le_place apart isSpan isPlace (by omega) (by omega)
    rw [aliasStop] at ends ⊢
    omega

/-- So it is in the whole block: the clause ends behind the alias. -/
theorem Masked.exists_entryTail {masked : Masked} (legible : Quotes.Legible masked.code)
    (shows : Shows masked.code masked.text) {offset : Nat} {entry : FromEntry}
    (found : (offset, entry) ∈ masked.located) (derived : entry.reference.isDerived = true) :
    ∃ front after rest text, EntryTail (masked.code.drop (offset + bytes.length))
      entry.reference.aliasName front after rest text := by
  have clause : EntryPlace.Stretch masked.code masked.clauses.fromClause :=
    EntryPlace.stretch_fromClause legible
  have clauseLength : (masked.codeAt masked.clauses.fromClause).length =
      masked.clauses.fromClause.stop - masked.clauses.fromClause.start :=
    Window.length_extract masked.code _ clause.cutOut.stop.within
  obtain ⟨⟨inClause, _⟩, located, same⟩ := List.mem_map.mp found
  cases same
  have clauseLegible : Quotes.Legible (masked.codeAt masked.clauses.fromClause) :=
    clause.legible_extract legible
  have clauseShows : Shows (masked.codeAt masked.clauses.fromClause)
      (masked.textAt masked.clauses.fromClause) := shows.extract _ _
  obtain ⟨within, front, after, rest, text, tail⟩ :=
    FromEntry.exists_entryTail clauseLegible clauseShows located derived
  have inOrder := clause.inOrder
  have behind : masked.code.drop (masked.clauses.fromClause.start + inClause + bytes.length) =
      (masked.codeAt masked.clauses.fromClause).drop (inClause + bytes.length) ++
        masked.code.drop masked.clauses.fromClause.stop := by
    have taken : ((masked.codeAt masked.clauses.fromClause).take
        (inClause + bytes.length)).length = inClause + bytes.length :=
      List.length_take_of_le within
    rw [Nat.add_assoc, ← taken]
    apply drop_of_extract inOrder
    rw [taken, List.take_append_drop]
    rfl
  refine ⟨front, after, rest ++ masked.code.drop masked.clauses.fromClause.stop, text, ?_,
    tail.shows, tail.reads, ?_⟩
  · rw [behind, ← List.append_assoc, ← tail.split]
  · intro gap name apart aliasAt
    have inBlock := AliasAt.drop_iff.mp aliasAt
    have positive : 0 < bytes.length := by decide
    have ends := inBlock.le_fromClause
      (show masked.clauses.fromClause.start < _ by omega)
      (show _ ≤ masked.clauses.fromClause.stop by omega)
    have piece := inBlock.extract
      (show masked.clauses.fromClause.start ≤ _ by omega) ends
    rw [Nat.add_assoc, Nat.add_sub_cancel_left] at piece
    exact tail.holds gap name apart (AliasAt.drop_iff.mpr piece)

/-- The alias of a subquery is what is read behind its closing parenthesis. -/
theorem Subquery.aliasName_of_mem_all {code : Bytes} {subquery : Subquery}
    (member : subquery ∈ (all code).value) :
    subquery.aliasName = aliasAt? code subquery.span.stop := by
  rw [value_all, List.mem_filterMap] at member
  obtain ⟨pair, _, made⟩ := member
  rw [value_ofPair] at made
  split at made
  · cases made
    rfl
  · cases made

namespace DerivedLinks

open ScopeTree SubquerySpans

variable {query : String} {outline : Outline}

/-- The alias of a child is read behind it, where the code can be cut. -/
theorem aliasName_of_mem_childrenIn {child : Outline} (inside : child ∈ childrenIn query outline) :
    child.aliasName = Subquery.aliasAt? (codeOf query) child.span.stop ∧
      CutAt (codeOf query) child.span.stop ∧
      (codeOf query)[child.span.start]? = some Byte.openParen := by
  obtain ⟨position, subquery, found, rfl⟩ := exists_subquery_of_mem_childrenIn inside
  have listed := List.mem_of_getElem? found
  obtain ⟨opening, closing, same, matching⟩ := exists_matches_of_mem_all listed
  refine ⟨Subquery.aliasName_of_mem_all listed, (seams_of_mem listed).2.cut, ?_⟩
  rw [Outline.ofSubquery, same]
  exact matching.opens

/-- The body of a scope does not end in the middle of an alias. -/
theorem aliasStop_le_body (member : outline ∈ outlinesOf query) {offset : Nat} {gap : Bytes}
    {name : String} (aliasAt : AliasAt (codeOf query) offset gap name)
    (begins : outline.body.start ≤ offset) (behind : offset ≤ outline.body.stop) :
    aliasStop offset gap name ≤ outline.body.stop := by
  rcases main_or_subquery_of_mem member with rfl | ⟨subquery, found, position, rfl⟩
  · have within := aliasAt.stop_le_length
    rwa [codeOf, CodeView.length_codeView] at within
  · obtain ⟨opening, closing, same, matching⟩ := exists_matches_of_mem_all found
    have within : closing < (codeOf query).length := (List.getElem?_eq_some_iff.mp matching.closes).1
    have trimmed := trimmed_content found
    simp only [Outline.ofSubquery] at begins behind ⊢
    rw [content_of_mem_all found, same, Nat.add_sub_cancel] at begins behind trimmed ⊢
    refine aliasAt.le_trim (Nat.le_trans trimmed.startLe begins) ?_ (Nat.le_of_lt within)
    exact aliasAt.le_of_shown (Nat.le_trans behind trimmed.stopLe) matching.closes (by decide)

namespace ComesFrom

variable {number offset : Nat} {reference : TableReference} {entry : FromEntry} {child : Outline}
  {gap : Bytes} {name : String}

/-- A derived table has the alias of its entry. -/
theorem aliasName_eq (comes : ComesFrom query outline number reference offset entry child) :
    reference.aliasName = entry.reference.aliasName := by
  have sameAlias :=
    (@link_of_derived (childrenIn query outline) _ _ _ _ comes.derived comes.byPosition).1
  rwa [← comes.isReference] at sameAlias

/-- Where the alias of a derived table is read: behind its placeholder the block goes on with what
was masked from the end of the child on. -/
theorem exists_entryTail (comes : ComesFrom query outline number reference offset entry child)
    (free : Free (codeOf query)) (member : outline ∈ outlinesOf query) :
    outline.body.start ≤ child.span.stop ∧ child.span.stop ≤ outline.body.stop ∧
      ∃ others front after rest text,
        (∀ other ∈ others, (codeOf query)[other.1.start]? = some Byte.openParen) ∧
        EntryTail (Masked.maskFrom (ofString query) (codeOf query) outline.body.stop
          child.span.stop others).value.code reference.aliasName front after rest text := by
  have legible := legible_maskedOf member
  have located := List.mem_of_getElem? comes.found
  obtain ⟨stands, _⟩ := Masked.standsAt_of_mem_located legible located comes.derived
  have within : ∀ replaced ∈ replacedIn query outline,
      replaced.1.start ≤ (codeOf query).length := by
    intro replaced isReplaced
    exact (exists_child_of_mem_replacedIn isReplaced).2.start.cut.within
  obtain ⟨⟨span, index⟩, isReplaced, _, origin, others, among, behind⟩ :=
    Masked.exists_child_of_standsAt free outline.body.stop within stands
  obtain ⟨⟨found, inside, rfl, _⟩, replaceable⟩ := exists_child_of_mem_replacedIn isReplaced
  rw [comes.origin] at origin
  obtain rfl := eq_of_start_eq comes.inside inside origin
  have enclosed : outline.body.start ≤ child.span.start := by
    rw [replacedIn, Masked.replaced, List.mem_mergeSort, List.mem_filter, Span.encloses,
      Bool.and_eq_true, decide_eq_true_eq] at isReplaced
    exact isReplaced.2.1
  have shows : Shows (maskedOf query outline).code (maskedOf query outline).text :=
    (Shows.codeView (ofString query)).maskFrom _ _ _
  obtain ⟨front, after, rest, text, tail⟩ :=
    Masked.exists_entryTail legible shows located comes.derived
  rw [← comes.aliasName_eq] at tail
  refine ⟨Nat.le_trans enclosed replaceable.inOrder, replaceable.within, others, front, after, rest,
    text, ?_, behind ▸ tail⟩
  intro other isOther
  obtain ⟨⟨_, isChild, isSpan, _⟩, _⟩ := exists_child_of_mem_replacedIn (among isOther)
  rw [← isSpan]
  exact (aliasName_of_mem_childrenIn isChild).2.2

/-- Both readers have the alias of the child before them, and so the table has it exactly if it is
an identifier behind a blank. -/
theorem aliasName_eq_some_iff
    (comes : ComesFrom query outline number reference offset entry child)
    (free : Free (codeOf query)) (member : outline ∈ outlinesOf query)
    (named : child.aliasName = some name) (notAs : Identifier.spellsAs name.toList = false) :
    (reference.aliasName = some name ↔ Identifier.isWhole .folded name.toList = true ∧
      (codeOf query)[child.span.stop]?.any Byte.isBlank = true) ∧
    (Identifier.isWhole .folded name.toList = true →
      (codeOf query)[child.span.stop]?.any Byte.isBlank = false → reference.aliasName = none) := by
  have spells := (legible_codeOf query).spells
  obtain ⟨isAlias, cut, _⟩ := aliasName_of_mem_childrenIn comes.inside
  rw [named] at isAlias
  obtain ⟨gap, aliasAt⟩ := exists_aliasAt spells cut isAlias.symm
  obtain ⟨begins, behind, others, front, after, rest, text, opens, tail⟩ :=
    comes.exists_entryTail free member
  have masked : AliasAt (Masked.maskFrom (ofString query) (codeOf query) outline.body.stop
      child.span.stop others).value.code 0 gap name :=
    aliasAt.maskFrom (aliasStop_le_body member aliasAt begins behind) opens
  have sameFirst := masked.getElem?_eq.trans aliasAt.getElem?_eq.symm
  have glued (whole : Identifier.isWhole .folded name.toList = true)
      (noBlank : (codeOf query)[child.span.stop]?.any Byte.isBlank = false) :
      reference.aliasName = none :=
    tail.eq_none masked whole (by rwa [sameFirst])
  refine ⟨⟨?_, ?_⟩, glued⟩
  · intro agrees
    have whole : Identifier.isWhole .folded name.toList = true := by
      rcases tail.isWhole_or_quoteAhead agrees with whole | quote
      · exact whole
      · -- The quote comes behind the child in the code too, so the child has no alias.
        rw [quote.of_maskFrom.aliasAt? spells] at isAlias
        cases isAlias
    refine ⟨whole, ?_⟩
    by_contra noBlank
    rw [glued whole (Bool.eq_false_iff.mpr noBlank)] at agrees
    cases agrees
  · rintro ⟨whole, blank⟩
    exact tail.eq_some masked whole notAs (by rwa [sameFirst])

end ComesFrom

/-- When the subquery at which a derived table stands has an alias, the table has the same alias
exactly if it is an identifier and a blank comes right behind the subquery; the table then answers
to it. A glued identifier leaves the table without an alias. Left out are the two names that are
`AS` but for a long s: where a word follows, the reader of entries takes them for `AS`. -/
theorem aliases_agree_iff (query : String) (free : Free (codeOf query)) {position number : Nat}
    {scope child : Scope} {reference : TableReference} {name : String}
    (isScope : (extract query)[position]? = some scope)
    (listed : scope.tables[number]? = some reference) (derived : reference.isDerived = true)
    (isChild : child ∈ childScopes query position)
    (stands : entryOffset? query position number = some child.span.start)
    (named : child.aliasName = some name) (notAs : Identifier.spellsAs name.toList = false) :
    (reference.aliasName = some name ↔ Identifier.isWhole .folded name.toList = true ∧
      (codeOf query)[child.span.stop]?.any Byte.isBlank = true) ∧
    (Identifier.isWhole .folded name.toList = true →
      (codeOf query)[child.span.stop]?.any Byte.isBlank = false → reference.aliasName = none) ∧
    (reference.aliasName = some name →
      ∃ found, scope.findTable? name = some found ∧ found.answersTo name = true) := by
  obtain ⟨outline, placed, rfl⟩ := getElem?_extract isScope
  have member := List.mem_of_getElem? placed
  obtain ⟨offset, entry, found, comes⟩ := exists_comesFrom free member listed derived
  rw [comes.entryOffset?_eq placed, Option.some.injEq] at stands
  obtain rfl := comes.eq_of_start placed isChild stands.symm
  rw [aliasName_scopeOf] at named
  obtain ⟨agrees, glued⟩ := comes.aliasName_eq_some_iff free member named notAs
  refine ⟨agrees, glued, ?_⟩
  intro isAlias
  have answers : reference.answersTo name = true := by
    rw [TableReference.answersTo, isAlias, Option.any_some, Text.sameName, beq_self_eq_true,
      Bool.true_or]
  cases isFound : (scopeOf query outline).findTable? name with
  | none =>
    have silent := List.find?_eq_none.mp isFound reference (List.mem_of_getElem? listed)
    exact absurd answers silent
  | some first =>
    refine ⟨first, rfl, ?_⟩
    exact List.find?_some (p := fun table : TableReference => table.answersTo name) isFound

/-- A query whose derived table has its alias glued to the parenthesis. -/
def gluedAlias : String := "SELECT * FROM (SELECT 1)d"

/-- Its main query. -/
def gluedMain : Scope where
  level := 0
  index := 0
  span := ⟨0, 25⟩
  content := gluedAlias
  aliasName := none
  parent := none
  selectList := "*"
  fromClause := "(__SUBSELECT__)d"
  whereClause := ""
  tables := [{ TableReference.derived with derivedScope := some 1 }]
  exposedColumns := []

/-- Its subquery. -/
def gluedChild : Scope where
  level := 1
  index := 1
  span := ⟨14, 24⟩
  content := "SELECT 1"
  aliasName := some "d"
  parent := some 0
  selectList := "1"
  fromClause := ""
  whereClause := ""
  tables := []
  exposedColumns := []

/-- The alias names the subquery but not the derived table, and nothing answers to it. -/
theorem aliases_agree_iff_gluedAlias :
    Free (codeOf gluedAlias) ∧ extract gluedAlias = [gluedMain, gluedChild] ∧
      entryOffset? gluedAlias 0 0 = some gluedChild.span.start ∧
      gluedChild.aliasName = some "d" ∧ gluedMain.findTable? "d" = none ∧
      ∀ reference, gluedMain.tables[0]? = some reference → reference.aliasName = none := by
  have free : Free (codeOf gluedAlias) := by decide +kernel
  have scopes : extract gluedAlias = [gluedMain, gluedChild] := by decide +kernel
  have isScope : (extract gluedAlias)[0]? = some gluedMain := by
    rw [scopes]
    rfl
  have isChild : gluedChild ∈ childScopes gluedAlias 0 := by
    rw [childScopes, scopes]
    decide
  have stands : entryOffset? gluedAlias 0 0 = some gluedChild.span.start := by decide +kernel
  refine ⟨free, scopes, stands, rfl, by decide, ?_⟩
  intro reference listed
  have derived : reference.isDerived = true := by
    cases listed
    rfl
  exact (aliases_agree_iff gluedAlias free isScope listed derived isChild stands rfl
    (by decide)).2.1 (by decide) (by decide +kernel)

end DerivedLinks

end QueryScope
