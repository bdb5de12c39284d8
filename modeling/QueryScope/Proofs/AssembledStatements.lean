import QueryScope.Proofs.ClauseSpans
import QueryScope.Proofs.Continuation

/-!
# Assembled statements

Taking a statement apart undoes putting it together. Three pieces of code that could each be a clause
on their own, put behind `SELECT`, `FROM` and `WHERE`, are the clauses of the statement, with or
without a word behind `SELECT` that says whether rows may repeat.

A piece may hold anything that its own clause does not end at: parentheses, further `SELECT`s, words
that begin a keyword of two words. It has to close the parentheses it opens, or it would hide the
keyword behind it.
-/

namespace QueryScope

namespace Clause

/-- A piece of code that is a clause on its own: nothing in it is trimmed, it closes the parentheses
that it opens, and none of the clause's terminators is met in it. -/
structure SelfContained (clause : Clause) (piece : Bytes) : Prop where
  nonempty : piece ≠ []
  solidFirst : ∀ byte ∈ piece.head?, Byte.isBlank byte = false
  solidLast : ∀ byte ∈ piece.getLast?, Byte.isBlank byte = false
  balanced : piece.foldl depthAfter 0 = 0
  unended : find? piece 0 clause.terminators = none

/-- The same as a check. -/
def isSelfContained (clause : Clause) (piece : Bytes) : Bool :=
  !piece.isEmpty && piece.head?.all (!Byte.isBlank ·) && piece.getLast?.all (!Byte.isBlank ·)
    && piece.foldl depthAfter 0 == 0 && (find? piece 0 clause.terminators).isNone

/-- The check whether a piece may stand in a clause by itself decides what it is named for. -/
theorem isSelfContained_iff (clause : Clause) (piece : Bytes) :
    clause.isSelfContained piece = true ↔ clause.SelfContained piece := by
  simp only [isSelfContained, Bool.and_eq_true, Bool.not_eq_true', List.isEmpty_eq_false_iff,
    Option.all_eq_true, beq_iff_eq, Option.isNone_iff_eq_none, and_assoc]
  constructor
  · rintro ⟨nonempty, solidFirst, solidLast, balanced, unended⟩
    exact ⟨nonempty, solidFirst, solidLast, balanced, unended⟩
  · intro contained
    exact ⟨contained.nonempty, contained.solidFirst, contained.solidLast, contained.balanced,
      contained.unended⟩

instance (clause : Clause) (piece : Bytes) : Decidable (clause.SelfContained piece) :=
  decidable_of_iff (clause.isSelfContained piece = true) (isSelfContained_iff clause piece)

variable {clause : Clause} {front piece back : Bytes}

/-- A piece that may stand in a clause by itself neither begins nor ends with a blank. -/
theorem SelfContained.solidEnds (contained : clause.SelfContained piece) :
    SolidEnds Byte.isBlank piece where
  first := by
    obtain ⟨first, rest, isPiece⟩ := List.exists_cons_of_ne_nil contained.nonempty
    exact ⟨first, rest, isPiece, contained.solidFirst first (by rw [isPiece]; rfl)⟩
  last := by
    refine ⟨piece.dropLast, piece.getLast contained.nonempty,
      (List.dropLast_append_getLast contained.nonempty).symm, ?_⟩
    exact contained.solidLast _ (List.getLast?_eq_some_getLast contained.nonempty)

/-- A search from the front of a self-contained piece goes on behind it. -/
theorem find?_selfContained (contained : clause.SelfContained piece)
    (pause : Keyword.Pause (clause.terminators.map (·.keyword)) back) :
    find? (front ++ Byte.space :: (piece ++ back)) front.length clause.terminators =
      Keyword.searchFrom (clause.terminators.map (·.keyword)) (front.length + 1 + piece.length) 0
        false back := by
  have unmet : Keyword.searchFrom (clause.terminators.map (·.keyword)) (front.length + 1) 0 false
      piece = none := by
    have unended := contained.unended
    rw [find?_eq, Keyword.find?_eq_searchFrom, Nat.zero_min, List.drop_zero] at unended
    rw [← Nat.zero_add (front.length + 1), Keyword.searchFrom_shift, Option.map_eq_none_iff]
    exact unended
  rw [find?_eq,
    Keyword.find?_append_mark (FlatQuery.isOrderly_of_mem_terminators clause) _ (by decide),
    Keyword.searchFrom_append pause clause.isSolid_of_mem_terminators, unmet, contained.balanced,
    Option.none_or]

/-- A piece behind a blank. -/
theorem extract_behind (front piece back : Bytes) :
    (front ++ Byte.space :: (piece ++ back)).extract (front.length + 1)
      (front.length + 1 + piece.length) = piece := by
  have whole : front ++ Byte.space :: (piece ++ back) =
      (front ++ [Byte.space]) ++ (piece ++ back) := by
    rw [List.append_assoc, List.singleton_append]
  exact Window.extract_eq_of_append whole
    (by rw [List.length_append, List.length_singleton]) rfl

/-- A self-contained piece is read as it is when only blanks are between it and the place at which
its clause ends. -/
theorem value_read_selfContained (contained : clause.SelfContained piece) {code blanks rest : Bytes}
    (whole : code = front ++ Byte.space :: (piece ++ (blanks ++ rest)))
    (blank : ∀ byte ∈ blanks, Byte.isBlank byte = true) {hit? : Option Keyword.Hit}
    (found : find? code front.length clause.terminators = hit?)
    (stops : (hit?.map (·.span.start)).getD code.length =
      front.length + 1 + piece.length + blanks.length) :
    (clause.read code front.length).value =
      (⟨front.length + 1, front.length + 1 + piece.length⟩,
        hit?.bind (Opening.ofHit? clause.terminators)) := by
  have length : front.length + 1 + piece.length + blanks.length =
      front.length + (1 + (piece.length + blanks.length)) := by omega
  have cut : code.extract front.length (front.length + 1 + piece.length + blanks.length) =
      [Byte.space] ++ (piece ++ blanks) := by
    have regrouped : code = front ++ (([Byte.space] ++ (piece ++ blanks)) ++ rest) := by
      rw [whole, List.append_assoc, List.append_assoc, List.singleton_append]
    apply Window.extract_eq_of_append regrouped rfl
    simp only [List.length_append, List.length_singleton, length]
  have trimmed := Bytes.value_trim_solid
    ⟨front.length, front.length + 1 + piece.length + blanks.length⟩ cut length
    Byte.isBlank_of_mem_space blank contained.solidEnds
  simp only [value_read, found, stops, trimmed, List.length_singleton]

/-- A self-contained piece at the end of the code. -/
theorem read_last (contained : clause.SelfContained piece) :
    (clause.read (front ++ Byte.space :: piece) front.length).value =
      (⟨front.length + 1, front.length + 1 + piece.length⟩, none) := by
  have nothing : ∀ byte ∈ ([] : Bytes), Byte.isBlank byte = true :=
    fun byte member => absurd member List.not_mem_nil
  have whole : front ++ Byte.space :: piece = front ++ Byte.space :: (piece ++ ([] ++ [])) := by
    rw [List.append_nil, List.append_nil]
  have found : find? (front ++ Byte.space :: piece) front.length clause.terminators = none := by
    rw [whole]
    exact find?_selfContained contained (.of_blank clause.isSolid_of_mem_terminators nothing)
  refine value_read_selfContained contained whole nothing found ?_
  simp only [Option.map_none, Option.getD_none, List.length_append, List.length_cons,
    List.length_nil]
  omega

/-- A word between blanks that a clause ends at: the first of its terminators, no further word of
another. -/
structure FirstTerminator (clause next : Clause) (word : Bytes) : Prop where
  nonempty : word ≠ []
  letters : word.all Byte.isLetter = true
  first : ∃ terminator later, clause.terminators = terminator :: later ∧
    terminator.keyword.words = [word] ∧ terminator.opens = some next
  foreign : ∀ keyword ∈ clause.terminators.map (·.keyword), ∀ later ∈ keyword.words.tail,
    later ≠ [] ∧ later.all Byte.isLetter = true ∧ Bytes.sameIgnoringCase word later = false

/-- Such a word is a pause. -/
theorem FirstTerminator.pause {next : Clause} {word : Bytes}
    (terminator : clause.FirstTerminator next word) (rest : Bytes) :
    Keyword.Pause (clause.terminators.map (·.keyword))
      (Byte.space :: (word ++ Byte.space :: rest)) where
  blank := by
    rintro byte ⟨⟩
    decide
  unmet keyword member later isLater := by
    obtain ⟨nonempty, letters, foreign⟩ := terminator.foreign keyword member later isLater
    have isWord : ∀ byte ∈ word, Byte.isWordByte byte = true := fun byte inWord =>
      Keyword.isWordByte_of_isLetter (List.all_eq_true.mp terminator.letters byte inWord)
    have behindBlank : (Byte.space :: (word ++ Byte.space :: rest)).dropWhile Byte.isBlank =
        word ++ Byte.space :: rest := by
      obtain ⟨first, others, rfl⟩ := List.exists_cons_of_ne_nil terminator.nonempty
      have notBlank := Byte.not_blank_of_word (isWord first List.mem_cons_self)
      rw [List.dropWhile_cons_of_pos (by decide), List.cons_append,
        List.dropWhile_cons_of_neg (by simp [notBlank])]
    rw [behindBlank]
    exact Keyword.stripWord?_of_foreign nonempty (List.all_eq_true.mp letters) isWord foreign rfl

/-- A self-contained piece before the word that opens the next clause. -/
theorem read_before {next : Clause} {word : Bytes} (contained : clause.SelfContained piece)
    (terminator : clause.FirstTerminator next word) (rest : Bytes) :
    (clause.read (front ++ Byte.space :: (piece ++ Byte.space :: (word ++ Byte.space :: rest)))
      front.length).value =
        (⟨front.length + 1, front.length + 1 + piece.length⟩,
          some ⟨next, front.length + 1 + piece.length + 1 + word.length⟩) := by
  obtain ⟨first, later, isFirst, words, opens⟩ := terminator.first
  have begins : word.head?.any Byte.isWordByte = true := by
    obtain ⟨letter, others, rfl⟩ := List.exists_cons_of_ne_nil terminator.nonempty
    exact Keyword.isWordByte_of_isLetter
      (List.all_eq_true.mp terminator.letters letter List.mem_cons_self)
  have found : find? (front ++ Byte.space :: (piece ++ Byte.space :: (word ++ Byte.space :: rest)))
      front.length clause.terminators =
        some ⟨0, ⟨front.length + 1 + piece.length + 1,
          front.length + 1 + piece.length + 1 + word.length⟩⟩ := by
    rw [find?_selfContained contained (terminator.pause rest),
      Keyword.searchFrom_mark (FlatQuery.isOrderly_of_mem_terminators clause) _ _ (by decide),
      isFirst, List.map_cons]
    exact Keyword.searchFrom_spelled words begins _ _ rfl
  have whole : front ++ Byte.space :: (piece ++ Byte.space :: (word ++ Byte.space :: rest)) =
      front ++ Byte.space :: (piece ++ ([Byte.space] ++ (word ++ Byte.space :: rest))) := rfl
  rw [value_read_selfContained contained whole Byte.isBlank_of_mem_space found rfl,
    Option.bind_some, Opening.ofHit?, isFirst, List.getElem?_cons_zero, Option.bind_some, opens,
    Option.map_some]

/-- A select list can end at `FROM`. -/
theorem firstTerminator_from : selectList.FirstTerminator fromClause (Bytes.ofString "FROM") where
  nonempty := by decide
  letters := by decide
  first := ⟨fromTerminator, _, rfl, by decide, rfl⟩
  foreign := by decide

/-- A FROM clause can end at `WHERE`. -/
theorem firstTerminator_where :
    fromClause.FirstTerminator whereClause (Bytes.ofString "WHERE") where
  nonempty := by decide
  letters := by decide
  first := ⟨whereTerminator, _, rfl, by decide, rfl⟩
  foreign := by decide

end Clause

namespace Clauses

open Clause

/-- A statement with a select list, a FROM clause and a WHERE clause, and with what stands between
`SELECT` and the select list. -/
def assembled (quantifier selected source condition : String) : String :=
  "SELECT " ++ quantifier ++ selected ++ " FROM " ++ source ++ " WHERE " ++ condition

/-- The code of a statement behind the blank in front of its select list. -/
def behindSelect (selected source condition : String) : Bytes :=
  Bytes.ofString selected ++ Byte.space :: (Bytes.ofString "FROM" ++ Byte.space ::
    (Bytes.ofString source ++ Byte.space :: (Bytes.ofString "WHERE" ++ Byte.space ::
      Bytes.ofString condition)))

/-- What stands in front of a clause that a word opens behind another clause. -/
def opened (front piece word : Bytes) : Bytes :=
  front ++ Byte.space :: (piece ++ Byte.space :: word)

/-- A piece between a keyword and the next one, with the spaces written out. -/
theorem append_opened (front piece word rest : Bytes) :
    opened front piece word ++ Byte.space :: rest =
      front ++ Byte.space :: (piece ++ Byte.space :: (word ++ Byte.space :: rest)) := by
  simp only [opened, List.append_assoc, List.cons_append]

/-- The length up to and including the keyword behind a piece, with one space on either
side of it. -/
theorem length_opened (front piece word : Bytes) :
    (opened front piece word).length = front.length + 1 + piece.length + 1 + word.length := by
  simp only [opened, List.length_append, List.length_cons]
  omega

variable {selected : String}

/-- A piece of code whose first word is no quantifier. -/
theorem unquantified_of_next? {piece : Bytes} (solid : SolidEnds Byte.isBlank piece)
    (unquantified : ∀ word ∈ Word.next? piece 0, isQuantifier word = false) :
    FlatQuery.Unquantified piece := by
  obtain ⟨first, others, isPiece, firstSolid⟩ := solid.first
  have ahead : (piece.drop 0).dropWhile Byte.isBlank = piece := by
    rw [List.drop_zero, isPiece, List.dropWhile_cons_of_neg (by simp [firstSolid])]
  intro quantifier listed
  rw [Bool.eq_false_iff]
  intro same
  have letters : ∀ byte ∈ piece.takeWhile Byte.isWordByte, Byte.isLetter byte = true := by
    have isLetters : ∀ quantifier ∈ ["DISTINCT", "ALL"],
        (Bytes.ofString quantifier).all Byte.isLetter = true := by decide
    rw [Bytes.sameIgnoringCase, beq_iff_eq] at same
    exact Keyword.isLetter_of_mem_spelled same (List.all_eq_true.mp (isLetters quantifier listed))
  cases spelled : piece.takeWhile Byte.isWordByte with
  | nil =>
    rw [spelled] at same
    revert quantifier
    decide
  | cons letter more =>
    have isLetter := letters letter (spelled ▸ List.mem_cons_self)
    have starts : Byte.startsWord letter = true := by
      simp only [Byte.startsWord, isLetter, Bool.true_or]
    obtain ⟨span, next⟩ : ∃ span, Word.next? piece 0 = some ⟨letter :: more, span⟩ :=
      ⟨_, by
        rw [Word.next?_eq_ahead?]
        simp only [Word.ahead?, ahead, spelled, starts, if_true]
        rfl⟩
    have notQuantifier := unquantified _ next
    rw [spelled] at same
    simp only [isQuantifier, Word.is, Bool.or_eq_false_iff] at notQuantifier
    simp only [List.mem_cons, List.not_mem_nil, or_false] at listed
    rcases listed with rfl | rfl
    · rw [notQuantifier.1] at same
      cases same
    · rw [notQuantifier.2] at same
      cases same

/-- A select list begins behind a quantifier. -/
theorem selectListOffset?_quantified {quantifier : String} (listed : quantifier ∈ ["DISTINCT", "ALL"])
    (rest : Bytes) :
    selectListOffset? (Bytes.ofString "SELECT" ++
      Byte.space :: (Bytes.ofString quantifier ++ Byte.space :: rest)) =
        some (7 + (Bytes.ofString quantifier).length) := by
  have next : (Word.next? (Bytes.ofString "SELECT" ++
      Byte.space :: (Bytes.ofString quantifier ++ Byte.space :: rest)) 6).filter isQuantifier =
        some ⟨Bytes.ofString quantifier, ⟨7, 7 + (Bytes.ofString quantifier).length⟩⟩ := by
    simp only [List.mem_cons, List.not_mem_nil, or_false] at listed
    rw [Word.next?_eq_ahead?]
    rcases listed with rfl | rfl
    · rfl
    · rfl
  rw [selectListOffset?_eq, FlatQuery.find?_select, Option.map_some]
  simp only [behindQuantifier, next]

/-- The select list of an assembled statement begins behind `SELECT` and the quantifier. -/
theorem exists_front {quantifier : String} (listed : quantifier ∈ ["", "DISTINCT ", "ALL "])
    (contained : Clause.selectList.SelfContained (Bytes.ofString selected))
    (unquantified : ∀ word ∈ Word.next? (Bytes.ofString selected) 0, isQuantifier word = false)
    (source condition : String) :
    ∃ front : Bytes, Bytes.ofString (assembled quantifier selected source condition) =
        front ++ Byte.space :: behindSelect selected source condition ∧
      selectListOffset? (front ++ Byte.space :: behindSelect selected source condition) =
        some front.length := by
  have spelled : Bytes.ofString (assembled quantifier selected source condition) =
      Bytes.ofString "SELECT" ++ Byte.space :: (Bytes.ofString quantifier ++
        behindSelect selected source condition) := by
    simp only [assembled, behindSelect, Continuation.ofString_append, List.append_assoc]
    rfl
  have quantified {word : String} (isWord : word ∈ ["DISTINCT", "ALL"]) :
      selectListOffset? ((Bytes.ofString "SELECT" ++ Byte.space :: Bytes.ofString word) ++
        Byte.space :: behindSelect selected source condition) =
          some (Bytes.ofString "SELECT" ++ Byte.space :: Bytes.ofString word).length := by
    have length : (Bytes.ofString "SELECT" ++ Byte.space :: Bytes.ofString word).length =
        7 + (Bytes.ofString word).length := by
      rw [List.length_append, List.length_cons, Nat.add_comm _ 1, ← Nat.add_assoc]
      rfl
    rw [List.append_assoc, List.cons_append, length]
    exact selectListOffset?_quantified isWord _
  simp only [List.mem_cons, List.not_mem_nil, or_false] at listed
  rcases listed with rfl | rfl | rfl
  · exact ⟨Bytes.ofString "SELECT", spelled, FlatQuery.selectListOffset?_select contained.solidEnds
      (unquantified_of_next? contained.solidEnds unquantified) _⟩
  · exact ⟨_, spelled, quantified (List.mem_cons_self)⟩
  · exact ⟨_, spelled, quantified (List.mem_cons_of_mem _ List.mem_cons_self)⟩

/-- Code that goes on with three self-contained pieces where its select list begins. -/
theorem extract_ofCode {code front selected source condition : Bytes}
    (isCode : code = front ++ Byte.space :: (selected ++ Byte.space :: (Bytes.ofString "FROM" ++
      Byte.space :: (source ++ Byte.space :: (Bytes.ofString "WHERE" ++ Byte.space :: condition)))))
    (offset : selectListOffset? code = some front.length)
    (selectList : Clause.selectList.SelfContained selected)
    (fromClause : Clause.fromClause.SelfContained source)
    (whereClause : Clause.whereClause.SelfContained condition) :
    let clauses := (ofCode code).value
    code.extract clauses.selectList.start clauses.selectList.stop = selected ∧
      code.extract clauses.fromClause.start clauses.fromClause.stop = source ∧
      code.extract clauses.whereClause.start clauses.whereClause.stop = condition := by
  intro clauses
  let beforeSource := opened front selected (Bytes.ofString "FROM")
  let beforeCondition := opened beforeSource source (Bytes.ofString "WHERE")
  have atSource : code = beforeSource ++ Byte.space :: (source ++
      Byte.space :: (Bytes.ofString "WHERE" ++ Byte.space :: condition)) :=
    isCode.trans (append_opened _ _ _ _).symm
  have atCondition : code = beforeCondition ++ Byte.space :: condition :=
    atSource.trans (append_opened _ _ _ _).symm
  have first : Clauses.first code = (⟨front.length + 1, front.length + 1 + selected.length⟩,
      some ⟨.fromClause, beforeSource.length⟩) := by
    simp only [Clauses.first, offset]
    rw [length_opened, isCode]
    exact read_before selectList firstTerminator_from _
  have second : (Clause.fromClause.read code beforeSource.length).value =
      (⟨beforeSource.length + 1, beforeSource.length + 1 + source.length⟩,
        some ⟨.whereClause, beforeCondition.length⟩) := by
    rw [length_opened beforeSource, atSource]
    exact read_before fromClause firstTerminator_where _
  have third : (Clause.whereClause.read code beforeCondition.length).value =
      (⟨beforeCondition.length + 1, beforeCondition.length + 1 + condition.length⟩, none) := by
    rw [atCondition]
    exact read_last whereClause
  have isValue : clauses = ⟨⟨front.length + 1, front.length + 1 + selected.length⟩,
      ⟨beforeSource.length + 1, beforeSource.length + 1 + source.length⟩,
      ⟨beforeCondition.length + 1, beforeCondition.length + 1 + condition.length⟩⟩ := by
    simp only [clauses, value_ofCode, first, readIf, if_true, second, third]
  rw [isValue]
  refine ⟨?_, ?_, ?_⟩
  · rw [isCode]
    exact extract_behind _ _ _
  · rw [atSource]
    exact extract_behind _ _ _
  · rw [atCondition, ← List.append_nil condition]
    simpa only [List.append_nil] using extract_behind beforeCondition condition []

/-- Taking an assembled statement apart yields the pieces it was assembled from. -/
theorem ofCode_assembled (quantifier : String) (listed : quantifier ∈ ["", "DISTINCT ", "ALL "])
    (selected source condition : String)
    (selectList : Clause.selectList.SelfContained (Bytes.ofString selected))
    (unquantified : ∀ word ∈ Word.next? (Bytes.ofString selected) 0, isQuantifier word = false)
    (fromClause : Clause.fromClause.SelfContained (Bytes.ofString source))
    (whereClause : Clause.whereClause.SelfContained (Bytes.ofString condition)) :
    let code := Bytes.ofString (assembled quantifier selected source condition)
    let clauses := (ofCode code).value
    (ofCode code).sound = true ∧
      Bytes.cut code clauses.selectList = ⟨Bytes.ofString selected, true⟩ ∧
      Bytes.cut code clauses.fromClause = ⟨Bytes.ofString source, true⟩ ∧
      Bytes.cut code clauses.whereClause = ⟨Bytes.ofString condition, true⟩ := by
  intro code clauses
  obtain ⟨front, isCode, offset⟩ := exists_front listed selectList unquantified source condition
  rw [← isCode] at offset
  obtain ⟨isSelected, isSource, isCondition⟩ :=
    extract_ofCode isCode offset selectList fromClause whereClause
  have cuts := cutBoth_ofCode (Overlay.refl ⟨_, rfl⟩ : Overlay code code)
  refine ⟨sound_ofCode ⟨_, rfl⟩, ?_, ?_, ?_⟩
  · rw [Bytes.cut, isSelected, cuts.1.inCode.admits]
  · rw [Bytes.cut, isSource, cuts.2.1.inCode.admits]
  · rw [Bytes.cut, isCondition, cuts.2.2.inCode.admits]

/-- Pieces with keywords inside parentheses, a parenthesis too many and half a keyword at the end. -/
theorem ofCode_assembled_nested :
    let selected := "distinction, (SELECT MAX(b) FROM u) ORDER"
    let source := "t) JOIN (SELECT c FROM v WHERE d = 1) w ON w.c = t.a GROUP"
    let condition := "a IN (SELECT e FROM x LIMIT 1) AND b FROM c WHERE d"
    let code := Bytes.ofString (assembled "DISTINCT " selected source condition)
    let clauses := (ofCode code).value
    (ofCode code).sound = true ∧
      Bytes.cut code clauses.selectList = ⟨Bytes.ofString selected, true⟩ ∧
      Bytes.cut code clauses.fromClause = ⟨Bytes.ofString source, true⟩ ∧
      Bytes.cut code clauses.whereClause = ⟨Bytes.ofString condition, true⟩ :=
  ofCode_assembled "DISTINCT " (by decide) _ _ _ (by decide +kernel) (by decide +kernel)
    (by decide +kernel) (by decide +kernel)

end Clauses

end QueryScope
