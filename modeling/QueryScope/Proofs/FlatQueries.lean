import Mathlib.Data.List.Basic
import QueryScope.Proofs.LetterCase
import QueryScope.Proofs.KeywordHits
import QueryScope.Proofs.Levels

/-!
# Flat queries

A query without parentheses is a single scope, and nothing in it is masked. When it is made of
`SELECT`, a select list, `FROM` and a FROM clause, and no keyword is met inside the two lists, then
these are the clauses into which it is taken apart.

No keyword is met in a word other than the first word of a keyword, and none at a mark such as a
comma or a blank. So a search passes over such a word when a mark ends it.
-/

namespace QueryScope

namespace Keyword

/-- The byte of a semicolon, the only keyword that is no word. -/
def semicolon : UInt8 := 0x3B

/-- Bytes that belong to no word, are no parentheses and begin no keyword. -/
def isMark (byte : UInt8) : Bool :=
  !Byte.isWordByte byte && !isParenthesis byte && byte != semicolon

/-- Whether a keyword is the semicolon or begins with a whole word of letters. -/
def isOrderly (keyword : Keyword) : Bool :=
  match keyword.words with
  | [] => false
  | first :: _ =>
    first == [semicolon]
      || (keyword.beginsWord && !first.isEmpty && first.all Byte.isLetter)

/-- Whether a word is not the first one of a keyword, in any case. -/
def isForeign (word : Bytes) (keyword : Keyword) : Bool :=
  keyword.words.head?.all fun first => !Bytes.sameIgnoringCase word first

/-- How an orderly keyword begins. -/
theorem exists_first_of_isOrderly {keyword : Keyword} (orderly : keyword.isOrderly = true) :
    ∃ first others, keyword.words = first :: others ∧
      (first = [semicolon] ∨
        keyword.beginsWord = true ∧ first ≠ [] ∧ ∀ byte ∈ first, Byte.isLetter byte = true) := by
  rw [isOrderly] at orderly
  split at orderly
  · cases orderly
  · rename_i first others words
    refine ⟨first, others, words, ?_⟩
    simpa [and_assoc] using orderly

/-- A byte that is a letter in another case is a letter. -/
theorem isLetter_of_mem_spelled {spelled word : Bytes}
    (same : spelled.map Byte.upper = word.map Byte.upper)
    (letters : ∀ byte ∈ word, Byte.isLetter byte = true) :
    ∀ byte ∈ spelled, Byte.isLetter byte = true := by
  intro byte member
  have capital : Byte.upper byte ∈ word.map Byte.upper := by
    rw [← same]
    exact List.mem_map_of_mem member
  obtain ⟨letter, isLetter, sameCapital⟩ := List.mem_map.mp capital
  rw [← (Byte.sameClasses_upper byte).letter, ← sameCapital, (Byte.sameClasses_upper letter).letter]
  exact letters letter isLetter

/-- A letter belongs to a word. -/
theorem isWordByte_of_isLetter {byte : UInt8} (letter : Byte.isLetter byte = true) :
    Byte.isWordByte byte = true := by
  simp only [Byte.isWordByte, letter, Bool.true_or]

/-- A word is not met at a byte that differs from its first one by more than case. -/
theorem stripWord?_of_first_ne {first byte : UInt8} (differs : Byte.upper byte ≠ Byte.upper first)
    (others rest : Bytes) : stripWord? (first :: others) (byte :: rest) = none := by
  rw [Option.eq_none_iff_forall_ne_some]
  intro behind stripped
  obtain ⟨other, _, whole, same⟩ := exists_first_of_stripWord? List.head?_cons stripped
  rw [(List.cons.inj whole).1] at differs
  exact differs same

/-- A word of letters is not met at any other byte. -/
theorem stripWord?_of_not_letter {word : Bytes} (nonempty : word ≠ [])
    (letters : ∀ byte ∈ word, Byte.isLetter byte = true) {byte : UInt8}
    (notLetter : Byte.isLetter byte = false) (rest : Bytes) :
    stripWord? word (byte :: rest) = none := by
  cases word with
  | nil => exact absurd rfl nonempty
  | cons first others =>
    apply stripWord?_of_first_ne
    intro same
    have letter := letters first List.mem_cons_self
    rw [← (Byte.sameClasses_upper first).letter, ← same, (Byte.sameClasses_upper byte).letter,
      notLetter] at letter
    cases letter

/-- The semicolon is not met at any other byte. -/
theorem stripWord?_semicolon {byte : UInt8} (different : byte ≠ semicolon) (rest : Bytes) :
    stripWord? [semicolon] (byte :: rest) = none := by
  apply stripWord?_of_first_ne
  intro isSemicolon
  rcases Byte.eq_or_eq_of_upper_eq isSemicolon with rfl | rfl
  · exact different rfl
  · exact absurd isSemicolon (by decide)

/-- A word of letters is not met in another word that is read to its end. -/
theorem stripWord?_of_foreign {first : Bytes} (nonempty : first ≠ [])
    (letters : ∀ byte ∈ first, Byte.isLetter byte = true) {word : Bytes}
    (isWord : ∀ byte ∈ word, Byte.isWordByte byte = true)
    (foreign : Bytes.sameIgnoringCase word first = false) {rest : Bytes}
    (ends : rest.head?.any Byte.isWordByte = false) :
    stripWord? first (word ++ rest) = none := by
  cases stripped : stripWord? first (word ++ rest) with
  | none => rfl
  | some behind =>
    have notSame {spelled : Bytes} (same : spelled.map Byte.upper = first.map Byte.upper) :
        spelled ≠ word := by
      rintro rfl
      rw [Bytes.sameIgnoringCase, same, beq_self_eq_true] at foreign
      cases foreign
    obtain ⟨spelled, whole, same⟩ := exists_spelled_of_stripWord? stripped
    have goesOn : behind.head?.any Byte.isWordByte = false := by
      have begins : startsWithLetter first = true := by
        cases first with
        | nil => exact absurd rfl nonempty
        | cons letter others => exact letters letter List.mem_cons_self
      simp only [stripWord?, Option.ite_none_right_eq_some, Bool.and_eq_true, begins, Bool.true_and,
        Bool.not_eq_true', Option.some.injEq] at stripped
      rw [← stripped.2]
      exact stripped.1.2
    -- The spelled word ends inside the other word, with it, or behind it.
    rcases List.append_eq_append_iff.mp whole with ⟨more, isSpelled, isRest⟩ | ⟨more, isWord', isBehind⟩
    · cases more with
      | nil => exact absurd (isSpelled.trans (List.append_nil word)) (notSame same)
      | cons byte others =>
        have letter := isLetter_of_mem_spelled same letters byte (by simp [isSpelled])
        rw [isRest, List.cons_append, List.head?_cons, Option.any_some,
          isWordByte_of_isLetter letter] at ends
        cases ends
    · cases more with
      | nil => exact absurd (isWord'.trans (List.append_nil spelled)).symm (notSame same)
      | cons byte others =>
        rw [isBehind, List.cons_append, List.head?_cons, Option.any_some,
          isWord byte (by simp [isWord'])] at goesOn
        cases goesOn

/-- A keyword is not met where its first word is not. -/
theorem strip?_of_none {keyword : Keyword} {first : Bytes} {others : List Bytes} {ahead : Bytes}
    (words : keyword.words = first :: others) (none : stripWord? first ahead = none) :
    keyword.strip? ahead = .none := by
  simp only [strip?, words, none, Option.bind_none]

variable {keywords : List Keyword}

/-- None of the keywords is met when each of them is not. -/
theorem first?_eq_none {insideWord : Bool} {ahead : Bytes}
    (unmet : ∀ keyword ∈ keywords, (keyword.beginsWord = true ∧ insideWord = true) ∨
      keyword.strip? ahead = none) (index : Nat) : first? insideWord ahead index keywords = none := by
  rw [first?_eq_none_iff]
  intro keyword member
  rcases unmet keyword member with ⟨begins, inside⟩ | unspelled
  · rw [meets, begins, inside]
    rfl
  · rw [meets, unspelled, Option.isSome_none, Bool.and_false]

/-- A search goes on behind a byte at which no keyword is met. -/
theorem searchFrom_unmet {insideWord : Bool} {byte : UInt8} {rest : Bytes}
    (unmet : first? insideWord (byte :: rest) 0 keywords = none)
    (notParenthesis : isParenthesis byte = false) (offset : Nat) :
    searchFrom keywords offset 0 insideWord (byte :: rest) =
      searchFrom keywords (offset + 1) 0 (Byte.isWordByte byte) rest := by
  rw [searchFrom, unmet, ite_self, depthAfter_of_not_isParenthesis notParenthesis]

/-- A byte of a word is no parenthesis. -/
theorem not_isParenthesis_of_isWordByte {byte : UInt8} (isWord : Byte.isWordByte byte = true) :
    isParenthesis byte = false := by
  simp only [isParenthesis, Bool.or_eq_false_iff, beq_eq_false_iff_ne]
  constructor
  all_goals
    rintro rfl
    exact absurd isWord (by decide)

variable (orderly : ∀ keyword ∈ keywords, keyword.isOrderly = true)
include orderly

/-- No keyword is met at a mark. -/
theorem first?_of_isMark (insideWord : Bool) {byte : UInt8} (mark : isMark byte = true)
    (rest : Bytes) (index : Nat) : first? insideWord (byte :: rest) index keywords = none := by
  simp only [isMark, Bool.and_eq_true, Bool.not_eq_true', bne_iff_ne] at mark
  obtain ⟨⟨notWord, _⟩, notSemicolon⟩ := mark
  apply first?_eq_none
  intro keyword member
  obtain ⟨first, others, words, rfl | ⟨_, nonempty, letters⟩⟩ :=
    exists_first_of_isOrderly (orderly keyword member)
  · exact .inr (strip?_of_none words (stripWord?_semicolon notSemicolon rest))
  · have notLetter : Byte.isLetter byte = false := by
      rw [Bool.eq_false_iff]
      intro letter
      rw [isWordByte_of_isLetter letter] at notWord
      cases notWord
    exact .inr (strip?_of_none words (stripWord?_of_not_letter nonempty letters notLetter rest))

/-- No keyword is met inside a word. -/
theorem first?_insideWord {byte : UInt8} (isWord : Byte.isWordByte byte = true) (rest : Bytes)
    (index : Nat) : first? true (byte :: rest) index keywords = none := by
  apply first?_eq_none
  intro keyword member
  obtain ⟨first, others, words, rfl | ⟨begins, _⟩⟩ :=
    exists_first_of_isOrderly (orderly keyword member)
  · refine .inr (strip?_of_none words (stripWord?_semicolon ?_ rest))
    rintro rfl
    exact absurd isWord (by decide)
  · exact .inl ⟨begins, rfl⟩

/-- No keyword is met in a word that is foreign to all of them. -/
theorem first?_of_foreign {first : UInt8} {others : Bytes}
    (isWord : ∀ byte ∈ first :: others, Byte.isWordByte byte = true)
    (foreign : ∀ keyword ∈ keywords, isForeign (first :: others) keyword = true) {rest : Bytes}
    (ends : rest.head?.any Byte.isWordByte = false) (index : Nat) :
    first? false (first :: (others ++ rest)) index keywords = none := by
  apply first?_eq_none
  intro keyword member
  obtain ⟨word, words, isWords, rfl | ⟨_, nonempty, letters⟩⟩ :=
    exists_first_of_isOrderly (orderly keyword member)
  · refine .inr (strip?_of_none isWords (stripWord?_semicolon ?_ _))
    rintro rfl
    exact absurd (isWord _ List.mem_cons_self) (by decide)
  · have different := foreign keyword member
    rw [isForeign, isWords, List.head?_cons, Option.all_some, Bool.not_eq_true'] at different
    exact .inr (strip?_of_none isWords (stripWord?_of_foreign nonempty letters isWord different ends))

/-- A search passes over a mark. -/
theorem searchFrom_mark (offset : Nat) (insideWord : Bool) {byte : UInt8}
    (mark : isMark byte = true) (rest : Bytes) :
    searchFrom keywords offset 0 insideWord (byte :: rest) =
      searchFrom keywords (offset + 1) 0 false rest := by
  have unmet := first?_of_isMark orderly insideWord mark rest 0
  simp only [isMark, Bool.and_eq_true, Bool.not_eq_true'] at mark
  rw [searchFrom_unmet unmet mark.1.2, mark.1.1]

/-- Inside a word a search passes over the rest of it. -/
theorem searchFrom_insideWord (offset : Nat) {word : Bytes}
    (isWord : ∀ byte ∈ word, Byte.isWordByte byte = true) (rest : Bytes) :
    searchFrom keywords offset 0 true (word ++ rest) =
      searchFrom keywords (offset + word.length) 0 true rest := by
  induction word generalizing offset with
  | nil => rfl
  | cons byte others inductionHypothesis =>
    have isWordByte := isWord byte List.mem_cons_self
    have behind := inductionHypothesis (offset + 1)
      fun other member => isWord other (List.mem_cons_of_mem _ member)
    rw [List.cons_append, searchFrom_unmet (first?_insideWord orderly isWordByte _ _)
      (not_isParenthesis_of_isWordByte isWordByte), isWordByte, behind, List.length_cons,
      Nat.add_assoc, Nat.add_comm 1]

/-- A search passes over a foreign word. -/
theorem searchFrom_foreign (offset : Nat) {word : Bytes} (nonempty : word ≠ [])
    (isWord : ∀ byte ∈ word, Byte.isWordByte byte = true)
    (foreign : ∀ keyword ∈ keywords, isForeign word keyword = true) {rest : Bytes}
    (ends : rest.head?.any Byte.isWordByte = false) :
    searchFrom keywords offset 0 false (word ++ rest) =
      searchFrom keywords (offset + word.length) 0 true rest := by
  cases word with
  | nil => exact absurd rfl nonempty
  | cons first others =>
    have isWordByte := isWord first List.mem_cons_self
    have behind := searchFrom_insideWord orderly (offset + 1)
      (fun other member => isWord other (List.mem_cons_of_mem _ member)) rest
    rw [List.cons_append, searchFrom_unmet (first?_of_foreign orderly isWord foreign ends 0)
      (not_isParenthesis_of_isWordByte isWordByte), isWordByte, behind, List.length_cons,
      Nat.add_assoc, Nat.add_comm 1]

omit orderly

/-- A piece of code that begins outside of words and ends with a mark, and that a search at top level
passes over whatever follows. -/
def Silent (keywords : List Keyword) (piece : Bytes) : Prop :=
  ∀ offset rest, searchFrom keywords offset 0 false (piece ++ rest) =
    searchFrom keywords (offset + piece.length) 0 false rest

/-- Nothing at all is silent: no keyword is met in it. -/
theorem silent_nil : Silent keywords [] := fun _ _ => rfl

/-- One silent piece after another. -/
theorem Silent.append {first second : Bytes} (front : Silent keywords first)
    (back : Silent keywords second) : Silent keywords (first ++ second) := by
  intro offset rest
  rw [List.append_assoc, front, back, List.length_append, Nat.add_assoc]

include orderly

/-- Marks are silent. -/
theorem silent_marks {marks : Bytes} (areMarks : ∀ byte ∈ marks, isMark byte = true) :
    Silent keywords marks := by
  induction marks with
  | nil => exact silent_nil
  | cons byte others inductionHypothesis =>
    have behind := inductionHypothesis fun other member => areMarks other (List.mem_cons_of_mem _ member)
    intro offset rest
    rw [List.cons_append, searchFrom_mark orderly _ _ (areMarks byte List.mem_cons_self), behind,
      List.length_cons, Nat.add_assoc, Nat.add_comm 1]

/-- A foreign word that a mark ends is silent. -/
theorem silent_word {word : Bytes} (nonempty : word ≠ [])
    (isWord : ∀ byte ∈ word, Byte.isWordByte byte = true)
    (foreign : ∀ keyword ∈ keywords, isForeign word keyword = true) {mark : UInt8}
    (isMark : isMark mark = true) : Silent keywords (word ++ [mark]) := by
  intro offset rest
  have ends : (mark :: rest).head?.any Byte.isWordByte = false := by
    simp only [Keyword.isMark, Bool.and_eq_true, Bool.not_eq_true'] at isMark
    exact isMark.1.1
  rw [List.append_assoc, List.singleton_append,
    searchFrom_foreign orderly offset nonempty isWord foreign ends, searchFrom_mark orderly _ _ isMark,
    List.length_append, List.length_singleton, Nat.add_assoc]

omit orderly

/-- A search from the end of some code on. -/
theorem find?_append (sought : List Keyword) (front ahead : Bytes) :
    find? (front ++ ahead) front.length sought =
      searchFrom sought front.length 0 (front.getLast?.any Byte.isWordByte) ahead := by
  have within : min front.length (front ++ ahead).length = front.length := by
    rw [List.length_append]
    omega
  rw [find?_eq_searchFrom, within, List.take_left, List.drop_left]

/-- A search from the end of some code on, before a mark. -/
theorem find?_append_mark {sought : List Keyword}
    (orderly : ∀ keyword ∈ sought, keyword.isOrderly = true) (front : Bytes) {mark : UInt8}
    (isMark : isMark mark = true) (ahead : Bytes) :
    find? (front ++ mark :: ahead) front.length sought =
      searchFrom sought (front.length + 1) 0 false ahead := by
  rw [find?_append, searchFrom_mark orderly _ _ isMark]

/-- A keyword of one word is met where it is spelled and ended. -/
theorem searchFrom_spelled {keyword : Keyword} {word : Bytes} (words : keyword.words = [word])
    (begins : word.head?.any Byte.isWordByte = true) (later : List Keyword) (offset : Nat)
    {rest : Bytes} (ends : rest.head?.any Byte.isWordByte = false) :
    searchFrom (keyword :: later) offset 0 false (word ++ rest) =
      some ⟨0, ⟨offset, offset + word.length⟩⟩ := by
  have stripped : stripWord? word (word ++ rest) = some rest := by
    simp only [stripWord?, List.take_left, List.drop_left, ends, Bytes.sameIgnoringCase,
      beq_self_eq_true, Bool.and_false, Bool.not_false, Bool.and_self, if_true]
  have met : first? false (word ++ rest) 0 (keyword :: later) = some (0, rest) := by
    simp only [first?, Bool.and_false, Bool.false_eq_true, if_false, strip?, words, stripped,
      Option.bind_some, stripSpaced?]
  cases word with
  | nil => cases begins
  | cons first others =>
    have atTop : (!isParenthesis first && (0 : Nat) == 0) = true := by
      rw [not_isParenthesis_of_isWordByte begins]
      rfl
    rw [List.cons_append] at met ⊢
    rw [searchFrom, if_pos atTop, met]
    simp only [List.length_cons, List.length_append, Option.some.injEq, Hit.mk.injEq, Span.mk.injEq,
      true_and]
    omega

end Keyword

/-- A list that neither begins nor ends with a blank. -/
structure SolidEnds {α : Type} (blank : α → Bool) (list : List α) : Prop where
  first : ∃ first rest, list = first :: rest ∧ blank first = false
  last : ∃ front last, list = front ++ [last] ∧ blank last = false

namespace Bytes

/-- Trimming a piece that is solid but for blanks at its ends. -/
theorem value_trim_solid {bytes : Bytes} (span : Span) {lead middle trail : Bytes}
    (piece : bytes.extract span.start span.stop = lead ++ (middle ++ trail))
    (stops : span.stop = span.start + (lead.length + (middle.length + trail.length)))
    (blankLead : ∀ byte ∈ lead, Byte.isBlank byte = true)
    (blankTrail : ∀ byte ∈ trail, Byte.isBlank byte = true)
    (solid : SolidEnds Byte.isBlank middle) :
    (trim bytes span).value =
      ⟨span.start + lead.length, span.start + lead.length + middle.length⟩ := by
  obtain ⟨first, others, isMiddle, firstSolid⟩ := solid.first
  have isLeading : leading (lead ++ (middle ++ trail)) = lead.length := by
    rw [leading, List.takeWhile_append_of_pos blankLead, isMiddle, List.cons_append,
      List.takeWhile_cons_of_neg (by simp [firstSolid]), List.append_nil]
  obtain ⟨front, last, isMiddle, lastSolid⟩ := solid.last
  have isTrailing : trailing (lead ++ (middle ++ trail)) = trail.length := by
    have blankReverse : ∀ byte ∈ trail.reverse, Byte.isBlank byte = true :=
      fun byte member => blankTrail byte (List.mem_reverse.mp member)
    rw [trailing, isLeading, List.drop_left, List.reverse_append,
      List.takeWhile_append_of_pos blankReverse, isMiddle, List.reverse_append,
      List.reverse_singleton, List.singleton_append,
      List.takeWhile_cons_of_neg (by simp [lastSolid]), List.append_nil, List.length_reverse]
  have within : span.stop ≤ bytes.length := by
    have lengths := congrArg List.length piece
    rw [List.extract_eq_take_drop, List.length_take, List.length_drop] at lengths
    simp only [List.length_append, isMiddle, List.length_singleton] at lengths stops
    omega
  rw [value_trim within, piece, isLeading, isTrailing, stops, Span.mk.injEq]
  omega

end Bytes

namespace Word

/-- The spelling of the next word is the run of word bytes behind the blanks. -/
theorem spelling_of_next? {code : Bytes} {offset : Nat} {word : Word}
    (next : next? code offset = some word) :
    word.spelling = ((code.drop offset).dropWhile Byte.isBlank).takeWhile Byte.isWordByte := by
  simp only [next?_eq_ahead?, ahead?] at next
  split at next
  · cases next
  · rename_i spelled
    split at next
    · cases next
      exact spelled.symm
    · cases next

end Word

namespace FlatQuery

open Keyword

/-- The code of a query with a select list and a FROM clause. -/
def statement (selected source : Bytes) : Bytes :=
  Bytes.ofString "SELECT" ++ Byte.space :: (selected ++ Byte.space ::
    (Bytes.ofString "FROM" ++ Byte.space :: source))

/-- The keywords that end a clause are orderly. -/
theorem isOrderly_of_mem_terminators (clause : Clause) :
    ∀ keyword ∈ clause.terminators.map (·.keyword), keyword.isOrderly = true := by
  rw [← List.all_eq_true]
  cases clause <;> decide

/-- A select list does not begin with a word that only says whether rows may repeat. -/
def Unquantified (selected : Bytes) : Prop :=
  ∀ quantifier ∈ ["DISTINCT", "ALL"],
    Bytes.sameIgnoringCase (selected.takeWhile Byte.isWordByte) (Bytes.ofString quantifier) = false

/-- A piece of code that no keyword of a clause is met in, with nothing to trim. -/
structure Closed (clause : Clause) (piece : Bytes) : Prop where
  silent : Silent (clause.terminators.map (·.keyword)) (piece ++ [Byte.space])
  solid : SolidEnds Byte.isBlank piece

variable {selected source : Bytes}

/-- Code that begins with `SELECT`. -/
theorem find?_select (ahead : Bytes) :
    find? (Bytes.ofString "SELECT" ++ Byte.space :: ahead) 0 [Keyword.ofString "SELECT"] =
      some ⟨0, ⟨0, 6⟩⟩ := by
  have isKeyword : (Keyword.ofString "SELECT").words = [Bytes.ofString "SELECT"] := by
    decide
  exact (find?_append _ [] _).trans (searchFrom_spelled isKeyword (by decide) [] 0 rfl)

/-- The select list begins right behind `SELECT`. -/
theorem selectListOffset?_select (solid : SolidEnds Byte.isBlank selected)
    (unquantified : Unquantified selected) (rest : Bytes) :
    Clauses.selectListOffset?
      (Bytes.ofString "SELECT" ++ Byte.space :: (selected ++ Byte.space :: rest)) = some 6 := by
  have quantifier : (Word.next? (Bytes.ofString "SELECT" ++
      Byte.space :: (selected ++ Byte.space :: rest)) 6).filter Clauses.isQuantifier = none := by
    rw [Option.filter_eq_none_iff]
    intro word next
    have spelled := Word.spelling_of_next? next
    obtain ⟨first, others, isSelected, firstSolid⟩ := solid.first
    have ahead : ((Bytes.ofString "SELECT" ++ Byte.space :: (selected ++ Byte.space :: rest)).drop
        6).dropWhile Byte.isBlank = selected ++ Byte.space :: rest := by
      have behind : (Bytes.ofString "SELECT" ++ Byte.space :: (selected ++ Byte.space :: rest)).drop
          6 = Byte.space :: (selected ++ Byte.space :: rest) := rfl
      rw [behind, List.dropWhile_cons_of_pos (by decide), isSelected, List.cons_append,
        List.dropWhile_cons_of_neg (by simp [firstSolid])]
    rw [ahead, Window.takeWhile_append_stop (by decide)] at spelled
    simp only [Clauses.isQuantifier, Word.is, spelled, unquantified "DISTINCT" (by simp),
      unquantified "ALL" (by simp), Bool.or_self, Bool.false_eq_true, not_false_eq_true]
  rw [Clauses.selectListOffset?_eq, find?_select, Option.map_some]
  simp only [Clauses.behindQuantifier, quantifier]

/-- The select list of a statement begins right behind `SELECT`. -/
theorem selectListOffset?_statement (solid : SolidEnds Byte.isBlank selected)
    (unquantified : Unquantified selected) :
    Clauses.selectListOffset? (statement selected source) = some 6 :=
  selectListOffset?_select solid unquantified _

/-- The search behind `SELECT` ends at `FROM`. -/
theorem find?_statement_from (selectList : Closed .selectList selected) :
    Clause.find? (statement selected source) 6 Clause.selectList.terminators =
      some ⟨0, ⟨8 + selected.length, 12 + selected.length⟩⟩ := by
  have isKeyword : Clause.fromTerminator.keyword.words = [Bytes.ofString "FROM"] := by
    decide
  have silent := selectList.silent 7 (Bytes.ofString "FROM" ++ Byte.space :: source)
  rw [List.append_assoc, List.singleton_append, List.length_append, List.length_singleton] at silent
  calc find? (statement selected source) 6 (Clause.selectList.terminators.map (·.keyword))
      = searchFrom (Clause.selectList.terminators.map (·.keyword)) 7 0 false
          (selected ++ Byte.space :: (Bytes.ofString "FROM" ++ Byte.space :: source)) :=
        find?_append_mark (isOrderly_of_mem_terminators .selectList) (Bytes.ofString "SELECT")
          (by decide) _
    _ = searchFrom (Clause.selectList.terminators.map (·.keyword)) (7 + (selected.length + 1)) 0
          false (Bytes.ofString "FROM" ++ Byte.space :: source) := silent
    _ = some ⟨0, ⟨7 + (selected.length + 1), 7 + (selected.length + 1) + 4⟩⟩ :=
        searchFrom_spelled isKeyword (by decide) _ _ rfl
    _ = some ⟨0, ⟨8 + selected.length, 12 + selected.length⟩⟩ := by
        simp only [Option.some.injEq, Hit.mk.injEq, Span.mk.injEq, true_and]
        omega

/-- What stands in front of the FROM clause of such a query. -/
def beforeSource (selected : Bytes) : Bytes :=
  Bytes.ofString "SELECT" ++ Byte.space :: (selected ++ Byte.space :: Bytes.ofString "FROM")

/-- A statement is what stands before its source, a space, and the source. -/
theorem statement_eq_append (selected source : Bytes) :
    statement selected source = beforeSource selected ++ Byte.space :: source := by
  simp only [statement, beforeSource, List.append_assoc, List.cons_append]

/-- What stands before the source is as long as the selected columns and the twelve bytes of
`SELECT`, `FROM` and the spaces around the columns. -/
theorem length_beforeSource (selected : Bytes) :
    (beforeSource selected).length = 12 + selected.length := by
  have select : (Bytes.ofString "SELECT").length = 6 := by decide
  have source : (Bytes.ofString "FROM").length = 4 := by decide
  simp only [beforeSource, List.length_append, List.length_cons, select, source]
  omega

/-- The search behind `FROM` finds nothing. -/
theorem find?_statement_none (fromClause : Closed .fromClause source) :
    Clause.find? (statement selected source) (12 + selected.length)
      Clause.fromClause.terminators = none := by
  have blank := Byte.isBlank_of_mem_space
  have silent := fromClause.silent (12 + selected.length + 1) []
  rw [List.append_nil] at silent
  rw [Clause.find?_eq, statement_eq_append, ← length_beforeSource selected,
    find?_append_mark (isOrderly_of_mem_terminators .fromClause) _ (by decide),
    ← searchFrom_append_blank (Clause.fromClause.isSolid_of_mem_terminators) blank,
    length_beforeSource, silent]
  rfl

/-- Such a query is taken apart into its select list and its FROM clause. -/
theorem value_ofCode_statement (selectList : Closed .selectList selected)
    (fromClause : Closed .fromClause source) (unquantified : Unquantified selected) :
    (Clauses.ofCode (statement selected source)).value =
      ⟨⟨7, 7 + selected.length⟩,
        ⟨13 + selected.length, 13 + selected.length + source.length⟩, Span.absent⟩ := by
  have length : (statement selected source).length = 13 + selected.length + source.length := by
    rw [statement_eq_append, List.length_append, length_beforeSource, List.length_cons]
    omega
  have blank := Byte.isBlank_of_mem_space
  have selectPiece : (statement selected source).extract 6 (8 + selected.length) =
      [Byte.space] ++ (selected ++ [Byte.space]) := by
    have whole : statement selected source = Bytes.ofString "SELECT" ++
        (([Byte.space] ++ (selected ++ [Byte.space])) ++
          (Bytes.ofString "FROM" ++ Byte.space :: source)) := by
      simp only [statement, List.append_assoc, List.cons_append, List.nil_append]
    have starts : 6 = (Bytes.ofString "SELECT").length := by decide
    apply Window.extract_eq_of_append whole starts
    simp only [List.length_append, List.length_singleton]
    omega
  have fromPiece : (statement selected source).extract (12 + selected.length)
      (statement selected source).length = [Byte.space] ++ (source ++ []) := by
    have whole : statement selected source = beforeSource selected ++
        (([Byte.space] ++ (source ++ [])) ++ []) := by
      simp only [statement_eq_append, List.append_nil, List.singleton_append]
    apply Window.extract_eq_of_append whole (length_beforeSource selected).symm
    simp only [length, List.length_append, List.length_singleton, List.length_nil]
    omega
  have first : Clauses.first (statement selected source) =
      (⟨7, 7 + selected.length⟩, some ⟨.fromClause, 12 + selected.length⟩) := by
    have trimmed := Bytes.value_trim_solid ⟨6, 8 + selected.length⟩ selectPiece
      (by simp only [List.length_singleton]; omega) blank blank selectList.solid
    simp only [Clauses.first, selectListOffset?_statement selectList.solid unquantified,
      Clause.value_read, find?_statement_from selectList, Option.map_some, Option.getD_some,
      Option.bind_some, trimmed]
    rfl
  have second : (Clause.fromClause.read (statement selected source) (12 + selected.length)).value =
      (⟨13 + selected.length, 13 + selected.length + source.length⟩, none) := by
    have trimmed := Bytes.value_trim_solid
      ⟨12 + selected.length, (statement selected source).length⟩ fromPiece
      (by simp only [length, List.length_singleton, List.length_nil]; omega) blank
      (fun byte member => absurd member List.not_mem_nil) fromClause.solid
    simp only [Clause.value_read, find?_statement_none fromClause, Option.map_none,
      Option.getD_none, Option.bind_none, trimmed, List.length_singleton, Prod.mk.injEq,
      Span.mk.injEq, and_true]
    omega
  rw [Clauses.value_ofCode, first]
  simp only [Clause.readIf, if_true, second]

/-- The select list stands behind `SELECT`. -/
theorem extract_selected (selected source : Bytes) :
    (statement selected source).extract 7 (7 + selected.length) = selected := by
  have whole : statement selected source = (Bytes.ofString "SELECT" ++ [Byte.space]) ++
      (selected ++ Byte.space :: (Bytes.ofString "FROM" ++ Byte.space :: source)) := by
    simp only [statement, List.append_assoc, List.singleton_append]
  have starts : 7 = (Bytes.ofString "SELECT" ++ [Byte.space]).length := by decide
  exact Window.extract_eq_of_append whole starts rfl

/-- The FROM clause stands behind `FROM`. -/
theorem extract_source (selected source : Bytes) :
    (statement selected source).extract (13 + selected.length)
      (13 + selected.length + source.length) = source := by
  have whole : statement selected source =
      (beforeSource selected ++ [Byte.space]) ++ (source ++ []) := by
    rw [statement_eq_append, List.append_assoc, List.append_nil, List.singleton_append]
  apply Window.extract_eq_of_append whole ?_ rfl
  rw [List.length_append, length_beforeSource, List.length_singleton]
  omega

/-- Code without parentheses. -/
def Flat (code : Bytes) : Prop := ∀ byte ∈ code, isParenthesis byte = false

/-- Code without any parenthesis is flat. The condition can be computed. -/
theorem flat_of_all {code : Bytes} (checked : code.all (fun byte => !isParenthesis byte) = true) :
    Flat code := by
  intro byte member
  simpa using List.all_eq_true.mp checked byte member

/-- A statement with flat clauses is flat. -/
theorem flat_statement (selectList : Flat selected) (fromClause : Flat source) :
    Flat (statement selected source) := by
  have select : Flat (Bytes.ofString "SELECT" ++ [Byte.space]) := flat_of_all (by decide)
  have between : Flat ([Byte.space] ++ Bytes.ofString "FROM" ++ [Byte.space]) :=
    flat_of_all (by decide)
  have whole : statement selected source = (Bytes.ofString "SELECT" ++ [Byte.space]) ++
      (selected ++ (([Byte.space] ++ Bytes.ofString "FROM" ++ [Byte.space]) ++ source)) := by
    simp only [statement, List.append_assoc, List.cons_append, List.nil_append]
  rw [whole]
  exact List.forall_mem_append.mpr ⟨select, List.forall_mem_append.mpr ⟨selectList,
    List.forall_mem_append.mpr ⟨between, fromClause⟩⟩⟩

/-- Flat code has no pairs of parentheses. -/
theorem pairs_of_flat {code : Bytes} (flat : Flat code) : Subquery.pairs code = [] := by
  have fromAnywhere (offset : Nat) : Subquery.pairsFrom offset [] code = [] := by
    induction code generalizing offset with
    | nil => rfl
    | cons byte rest inductionHypothesis =>
      have notParenthesis := flat byte List.mem_cons_self
      simp only [isParenthesis, Bool.or_eq_false_iff, beq_eq_false_iff_ne] at notParenthesis
      rw [Subquery.pairsFrom, if_neg notParenthesis.1, if_neg notParenthesis.2]
      exact inductionHypothesis (fun other member => flat other (List.mem_cons_of_mem _ member)) _
  exact fromAnywhere 0

/-- A flat query is one scope, which is taken apart as it stands. -/
theorem extract_of_flat {query : String} (flat : Flat (codeOf query)) :
    extract query = [(Outline.main (Bytes.ofString query).length).assemble query []
      ⟨Bytes.ofString query, codeOf query, []⟩] := by
  have noSubqueries : subqueriesOf query = [] := by
    rw [subqueriesOf, Subquery.value_all, pairs_of_flat flat]
    rfl
  have onlyMain : outlinesOf query = [Outline.main (Bytes.ofString query).length] := by
    rw [outlinesOf, noSubqueries]
    rfl
  have noChildren : childrenIn query (Outline.main (Bytes.ofString query).length) = [] := by
    rw [childrenIn, onlyMain]
    rfl
  have unmasked : maskedOf query (Outline.main (Bytes.ofString query).length) =
      ⟨Bytes.ofString query, codeOf query, []⟩ := by
    have whole (bytes : Bytes) (same : bytes.length = (Bytes.ofString query).length) :
        bytes.extract 0 (Bytes.ofString query).length = bytes := by
      rw [Window.extract_zero, ← same, List.take_length]
    have wholeCode := whole (codeOf query) (CodeView.length_codeView _)
    rw [maskedOf, noChildren]
    simp only [Masked.mask, List.map_nil, List.filter_nil, List.mergeSort_nil, Masked.maskFrom,
      Checked.value_bind, Checked.value_pure, Bytes.cut, Outline.main, whole _ rfl, wholeCode]
  have content : ((Outline.main (Bytes.ofString query).length).content
      (Bytes.ofString query)).value = query := by
    change Bytes.text (Bytes.ofString query) = query
    rw [Bytes.text, Bytes.decode_ofString, String.ofList_toList]
  rw [extract_eq_map, onlyMain, List.map_singleton, scopeOf_eq_assemble, content, noChildren,
    unmasked]

end FlatQuery

end QueryScope
