import Mathlib.Data.List.Basic
import QueryScope.Proofs.AliasPlaces
import QueryScope.Proofs.SoundExtraction

/-!
# Where clauses stand

However broken a block is, its clauses are spans of it, in order and apart from each other, without
blanks at their ends. And a clause is over where it ends: on its own, its text has none of the
keywords at top level that could end it.

The last of these compares two searches. In the block, a search begins behind a keyword and meets the
terminator at which the clause ends; in the clause's text, it begins at the first byte that is not
blank and sees nothing behind the last. The two see the same words, because no word reaches over
either end of a clause.
-/

namespace QueryScope

/-! ## Searching a piece of code -/

namespace Keyword

/-- No word reaches from one piece of code into the next. -/
def Apart (piece more : Bytes) : Prop :=
  piece.getLast?.any Byte.isWordByte = true → more.head?.any Byte.isWordByte = false

/-- Nor from a part of the piece that ends with it. -/
theorem Apart.of_append {front piece more : Bytes} (apart : Apart (front ++ piece) more) :
    Apart piece more := by
  intro isWord
  apply apart
  cases piece using List.reverseRecOn with
  | nil => cases isWord
  | append_singleton others last =>
    rw [List.getLast?_concat] at isWord
    rwa [← List.append_assoc, List.getLast?_concat]

/-- Whether every word of a keyword that begins with a letter has only letters. -/
def isLettered (keyword : Keyword) : Bool :=
  keyword.words.all fun word => !startsWithLetter word || word.all Byte.isLetter

/-- A word that only letters spell, if it begins with one. -/
structure LetteredWord (word : Bytes) : Prop extends SolidWord word where
  letters : startsWithLetter word = true → ∀ byte ∈ word, Byte.isLetter byte = true

/-- Each word of a lettered keyword has bytes, and only letters spell it if it begins with one. -/
theorem letteredWord_of_isLettered {keyword : Keyword} (solid : keyword.isSolid = true)
    (lettered : keyword.isLettered = true) {word : Bytes} (member : word ∈ keyword.words) :
    LetteredWord word := by
  refine ⟨solidWord_of_isSolid solid member, ?_⟩
  intro begins
  have checked := List.all_eq_true.mp lettered word member
  rw [begins, Bool.not_true, Bool.false_or] at checked
  exact List.all_eq_true.mp checked

variable {more : Bytes}

/-- A word that is met in a piece of code is met there in the whole. -/
theorem stripWord?_append_of_apart {word ahead rest : Bytes} (lettered : LetteredWord word)
    (apart : Apart ahead more) (stripped : stripWord? word ahead = some rest) :
    stripWord? word (ahead ++ more) = some (rest ++ more) := by
  have lengths := length_of_stripWord?_eq_some stripped
  have enough : word.length ≤ ahead.length := by omega
  obtain ⟨spelled, isAhead, same⟩ := exists_spelled_of_stripWord? stripped
  simp only [stripWord?, Option.ite_none_right_eq_some, Bool.and_eq_true, Bool.not_eq_true',
    Bool.and_eq_false_imp, Option.some.injEq] at stripped ⊢
  obtain ⟨⟨met, ended⟩, isRest⟩ := stripped
  rw [List.take_append_of_le_length enough, List.drop_append_of_le_length enough, isRest]
  rw [isRest] at ended
  refine ⟨⟨met, ?_⟩, rfl⟩
  intro begins
  cases rest with
  | cons byte others => exact ended begins
  | nil =>
    -- The piece ends with the word, so it ends with a letter.
    rw [List.append_nil] at isAhead
    have letters := isLetter_of_mem_spelled same (lettered.letters begins)
    have nonempty : spelled ≠ [] := by
      rintro rfl
      rw [List.map_nil, eq_comm, List.map_eq_nil_iff] at same
      exact lettered.nonempty same
    apply apart
    rw [isAhead, List.getLast?_eq_some_getLast nonempty, Option.any_some]
    exact isWordByte_of_isLetter (letters _ (List.getLast_mem nonempty))

/-- So are further words. -/
theorem stripSpaced?_append_of_apart {words : List Bytes} {ahead rest : Bytes}
    (lettered : ∀ word ∈ words, LetteredWord word) (apart : Apart ahead more)
    (stripped : stripSpaced? words ahead = some rest) :
    stripSpaced? words (ahead ++ more) = some (rest ++ more) := by
  induction words generalizing ahead with
  | nil =>
    cases stripped
    rfl
  | cons word others inductionHypothesis =>
    have letteredWord := lettered word List.mem_cons_self
    simp only [stripSpaced?] at stripped
    split at stripped
    · rename_i blank
      obtain ⟨between, strippedWord, strippedOthers⟩ := Option.bind_eq_some_iff.mp stripped
      have something : ahead.dropWhile Byte.isBlank ≠ [] := by
        intro nothing
        rw [nothing, stripWord?_nil letteredWord.toSolidWord] at strippedWord
        cases strippedWord
      have blankStill : (ahead ++ more).head?.any Byte.isBlank = true := by
        cases ahead with
        | nil => cases blank
        | cons byte behind => exact blank
      have apartBlanks : Apart (ahead.dropWhile Byte.isBlank) more := by
        rw [← List.takeWhile_append_dropWhile (p := Byte.isBlank) (l := ahead)] at apart
        exact apart.of_append
      have apartBetween : Apart between more := by
        obtain ⟨spelled, isAhead, _⟩ := exists_spelled_of_stripWord? strippedWord
        rw [isAhead] at apartBlanks
        exact apartBlanks.of_append
      rw [stripSpaced?, if_pos blankStill, Padding.dropWhile_append_of_ne_nil something,
        stripWord?_append_of_apart letteredWord apartBlanks strippedWord, Option.bind_some]
      exact inductionHypothesis (fun other member => lettered other (List.mem_cons_of_mem _ member))
        apartBetween strippedOthers
    · cases stripped

/-- A keyword that is met in a piece of code is met there in the whole. -/
theorem strip?_append_of_apart {keyword : Keyword} {ahead rest : Bytes}
    (solid : keyword.isSolid = true) (lettered : keyword.isLettered = true)
    (apart : Apart ahead more) (stripped : keyword.strip? ahead = some rest) :
    keyword.strip? (ahead ++ more) = some (rest ++ more) := by
  have letteredWords : ∀ word ∈ keyword.words, LetteredWord word :=
    fun word member => letteredWord_of_isLettered solid lettered member
  simp only [strip?] at stripped ⊢
  cases words : keyword.words with
  | nil =>
    simp only [words] at stripped
    cases stripped
    rfl
  | cons first others =>
    rw [words] at letteredWords
    simp only [words] at stripped
    obtain ⟨between, strippedFirst, strippedOthers⟩ := Option.bind_eq_some_iff.mp stripped
    have apartBetween : Apart between more := by
      obtain ⟨spelled, isAhead, _⟩ := exists_spelled_of_stripWord? strippedFirst
      rw [isAhead] at apart
      exact apart.of_append
    simp only [stripWord?_append_of_apart (letteredWords first List.mem_cons_self) apart
      strippedFirst, Option.bind_some]
    exact stripSpaced?_append_of_apart
      (fun word member => letteredWords word (List.mem_cons_of_mem _ member)) apartBetween
      strippedOthers

/-- Keywords of which a search sees the same in a piece of code and in the whole: each is made of
words, and only one that begins with a letter must not begin inside a word. -/
structure Regular (keywords : List Keyword) : Prop where
  solid : ∀ keyword ∈ keywords, keyword.isSolid = true
  lettered : ∀ keyword ∈ keywords, keyword.isLettered = true
  orderly : ∀ keyword ∈ keywords, keyword.isOrderly = true
  begins : ∀ keyword ∈ keywords, keyword.beginsWord = true →
    keyword.words.head?.any startsWithLetter = true

/-- Of regular keywords all but the first are regular. -/
theorem Regular.tail {keyword : Keyword} {others : List Keyword}
    (regular : Regular (keyword :: others)) : Regular others where
  solid other member := regular.solid other (List.mem_cons_of_mem _ member)
  lettered other member := regular.lettered other (List.mem_cons_of_mem _ member)
  orderly other member := regular.orderly other (List.mem_cons_of_mem _ member)
  begins other member := regular.begins other (List.mem_cons_of_mem _ member)

variable {keywords : List Keyword}

/-- Where a keyword is met in a piece of code, one is met in the whole. -/
theorem isSome_first?_append (regular : Regular keywords) {ahead : Bytes}
    (apart : Apart ahead more) {insideWord : Bool} {index : Nat}
    (met : (first? insideWord ahead index keywords).isSome = true) :
    (first? insideWord (ahead ++ more) index keywords).isSome = true := by
  rw [Option.isSome_iff_ne_none, Ne, first?_eq_none_iff] at met ⊢
  intro unmet
  apply met
  intro keyword member
  have unmetWholly := unmet keyword member
  cases stripped : keyword.strip? ahead with
  | none => rw [meets, stripped, Option.isSome_none, Bool.and_false]
  | some rest =>
    have wholly := strip?_append_of_apart (regular.solid keyword member)
      (regular.lettered keyword member) apart stripped
    rw [meets, wholly, Option.isSome_some] at unmetWholly
    rw [meets, stripped, Option.isSome_some, unmetWholly]

/-- A hit in a piece of code shows that there is one in the whole which begins inside the piece, at
the same place or before. -/
theorem exists_hit_of_piece (regular : Regular keywords) {piece : Bytes}
    (apart : Apart piece more) {offset depth : Nat} {insideWord : Bool} {hit : Hit}
    (found : searchFrom keywords offset depth insideWord piece = some hit) :
    ∃ first, searchFrom keywords offset depth insideWord (piece ++ more) = some first ∧
      first.span.start < offset + piece.length := by
  induction piece generalizing offset depth insideWord with
  | nil => cases found
  | cons byte rest inductionHypothesis =>
    rw [searchFrom] at found
    rw [List.cons_append, searchFrom]
    split
    · exact ⟨_, rfl, by simp only [List.length_cons]; omega⟩
    · rename_i unmet
      -- What is not met in the whole is not met in the piece.
      have unmetPiece : (if !isParenthesis byte && depth == 0 then
          first? insideWord (byte :: rest) 0 keywords else none) = none := by
        by_cases atTop : (!isParenthesis byte && depth == 0) = true
        · rw [if_pos atTop] at unmet ⊢
          rw [← Option.not_isSome_iff_eq_none]
          intro met
          have metWholly := isSome_first?_append regular apart met
          rw [List.cons_append, unmet] at metWholly
          cases metWholly
        · rw [if_neg atTop]
      rw [unmetPiece] at found
      have apartRest : Apart rest more := by
        rw [← List.singleton_append] at apart
        exact apart.of_append
      obtain ⟨first, foundWholly, inside⟩ := inductionHypothesis apartRest found
      exact ⟨first, foundWholly, by rw [List.length_cons]; omega⟩

/-- In front of a hit no word reaches into it. -/
theorem apart_of_find? (regular : Regular keywords) {code : Bytes} {offset : Nat} {hit : Hit}
    (found : find? code offset keywords = some hit) :
    Apart (code.take hit.span.start) (code.drop hit.span.start) := by
  obtain ⟨front, byte, rest, rfl, place, met⟩ := exists_met_of_find? found
  rw [place, List.take_left, List.drop_left]
  intro insideWord
  rw [insideWord] at met
  rw [List.head?_cons, Option.any_some, Bool.eq_false_iff]
  intro isWord
  rw [first?_insideWord regular.orderly isWord] at met
  cases met

/-- A keyword that must not begin inside a word is not met at a byte that belongs to no word. -/
theorem strip?_of_not_word {keyword : Keyword} {others : List Keyword}
    (regular : Regular (keyword :: others)) (begins : keyword.beginsWord = true) {byte : UInt8}
    (notWord : Byte.isWordByte byte = false) (rest : Bytes) :
    keyword.strip? (byte :: rest) = none := by
  have member : keyword ∈ keyword :: others := List.mem_cons_self
  obtain ⟨first, further, words, _⟩ := exists_first_of_isSolid (regular.solid keyword member)
  have startsFirst := regular.begins keyword member begins
  rw [words, List.head?_cons, Option.any_some] at startsFirst
  have lettered := letteredWord_of_isLettered (regular.solid keyword member)
    (regular.lettered keyword member) (words ▸ List.mem_cons_self : first ∈ keyword.words)
  have notLetter : Byte.isLetter byte = false := by
    rw [Bool.eq_false_iff]
    intro letter
    rw [isWordByte_of_isLetter letter] at notWord
    cases notWord
  exact strip?_of_none words
    (stripWord?_of_not_letter lettered.nonempty (lettered.letters startsFirst) notLetter rest)

/-- It does not matter for a choice whether a byte that belongs to no word stands behind one. -/
theorem first?_outside (regular : Regular keywords) (insideWord : Bool) {byte : UInt8}
    (notWord : Byte.isWordByte byte = false) (rest : Bytes) (index : Nat) :
    first? insideWord (byte :: rest) index keywords = first? false (byte :: rest) index keywords := by
  induction keywords generalizing index with
  | nil => rfl
  | cons keyword others inductionHypothesis =>
    have later := inductionHypothesis regular.tail (index + 1)
    simp only [first?, Bool.and_false, Bool.false_eq_true, if_false, later]
    split
    · rename_i both
      rw [Bool.and_eq_true] at both
      simp only [strip?_of_not_word regular both.1 notWord]
    · rfl

/-- Nor for a search. -/
theorem searchFrom_outside (regular : Regular keywords) (offset depth : Nat) (insideWord : Bool)
    {ahead : Bytes} (outside : ahead.head?.any Byte.isWordByte = false) :
    searchFrom keywords offset depth insideWord ahead =
      searchFrom keywords offset depth false ahead := by
  cases ahead with
  | nil => rfl
  | cons byte rest => rw [searchFrom, searchFrom, first?_outside regular insideWord outside]

/-- Behind a word that is met no word goes on. -/
theorem ended_of_stripWord? {word ahead rest : Bytes} (begins : startsWithLetter word = true)
    (stripped : stripWord? word ahead = some rest) : rest.head?.any Byte.isWordByte = false := by
  simp only [stripWord?, Option.ite_none_right_eq_some, Bool.and_eq_true, begins, Bool.true_and,
    Bool.not_eq_true', Option.some.injEq] at stripped
  rw [← stripped.2]
  exact stripped.1.2

/-- Nor behind further words. -/
theorem ended_of_stripSpaced? {first : Bytes} {others : List Bytes} {between rest : Bytes}
    (ended : startsWithLetter first = true → between.head?.any Byte.isWordByte = false)
    (begins : (first :: others).getLast?.any startsWithLetter = true)
    (stripped : stripSpaced? others between = some rest) :
    rest.head?.any Byte.isWordByte = false := by
  induction others generalizing first between with
  | nil =>
    cases stripped
    exact ended begins
  | cons word others inductionHypothesis =>
    simp only [stripSpaced?] at stripped
    split at stripped
    · obtain ⟨behind, strippedWord, strippedOthers⟩ := Option.bind_eq_some_iff.mp stripped
      rw [List.getLast?_cons_cons] at begins
      exact inductionHypothesis (ended_of_stripWord? · strippedWord) begins strippedOthers
    · cases stripped

/-- Whether the last word of a keyword begins with a letter. -/
def endsWord (keyword : Keyword) : Bool := keyword.words.getLast?.any startsWithLetter

/-- Nor behind a keyword. -/
theorem ended_of_strip? {keyword : Keyword} {ahead rest : Bytes} (ends : keyword.endsWord = true)
    (stripped : keyword.strip? ahead = some rest) : rest.head?.any Byte.isWordByte = false := by
  rw [endsWord] at ends
  cases words : keyword.words with
  | nil =>
    rw [words] at ends
    cases ends
  | cons first others =>
    rw [words] at ends
    simp only [strip?, words] at stripped
    obtain ⟨between, strippedFirst, strippedOthers⟩ := Option.bind_eq_some_iff.mp stripped
    exact ended_of_stripSpaced? (ended_of_stripWord? · strippedFirst) ends strippedOthers

/-- What is left when a keyword is taken stands at the end. -/
theorem exists_append_of_strip? {keyword : Keyword} {ahead rest : Bytes}
    (stripped : keyword.strip? ahead = some rest) : ∃ taken, ahead = taken ++ rest := by
  simp only [strip?] at stripped
  split at stripped
  · cases stripped
    exact ⟨[], rfl⟩
  · obtain ⟨between, strippedFirst, strippedOthers⟩ := Option.bind_eq_some_iff.mp stripped
    obtain ⟨spelled, rfl, same⟩ := exists_spelled_of_stripWord? strippedFirst
    obtain ⟨longer, lastSpelled, _, _, whole, _⟩ := exists_last_of_stripSpaced? [] same strippedOthers
    exact ⟨longer ++ lastSpelled, by rw [List.append_assoc, ← whole, List.nil_append]⟩

end Keyword

/-- An offset of some code at which no word goes on. -/
structure Entered (code : Bytes) (offset : Nat) : Prop where
  within : offset ≤ code.length
  ended : (code.drop offset).head?.any Byte.isWordByte = false

/-- Behind a hit no word goes on when its keyword ends with a word. -/
theorem entered_of_find? {code : Bytes} {start : Nat} {keywords : List Keyword} {hit : Keyword.Hit}
    (found : Keyword.find? code start keywords = some hit) {keyword : Keyword}
    (isKeyword : keywords[hit.index]? = some keyword) (ends : keyword.endsWord = true) :
    Entered code hit.span.stop := by
  obtain ⟨other, front, behind, rest, isOther, rfl, stripped, place⟩ :=
    Keyword.exists_keyword_of_find? found
  obtain rfl := Option.some.inj (isOther.symm.trans isKeyword)
  obtain ⟨taken, rfl⟩ := Keyword.exists_append_of_strip? stripped
  have stop : hit.span.stop = (front ++ taken).length := by
    rw [place]
    simp only [List.length_append]
    omega
  rw [stop, ← List.append_assoc]
  refine ⟨by simp only [List.length_append]; omega, ?_⟩
  rw [List.drop_left]
  exact Keyword.ended_of_strip? ends stripped

/-- A piece of code in front of which a search begins and behind which it meets the first keyword has
none on its own, without the blanks at its ends. -/
theorem find?_trimmed_eq_none {keywords : List Keyword} (regular : Keyword.Regular keywords)
    {code : Bytes} {offset stop : Nat} (entered : Entered code offset) (inOrder : offset ≤ stop)
    (within : stop ≤ code.length)
    (apart : Keyword.Apart (code.take stop) (code.drop stop))
    (unmet : ∀ hit ∈ Keyword.find? code offset keywords, stop ≤ hit.span.start) {trimmed : Span}
    (isTrimmed : Bytes.Trimmed code ⟨offset, stop⟩ trimmed) :
    Keyword.find? (code.extract trimmed.start trimmed.stop) 0 keywords = none := by
  have pieceLength := Window.length_extract code offset within
  have takenPiece : code.take stop = code.take offset ++ code.extract offset stop := by
    rw [List.extract_eq_take_drop, ← List.take_add, Nat.add_sub_cancel' inOrder]
  have inPiece : Keyword.searchFrom keywords (min offset code.length) 0
      ((code.take offset).getLast?.any Byte.isWordByte) (code.extract offset stop) = none := by
    by_contra somewhere
    obtain ⟨hit, found⟩ := Option.ne_none_iff_exists'.mp somewhere
    rw [takenPiece] at apart
    obtain ⟨first, foundFirst, inside⟩ := Keyword.exists_hit_of_piece regular apart.of_append found
    rw [Window.extract_append_drop code inOrder, ← Keyword.find?_eq_searchFrom] at foundFirst
    have behind := unmet first foundFirst
    rw [pieceLength, Nat.min_eq_left entered.within] at inside
    omega
  have outside : (code.extract offset stop).head?.any Byte.isWordByte = false := by
    rw [List.extract_eq_take_drop, List.head?_take]
    split
    · rfl
    · exact entered.ended
  -- Neither the blanks in front nor those behind are seen.
  rw [Keyword.searchFrom_outside regular _ _ _ outside,
    ← Window.extract_append_extract code isTrimmed.startLe
      (Nat.le_trans isTrimmed.inOrder isTrimmed.stopLe),
    ← Window.extract_append_extract code isTrimmed.inOrder isTrimmed.stopLe,
    Keyword.searchFrom_blank regular.solid _ _ _ _ (fun _ => rfl) isTrimmed.blankFront,
    Keyword.searchFrom_append_blank regular.solid isTrimmed.blankBack] at inPiece
  rw [← Nat.zero_add (_ + _), Keyword.searchFrom_shift, Option.map_eq_none_iff] at inPiece
  rw [Keyword.find?_eq_searchFrom, Nat.zero_min, List.drop_zero]
  exact inPiece

namespace Clause

/-- The keywords that end a clause are regular. -/
theorem regular_terminators (clause : Clause) :
    Keyword.Regular (clause.terminators.map (·.keyword)) where
  solid := clause.isSolid_of_mem_terminators
  lettered := by
    rw [← List.all_eq_true]
    cases clause <;> decide
  orderly := FlatQuery.isOrderly_of_mem_terminators clause
  begins := by cases clause <;> decide

/-- A clause where it stands in a block: inside of it, without blanks at the ends, and with none of
its terminators at top level. -/
structure Stands (clause : Clause) (code : Bytes) (span : Span) : Prop where
  inOrder : span.start ≤ span.stop
  within : span.stop ≤ code.length
  solidFirst : ∀ byte ∈ (code.extract span.start span.stop).head?, Byte.isBlank byte = false
  solidLast : ∀ byte ∈ (code.extract span.start span.stop).getLast?, Byte.isBlank byte = false
  unended : find? (code.extract span.start span.stop) 0 clause.terminators = none

/-- An absent clause. -/
theorem stands_absent (clause : Clause) (code : Bytes) : clause.Stands code Span.absent := by
  have nothing : code.extract Span.absent.start Span.absent.stop = [] := by
    rw [List.extract_eq_take_drop]
    rfl
  refine ⟨Nat.le_refl _, Nat.zero_le _, ?_, ?_, ?_⟩
  · simp [nothing]
  · simp [nothing]
  · rw [nothing, find?_eq, Keyword.find?_eq_searchFrom]
    rfl

/-- What a terminator opens begins where no word goes on. -/
theorem entered_of_ofHit? {terminators : List Terminator}
    (worded : ∀ terminator ∈ terminators, terminator.opens.isSome = true →
      terminator.keyword.endsWord = true) {code : Bytes} {hit : Keyword.Hit} {start : Nat}
    (found : find? code start terminators = some hit) :
    ∀ opening ∈ Opening.ofHit? terminators hit,
      opening.offset = hit.span.stop ∧ Entered code opening.offset := by
  intro opening opened
  obtain ⟨terminator, isTerminator, opens⟩ := Option.bind_eq_some_iff.mp opened
  obtain ⟨clause, opensClause, rfl⟩ := Option.map_eq_some_iff.mp opens
  have isKeyword : (terminators.map (·.keyword))[hit.index]? = some terminator.keyword := by
    rw [List.getElem?_map, isTerminator, Option.map_some]
  have ends := worded terminator (List.mem_of_getElem? isTerminator)
    (by rw [opensClause, Option.isSome_some])
  exact ⟨rfl, entered_of_find? found isKeyword ends⟩

/-- The terminators that open a clause end with a word. -/
theorem endsWord_of_mem_terminators (clause : Clause) : ∀ terminator ∈ clause.terminators,
    terminator.opens.isSome = true → terminator.keyword.endsWord = true := by
  cases clause <;> decide

/-- A clause that was read behind a bound, with what the terminator behind it opens. -/
structure Follows (clause : Clause) (code : Bytes) (bound : Nat) (read : Span × Option Opening) :
    Prop where
  stands : clause.Stands code read.1
  behind : read.1 ≠ Span.absent → bound ≤ read.1.start
  opened : ∀ opening ∈ read.2,
    Entered code opening.offset ∧ bound ≤ opening.offset ∧ read.1.stop ≤ opening.offset

/-- The offset at which a clause ends, with the blanks behind it. -/
structure EndsAt (clause : Clause) (code : Bytes) (offset stop : Nat) : Prop where
  inOrder : offset ≤ stop
  within : stop ≤ code.length
  apart : Keyword.Apart (code.take stop) (code.drop stop)
  unmet : ∀ hit ∈ find? code offset clause.terminators, stop ≤ hit.span.start

/-- A clause ends where its terminator begins, or with the block. -/
theorem endsAt (clause : Clause) {code : Bytes} {offset : Nat} (entered : Entered code offset) :
    clause.EndsAt code offset
      (((find? code offset clause.terminators).map (·.span.start)).getD code.length) := by
  have regular := clause.regular_terminators
  cases found : find? code offset clause.terminators with
  | none =>
    refine ⟨entered.within, Nat.le_refl _, ?_, ?_⟩
    · intro _
      rw [Option.map_none, Option.getD_none, List.drop_length]
      rfl
    · intro hit isHit
      rw [found] at isHit
      cases isHit
  | some hit =>
    have bounds := Keyword.span_of_find?_eq_some (Keyword.takesSpace_of_isSolid regular.solid) found
    refine ⟨bounds.1, Nat.le_trans (Nat.le_of_lt bounds.2.1) bounds.2.2,
      Keyword.apart_of_find? regular found, ?_⟩
    intro other isOther
    rw [found] at isOther
    cases isOther
    exact Nat.le_refl _

/-- A clause that is read where no word goes on follows the offset. -/
theorem follows_read (clause : Clause) {code : Bytes} {offset : Nat}
    (entered : Entered code offset) :
    clause.Follows code offset (clause.read code offset).value := by
  have ends := clause.endsAt entered
  have isTrimmed : Bytes.Trimmed code ⟨offset, _⟩ (clause.read code offset).value.1 :=
    Bytes.trimmed_trim ends.inOrder ends.within
  refine ⟨⟨isTrimmed.inOrder, Nat.le_trans isTrimmed.stopLe ends.within, isTrimmed.solid,
    isTrimmed.solidLast, ?_⟩, fun _ => isTrimmed.startLe, ?_⟩
  · exact find?_trimmed_eq_none clause.regular_terminators entered ends.inOrder ends.within
      ends.apart ends.unmet isTrimmed
  · intro opening opened
    obtain ⟨hit, found, opens⟩ := Option.bind_eq_some_iff.mp opened
    obtain ⟨isOffset, enteredBehind⟩ :=
      entered_of_ofHit? clause.endsWord_of_mem_terminators found opening opens
    have bounds := Keyword.span_of_find?_eq_some
      (Keyword.takesSpace_of_isSolid clause.isSolid_of_mem_terminators) found
    have before := Nat.le_trans isTrimmed.stopLe (ends.unmet hit found)
    rw [isOffset] at enteredBehind ⊢
    exact ⟨enteredBehind, by omega, Nat.le_trans before (Nat.le_of_lt bounds.2.1)⟩

/-- So does a clause that is read if it was opened. -/
theorem follows_readIf (clause : Clause) {code : Bytes} {bound : Nat} {opening? : Option Opening}
    (opened : ∀ opening ∈ opening?, Entered code opening.offset ∧ bound ≤ opening.offset) :
    clause.Follows code bound (clause.readIf code opening?) := by
  have absent : Span.absent.stop = 0 := rfl
  cases opening? with
  | none =>
    refine ⟨clause.stands_absent code, fun present => absurd rfl present, ?_⟩
    intro opening isOpening
    cases isOpening
  | some opening =>
    obtain ⟨entered, behindBound⟩ := opened opening rfl
    rw [readIf]
    split
    · have follows := clause.follows_read entered
      refine ⟨follows.stands, fun present => Nat.le_trans behindBound (follows.behind present), ?_⟩
      intro next isNext
      obtain ⟨enteredNext, behindOffset, behindClause⟩ := follows.opened next isNext
      exact ⟨enteredNext, Nat.le_trans behindBound behindOffset, behindClause⟩
    · refine ⟨clause.stands_absent code, fun present => absurd rfl present, ?_⟩
      rintro next ⟨⟩
      exact ⟨entered, behindBound, absent ▸ Nat.zero_le _⟩

end Clause

namespace Clauses

/-- The span of a clause. -/
def spanOf (clauses : Clauses) : Clause → Span
  | .selectList => clauses.selectList
  | .fromClause => clauses.fromClause
  | .whereClause => clauses.whereClause

/-- A select list begins where no word goes on. -/
theorem entered_of_selectListOffset? {code : Bytes} {offset : Nat}
    (found : selectListOffset? code = some offset) : Entered code offset := by
  rw [selectListOffset?_eq] at found
  obtain ⟨hit, met, isOffset⟩ := Option.map_eq_some_iff.mp found
  rw [behindQuantifier] at isOffset
  split at isOffset
  · rename_i word quantified
    subst isOffset
    have isWord := Option.eq_some_of_filter_eq_some quantified
    obtain ⟨blanks, behind, ahead, _, _, _, ended, place⟩ := Word.split_of_next?_eq_some isWord
    refine ⟨Word.stop_le_of_next? isWord, ?_⟩
    rw [Word.drop_stop ahead place]
    cases behind with
    | nil => rfl
    | cons byte others => exact ended byte rfl
  · subst isOffset
    obtain ⟨keyword, _, _, _, isKeyword, _⟩ := Keyword.exists_keyword_of_find? met
    refine entered_of_find? met isKeyword ?_
    have member := List.mem_of_getElem? isKeyword
    rw [List.mem_singleton] at member
    subst member
    decide

/-- The select list is the first clause. -/
theorem follows_first (code : Bytes) : Clause.selectList.Follows code 0 (first code) := by
  rw [first]
  split
  · rename_i offset found
    have follows := Clause.selectList.follows_read (entered_of_selectListOffset? found)
    refine ⟨follows.stands, fun _ => Nat.zero_le _, ?_⟩
    intro opening opened
    obtain ⟨entered, _, behind⟩ := follows.opened opening opened
    exact ⟨entered, Nat.zero_le _, behind⟩
  · refine ⟨Clause.selectList.stands_absent code, fun _ => Nat.zero_le _, ?_⟩
    intro opening opened
    obtain ⟨hit, found, opens⟩ := Option.bind_eq_some_iff.mp opened
    obtain ⟨_, entered⟩ := Clause.entered_of_ofHit? (by decide) found opening opens
    exact ⟨entered, Nat.zero_le _, Nat.zero_le _⟩

/-- Every clause of a text stands inside of it, where it can be cut out, without blanks at its ends
and with none of its terminators at top level; and the clauses that are there stand in order, each
behind the ends of those before it. -/
theorem stand_in_order (text : String) :
    let code := Bytes.ofString text
    let clauses := (ofCode code).value
    (ofCode code).sound = true ∧
      (∀ clause : Clause, clause.Stands code (clauses.spanOf clause) ∧
        Bytes.admits code (clauses.spanOf clause) = true) ∧
      (clauses.fromClause ≠ Span.absent →
        clauses.selectList.stop ≤ clauses.fromClause.start) ∧
      (clauses.whereClause ≠ Span.absent →
        clauses.selectList.stop ≤ clauses.whereClause.start ∧
          clauses.fromClause.stop ≤ clauses.whereClause.start) := by
  intro code clauses
  have cuts := cutBoth_ofCode (Overlay.refl ⟨text, rfl⟩ : Overlay code code)
  have isValue : clauses = _ := value_ofCode code
  have first := follows_first code
  have second : Clause.fromClause.Follows code (Clauses.first code).1.stop _ :=
    Clause.fromClause.follows_readIf fun opening opened =>
      ⟨(first.opened opening opened).1, (first.opened opening opened).2.2⟩
  have third : Clause.whereClause.Follows code
      (max (Clauses.first code).1.stop (Clause.fromClause.readIf code (Clauses.first code).2).1.stop)
      _ :=
    Clause.whereClause.follows_readIf fun opening opened =>
      ⟨(second.opened opening opened).1, Nat.max_le.mpr (second.opened opening opened).2⟩
  refine ⟨sound_ofCode ⟨text, rfl⟩, ?_, ?_, ?_⟩
  · intro clause
    constructor
    · rw [isValue]
      cases clause with
      | selectList => exact first.stands
      | fromClause => exact second.stands
      | whereClause => exact third.stands
    · cases clause with
      | selectList => exact cuts.1.inCode.admits
      | fromClause => exact cuts.2.1.inCode.admits
      | whereClause => exact cuts.2.2.inCode.admits
  · rw [isValue]
    exact second.behind
  · rw [isValue]
    intro present
    exact Nat.max_le.mp (third.behind present)

end Clauses

end QueryScope
