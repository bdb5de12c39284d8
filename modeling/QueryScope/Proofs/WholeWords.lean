import Mathlib.Data.List.Basic
import QueryScope.Proofs.AliasReading
import QueryScope.Proofs.FromRoundTrip

/-!
# Words and identifiers

A word and an identifier are not the same. A word goes on over every byte outside ASCII, and so it
ends at a blank or a mark; an identifier has letters of ASCII and the two characters that fold to
one. So a word of a FROM clause is the name of a table, or an alias, to its last character exactly if
it has no other character outside ASCII. Of any other word the entry takes the characters before the
first such one, and drops the rest.

The clauses read here are words with one blank between them. None of the keywords that end a clause,
begin another entry or belong to a join is met in them, so they are one entry from end to end.
-/

namespace QueryScope

open Bytes EntryShape BareName Written

namespace Word

/-- Whether a text is one word from end to end. -/
def isWhole (text : String) : Bool :=
  (next? (ofString text) 0).any fun word => word.span == ⟨0, (ofString text).length⟩

/-- The identifier that a word is read as: its characters before the first one that no identifier
has, when there are any and they are not reserved. -/
def identifier? (word : String) : Option String :=
  let name := String.ofList (word.toList.takeWhile (Identifier.continuesName .folded))
  if name == "" || isReserved name then none else some name

/-- Whether all characters of a text are of ASCII or fold to a letter of ASCII. -/
def isFolded (text : String) : Bool :=
  text.toList.all fun character =>
    decide (character.toNat < 128) || character == Letters.longS || character == Letters.kelvin

/-- A word that is not reserved. -/
structure Free (word : String) : Prop where
  nonempty : ofString word ≠ []
  isWord : ∀ byte ∈ ofString word, Byte.isWordByte byte = true
  starts : ∀ byte ∈ (ofString word).head?, Byte.startsWord byte = true
  unreserved : isReserved word = false

/-- A text that is one word is spelled by the word. -/
theorem Free.of_isWhole {word : String} (whole : isWhole word = true)
    (unreserved : isReserved word = false) : Free word := by
  obtain ⟨read, isNext, sameSpan⟩ := (Option.any_eq_true _ _).mp whole
  obtain ⟨blanks, behind, split, _, isWord, ⟨first, others, spelled, starts⟩, _, place⟩ :=
    split_of_next?_eq_some isNext
  rw [place, beq_iff_eq, Span.mk.injEq, Nat.zero_add] at sameSpan
  obtain rfl : blanks = [] := List.eq_nil_of_length_eq_zero sameSpan.1
  rw [List.drop_zero, List.nil_append] at split
  have lengths := congrArg List.length split
  rw [List.length_append, ← sameSpan.2, List.length_nil, Nat.zero_add] at lengths
  obtain rfl : behind = [] := List.eq_nil_of_length_eq_zero (by omega)
  rw [List.append_nil] at split
  rw [← split] at isWord spelled
  refine ⟨by rw [spelled]; exact List.cons_ne_nil _ _, isWord, ?_, unreserved⟩
  intro byte isFirst
  rw [spelled] at isFirst
  cases isFirst
  exact starts

variable {word : String}

/-- A byte of a word is not blank. -/
theorem Free.solid (free : Free word) : ∀ byte ∈ ofString word, Byte.isBlank byte = false :=
  fun byte member => Byte.not_blank_of_word (free.isWord byte member)

/-- All bytes of a character of a word belong to the word. -/
theorem Free.all_isWordByte (free : Free word) {character : Char} (member : character ∈ word.toList) :
    (String.utf8EncodeChar character).all Byte.isWordByte = true := by
  rw [List.all_eq_true]
  intro byte isByte
  exact free.isWord byte (List.mem_flatMap.mpr ⟨character, member, isByte⟩)

/-- A character whose byte belongs to no word is not part of a word. -/
theorem Free.not_mem (free : Free word) {character : Char}
    (foreign : (String.utf8EncodeChar character).all Byte.isWordByte = false) :
    character ∉ word.toList := by
  intro member
  rw [free.all_isWordByte member] at foreign
  cases foreign

/-- A word that is not reserved is not the first word of a keyword. -/
theorem Free.isForeign (free : Free word) {keyword : Keyword}
    (reserved : beginsReserved keyword = true) : keyword.isForeign (ofString word) = true :=
  isForeign_of_not_isReserved free.nonempty free.isWord free.unreserved reserved

/-- Nor does it say what kind of join follows. -/
theorem Free.not_isJoinModifier (free : Free word) : isJoinModifier (ofString word) = false := by
  have reserved : ∀ modifier ∈ joinModifiers, modifier ∈ Word.reserved := by decide
  rw [isJoinModifier, List.any_eq_false]
  intro modifier member
  rw [not_sameIgnoringCase_of_not_isReserved free.unreserved (reserved modifier member)]
  exact Bool.false_ne_true

end Word

/-! ## A clause of words -/

/-- Words with a blank between each two. -/
def spaced (first : String) : List String → List Char
  | [] => first.toList
  | next :: others => first.toList ++ ' ' :: spaced next others

/-- The bytes of several words with spaces between them: the first word, a space, and the bytes of
the others. -/
theorem encoded_spaced_cons (first next : String) (others : List String) :
    encoded (spaced first (next :: others)) =
      ofString first ++ Byte.space :: encoded (spaced next others) := by
  rw [spaced, encoded_append, encoded_cons]
  rfl

namespace Spaced

variable {first : String} {others : List String} (free : ∀ word ∈ first :: others, Word.Free word)

include free

/-- Every byte is a blank or belongs to a word. -/
theorem blank_or_word : ∀ byte ∈ encoded (spaced first others),
    byte = Byte.space ∨ Byte.isWordByte byte = true := by
  induction others generalizing first with
  | nil => exact fun byte member => .inr ((free first List.mem_cons_self).isWord byte member)
  | cons next others inductionHypothesis =>
    have behind := inductionHypothesis fun word member => free word (List.mem_cons_of_mem _ member)
    rw [encoded_spaced_cons]
    intro byte member
    rcases List.mem_append.mp member with inFirst | inOthers
    · exact .inr ((free first List.mem_cons_self).isWord byte inFirst)
    · rcases List.mem_cons.mp inOthers with isSpace | further
      · exact .inl isSpace
      · exact behind byte further

/-- So there is no mark among the bytes that opens quotes, nests or separates entries. -/
theorem plain : ∀ byte ∈ encoded (spaced first others),
    opensNothing byte = true ∧ byte ≠ Byte.comma ∧ isParenthesis byte = false := by
  have checked := Byte.forall_of_all (fun byte => !(byte == Byte.space || Byte.isWordByte byte) ||
    (opensNothing byte && byte != Byte.comma && !isParenthesis byte)) (by decide +kernel)
  intro byte member
  have isKnown : (byte == Byte.space || Byte.isWordByte byte) = true := by
    rw [Bool.or_eq_true, beq_iff_eq]
    exact blank_or_word free byte member
  have here := checked byte
  rw [isKnown, Bool.not_true, Bool.false_or] at here
  simpa [and_assoc] using here

/-- No keyword that begins with a reserved word is met. -/
theorem silent {keywords : List Keyword} (unmet : Unmet keywords) :
    Keyword.Silent keywords (encoded (spaced first others) ++ [Byte.space]) := by
  have silentWord {word : String} (isFree : Word.Free word) :
      Keyword.Silent keywords (ofString word ++ [Byte.space]) :=
    Keyword.silent_word unmet.orderly isFree.nonempty isFree.isWord
      (fun keyword member => isFree.isForeign (unmet.reserved keyword member)) (by decide)
  induction others generalizing first with
  | nil => exact silentWord (free first List.mem_cons_self)
  | cons next others inductionHypothesis =>
    have behind := inductionHypothesis fun word member => free word (List.mem_cons_of_mem _ member)
    have both := (silentWord (free first List.mem_cons_self)).append behind
    rw [encoded_spaced_cons]
    simpa only [List.append_assoc, List.cons_append, List.nil_append] using both

/-- There are no blanks at the ends. -/
theorem solidEnds : SolidEnds Byte.isBlank (encoded (spaced first others)) := by
  have solidWord {word : String} (isFree : Word.Free word) :
      SolidEnds Byte.isBlank (ofString word) := .of_solid isFree.nonempty isFree.solid
  induction others generalizing first with
  | nil => exact solidWord (free first List.mem_cons_self)
  | cons next others inductionHypothesis =>
    have behind := inductionHypothesis fun word member => free word (List.mem_cons_of_mem _ member)
    rw [encoded_spaced_cons]
    exact (solidWord (free first List.mem_cons_self)).join [Byte.space] behind

/-- The last run of bytes is the last word. -/
theorem exists_last_word (offset : Nat) :
    ∃ earlier start run, FromEntry.runs offset (encoded (spaced first others)) =
        earlier ++ [(start, run)] ∧ Word.isJoinModifier run = false ∧
      start + run.length = offset + (encoded (spaced first others)).length := by
  have isFree := free first List.mem_cons_self
  induction others generalizing first offset with
  | nil =>
    exact ⟨[], offset, ofString first, FromEntry.runs_solid offset isFree.nonempty isFree.solid,
      isFree.not_isJoinModifier, rfl⟩
  | cons next others inductionHypothesis =>
    have freeOthers : ∀ word ∈ next :: others, Word.Free word :=
      fun word member => free word (List.mem_cons_of_mem _ member)
    obtain ⟨earlier, start, run, isRuns, notModifier, stops⟩ := inductionHypothesis freeOthers
      (offset + (ofString first).length + 1) (freeOthers next List.mem_cons_self)
    refine ⟨FromEntry.runs offset (ofString first) ++ earlier, start, run, ?_, notModifier, ?_⟩
    · rw [encoded_spaced_cons, FromEntry.runs_append_blank offset _ (by decide), isRuns,
        List.append_assoc]
    · rw [encoded_spaced_cons, stops, List.length_append, List.length_cons]
      omega

/-- No word at the end belongs to a join. -/
theorem lengthWithoutModifiers? :
    FromEntry.lengthWithoutModifiers? (encoded (spaced first others)) =
      some (encoded (spaced first others)).length := by
  obtain ⟨earlier, start, run, isRuns, notModifier, stops⟩ := exists_last_word free 0
  rw [FromEntry.lengthWithoutModifiers?, isRuns, List.reverse_append, List.reverse_singleton,
    List.singleton_append, List.dropWhile_cons_of_neg (by simp [notModifier])]
  simp only [stops, Nat.zero_add]

/-- The first word is not `LATERAL`. -/
theorem not_lateral : Word.nextIs (encoded (spaced first others)) 0 "LATERAL" = false := by
  have isFree := free first List.mem_cons_self
  have spelled : (encoded (spaced first others)).takeWhile Byte.isWordByte = ofString first := by
    have taken : (ofString first).takeWhile Byte.isWordByte = ofString first :=
      List.takeWhile_eq_self_iff.mpr isFree.isWord
    cases others with
    | nil => exact taken
    | cons next others =>
      rw [encoded_spaced_cons, Window.takeWhile_append_stop (by decide), taken]
  obtain ⟨byte, rest, isCode, solid⟩ := (solidEnds free).first
  have ahead : ((encoded (spaced first others)).drop 0).dropWhile Byte.isBlank =
      encoded (spaced first others) := by
    rw [List.drop_zero, isCode, List.dropWhile_cons_of_neg (by simp [solid])]
  rw [Word.nextIs, Option.any_eq_false]
  intro word next
  rw [Word.is, Word.spelling_of_next? next, ahead, spelled,
    not_sameIgnoringCase_of_not_isReserved isFree.unreserved (by decide)]

/-- A search from the beginning finds nothing. -/
theorem find?_eq_none {keywords : List Keyword} (unmet : UnmetInEntry keywords) :
    Keyword.find? (encoded (spaced first others)) 0 keywords = none := by
  have blank := Byte.isBlank_of_mem_space
  have searched := Keyword.find?_append keywords [] (encoded (spaced first others))
  rw [List.nil_append, List.length_nil] at searched
  have passed := silent free unmet.toUnmet 0 []
  rw [List.append_nil] at passed
  rw [searched, ← Keyword.searchFrom_append_blank unmet.solid blank]
  exact passed

/-- Words are found as they stand. -/
theorem place? :
    FromEntry.place? (encoded (spaced first others))
      ⟨0, (encoded (spaced first others)).length⟩ =
        some ⟨0, (encoded (spaced first others)).length⟩ := by
  have unmet := find?_eq_none free unmetInEntry_conditions
  have whole : (encoded (spaced first others)).extract 0 (encoded (spaced first others)).length =
      encoded (spaced first others) := by
    rw [Window.extract_zero, List.take_length]
  have nothing : ∀ byte ∈ ([] : Bytes), Byte.isBlank byte = true :=
    fun byte member => absurd member List.not_mem_nil
  have piece : (encoded (spaced first others)).extract 0 (encoded (spaced first others)).length =
      [] ++ (encoded (spaced first others) ++ []) := by
    rw [whole, List.append_nil, List.nil_append]
  have trimmed := Bytes.value_trim_solid ⟨0, (encoded (spaced first others)).length⟩ piece
    (by simp only [List.length_nil, Nat.zero_add, Nat.add_zero]) nothing nothing (solidEnds free)
  have taken : Span.isEmpty ⟨0, (encoded (spaced first others)).length⟩ = false := by
    obtain ⟨byte, rest, isCode, _⟩ := (solidEnds free).first
    simp [Span.isEmpty, Span.length, isCode]
  simp only [List.length_nil, Nat.zero_add] at trimmed
  simp only [FromEntry.place?, whole, unmet, Option.map_none, Option.getD_none, trimmed,
    lengthWithoutModifiers? free, Option.bind_some, Nat.zero_add, not_lateral free,
    Bool.false_eq_true, if_false, taken]

/-- Words are one entry of a FROM clause. -/
theorem value_readAll :
    (FromEntry.readAll (encoded (spaced first others)) (encoded (spaced first others))).value =
      (FromEntry.entryAt? (encoded (spaced first others)) (encoded (spaced first others))
        ⟨0, (encoded (spaced first others)).length⟩).toList := by
  have plainPiece : ∀ piece ∈ [encoded (spaced first others)], ∀ byte ∈ piece,
      byte ≠ Byte.comma ∧ isParenthesis byte = false := by
    intro piece member byte isByte
    rw [List.mem_singleton.mp member] at isByte
    exact (plain free byte isByte).2
  have parts : TopLevel.split (encoded (spaced first others)) Byte.comma =
      [⟨0, (encoded (spaced first others)).length⟩] := by
    have tiled := splitFrom_joined (by decide) 0 plainPiece
    rwa [joined, tiles, tiles, Nat.zero_add] at tiled
  have unmet := find?_eq_none free unmetInEntry_join
  have spans : (FromEntry.spans (encoded (spaced first others))).value =
      [⟨0, (encoded (spaced first others)).length⟩] := by
    rw [FromEntry.value_spans, parts, List.map_singleton, List.flatten_singleton,
      Window.extract_zero, List.take_length, FromEntry.betweenJoins_of_none unmet]
  simp only [FromEntry.value_readAll_eq_filterMap, spans, List.filterMap_cons, place? free,
    Option.bind_some, List.filterMap_nil]
  cases FromEntry.entryAt? (encoded (spaced first others)) (encoded (spaced first others))
    ⟨0, (encoded (spaced first others)).length⟩ with
  | none => rfl
  | some entry => rfl

/-- Words are a clause of a query. -/
theorem spelled : Written.Spelled .fromClause (spaced first others) (spaced first others) where
  seen := by
    refine (seenAs_self fun byte member => (plain free byte member).1).append ?_
    exact seenAs_self (List.all_eq_true.mp (by decide))
  width_eq := rfl
  closed := ⟨silent free unmetInEntry_terminators.toUnmet, solidEnds free⟩
  flat byte member := (plain free byte member).2.2

/-- A query around words is one scope, whose tables are read from the words. -/
theorem exists_scope :
    ∃ scope, extract ("SELECT * FROM " ++ String.ofList (spaced first others)) = [scope] ∧
      ∃ masked : Masked, scope.tables =
        ((FromEntry.entryAt? (encoded (spaced first others)) (encoded (spaced first others))
          ⟨0, (encoded (spaced first others)).length⟩).map
            (Outline.link [] masked masked.earlier)).toList := by
  have isQuery : "SELECT * FROM " ++ String.ofList (spaced first others) =
      String.ofList (query ['*'] (spaced first others)) := by
    apply String.toList_injective
    simp only [query, String.toList_append, String.toList_ofList]
    rfl
  obtain ⟨scope, extracted, _, masked, tables⟩ :=
    Written.exists_scope spelled_star (spelled free) unquantified_star
  refine ⟨scope, by rw [isQuery, extracted], masked, ?_⟩
  rw [tables, value_readAll free, Option.toList_map]

end Spaced

/-! ## What is read from a word -/

namespace Identifier

/-- The letters that fold to ASCII are all that the folded letters have more. -/
theorem continuesName_folded (character : Char) :
    continuesName .folded character = (continuesName .plain character ||
      character == Letters.longS || character == Letters.kelvin) := by
  have plain : (Letters.plain == Letters.folded) = false := rfl
  have folded : (Letters.folded == Letters.folded) = true := rfl
  simp only [continuesName, startsName, Letters.contains, plain, folded, Bool.false_and,
    Bool.true_and, Bool.or_false]
  ac_rfl

/-- No dot follows where there is none. -/
theorem afterDot?_eq_none {characters : List Char} (noDot : '.' ∉ characters) :
    afterDot? characters = none := by
  rw [afterDot?]
  split
  · rename_i rest remains
    have member : '.' ∈ characters.dropWhile Text.isBlank := by
      rw [remains]
      exact List.mem_cons_self
    exact absurd ((List.dropWhile_suffix Text.isBlank).subset member) noDot
  · rfl

end Identifier

namespace FromEntry

/-- The shape of an entry that is one name, with an alias or not. -/
theorem Shape.read?_of_name {characters name rest : List Char} (noDot : '.' ∉ characters)
    (noQuote : '"' ∉ characters) (reading : Identifier.read? .folded characters = some (name, rest)) :
    Shape.read? characters = some ⟨none, ⟨0, name⟩, readAlias? (width name) rest⟩ := by
  obtain ⟨rfl, _⟩ := read?_bare noQuote reading
  have dotless := Identifier.afterDot?_eq_none fun member => noDot (List.mem_append_right _ member)
  simp only [Shape.read?, Identifier.readPath_of_last 0 reading dotless, List.isEmpty_cons,
    Bool.false_eq_true, if_false, dotless, Option.bind_none, List.getLast?_singleton,
    Option.map_some, List.dropLast_singleton, Fragment.stop, Nat.zero_add]
  rfl

/-- Where there is no parenthesis, no placeholder is read. -/
theorem placeholder_read?_eq_none {characters : List Char} (noParenthesis : '(' ∉ characters) :
    Placeholder.read? characters = none := by
  cases characters with
  | nil => rfl
  | cons first rest =>
    have checked : ∀ point < 128, (Char.ofNat point).toUpper = '(' → Char.ofNat point = '(' := by
      decide
    have notOpening : Letters.foldsTo '(' first = false := by
      rw [Bool.eq_false_iff]
      intro folds
      have isUpper : first.toUpper = '(' := by simpa [Letters.foldsTo] using folds
      have isFirst := checked first.toNat (ascii_of_toUpper (by rw [isUpper]; decide))
      rw [Char.ofNat_toNat] at isFirst
      exact noParenthesis (isFirst isUpper ▸ List.mem_cons_self)
    have opening : ∃ others, Placeholder.text.toList = '(' :: others := ⟨_, rfl⟩
    obtain ⟨others, isText⟩ := opening
    simp only [Placeholder.read?, isText, List.length_cons, List.take_succ_cons, List.zip_cons_cons,
      List.all_cons, notOpening, Bool.false_and, Bool.and_false, Bool.false_eq_true, if_false]

/-- Where neither a name nor a parenthesis is, there is no entry. -/
theorem Shape.read?_of_none {characters : List Char} (noParenthesis : '(' ∉ characters)
    (noName : Identifier.read? .folded characters = none) : Shape.read? characters = none := by
  have noPlaceholder := placeholder_read?_eq_none noParenthesis
  simp only [Shape.read?, Identifier.readPath_of_none 0 noName, List.isEmpty_nil, if_true,
    Option.bind_some, noPlaceholder, Option.map_none, List.getLast?_nil]

/-- A bare name may be a name unless it is reserved. -/
theorem mayBeName_of_bare {fragment : Fragment} (bare : Bare .folded fragment.characters) :
    mayBeName fragment = !Word.isReserved (String.ofList fragment.characters) := by
  have isBare : fragment.isQuoted = false := by
    rw [Fragment.isQuoted, beq_eq_false_iff_ne]
    intro isQuote
    have continues := bare.continues '"' (List.mem_of_mem_head? isQuote)
    cases continues
  rw [mayBeName, isBare, Bool.false_or, Fragment.text]

/-- The entry that is made of one name. -/
theorem made?_name {name rest : List Char} (noQuote : '"' ∉ name) (noParenthesis : '(' ∉ name)
    (bare : Bare .folded name) (code before : Bytes) (aliasFragment : Option Fragment)
    (aliasName : Option String) :
    made? (encoded (name ++ rest)) code before ⟨none, ⟨0, name⟩, aliasFragment⟩ aliasName =
      if Word.isReserved (String.ofList name) then none
      else some ⟨{ TableReference.table (String.ofList name) with aliasName }, none⟩ := by
  have notQuoted : name.head? ≠ some '"' := fun isQuote => noQuote (List.mem_of_mem_head? isQuote)
  have allowed : mayBeName ⟨0, name⟩ = !Word.isReserved (String.ofList name) :=
    mayBeName_of_bare bare
  have stands : Stands 0 (name ++ rest) ⟨0, name⟩ := ⟨⟨[], rest, rfl, rfl⟩, bare.plain⟩
  have isName : nameOf (encoded (name ++ rest)) ⟨0, name⟩ = String.ofList name := by
    rw [nameOf, stands.extract_eq (.refl _), text_encoded, Identifier.unquote_of_head? notQuoted]
  have notPlaceholder := not_placeholder noParenthesis
  simp only [made?, Fragment.text, notPlaceholder, Bool.false_eq_true, if_false, allowed, isName,
    Option.map_none]
  cases Word.isReserved (String.ofList name) <;> rfl

end FromEntry

namespace Word.Free

variable {word : String}

/-- An identifier has those characters of a word that are of ASCII or fold to a letter of it. -/
theorem continuesName_eq (free : Free word) : ∀ character ∈ word.toList,
    Identifier.continuesName .folded character = (decide (character.toNat < 128) ||
      character == Letters.longS || character == Letters.kelvin) := by
  have checked : ∀ point < 128,
      (String.utf8EncodeChar (Char.ofNat point)).all Byte.isWordByte = true →
        Identifier.continuesName .plain (Char.ofNat point) = true := by
    decide
  intro character member
  have samePlain : Identifier.continuesName .plain character = decide (character.toNat < 128) := by
    by_cases ascii : character.toNat < 128
    · have continues := checked character.toNat ascii
      rw [Char.ofNat_toNat] at continues
      rw [continues (free.all_isWordByte member), decide_eq_true ascii]
    · rw [decide_eq_false ascii, Bool.eq_false_iff]
      exact fun continues => ascii (ascii_of_continuesName continues)
  rw [Identifier.continuesName_folded, samePlain]

/-- A word begins with a character that may begin an identifier, or with one that no identifier
has. -/
theorem startsName_eq (free : Free word) : ∀ character ∈ word.toList.head?,
    Identifier.startsName .folded character = Identifier.continuesName .folded character := by
  have checked : ∀ point < 128,
      (String.utf8EncodeChar (Char.ofNat point)).head?.all Byte.startsWord = true →
        Identifier.startsName .folded (Char.ofNat point) =
          Identifier.continuesName .folded (Char.ofNat point) := by
    decide
  intro character isFirst
  by_cases ascii : character.toNat < 128
  · have here := checked character.toNat ascii
    rw [Char.ofNat_toNat] at here
    apply here
    obtain ⟨rest, isWord⟩ := List.head?_eq_some_iff.mp isFirst
    have begins : (ofString word).head? = (String.utf8EncodeChar character).head? := by
      obtain ⟨byte, bytes, isEncoded⟩ :=
        List.exists_cons_of_ne_nil (String.utf8EncodeChar_ne_nil (c := character))
      rw [ofString, isWord, List.flatMap_cons, isEncoded]
      rfl
    rw [← begins, Option.all_eq_true]
    exact free.starts
  · -- Outside ASCII an identifier only has letters.
    by_cases letter : character = Letters.longS ∨ character = Letters.kelvin
    · rcases letter with rfl | rfl <;> decide
    · have notContinues : Identifier.continuesName .folded character = false := by
        rw [Bool.eq_false_iff, Identifier.continuesName_folded]
        intro continues
        rw [Bool.or_eq_true, Bool.or_eq_true, beq_iff_eq, beq_iff_eq, or_assoc] at continues
        exact continues.elim (fun plain => ascii (ascii_of_continuesName plain)) letter
      rw [notContinues, Bool.eq_false_iff]
      intro starts
      rw [Identifier.continuesName, starts] at notContinues
      cases notContinues

/-- What is read from a word is its characters before the first one that no identifier has. -/
theorem read?_eq (free : Free word) :
    Identifier.read? .folded word.toList =
      if word.toList.takeWhile (Identifier.continuesName .folded) = [] then none
      else some (word.toList.takeWhile (Identifier.continuesName .folded),
        word.toList.dropWhile (Identifier.continuesName .folded)) := by
  have noQuote : '"' ∉ word.toList := free.not_mem (by decide)
  have sameStart := free.startsName_eq
  cases isWord : word.toList with
  | nil => rfl
  | cons first rest =>
    have notQuoted : (first == '"') = false := by
      rw [beq_eq_false_iff_ne]
      rintro rfl
      exact noQuote (isWord ▸ List.mem_cons_self)
    rw [isWord] at sameStart
    have starts := sameStart first rfl
    simp only [Identifier.read?, notQuoted, Bool.false_eq_true, if_false, starts]
    cases continues : Identifier.continuesName .folded first with
    | false => simp only [List.takeWhile_cons, continues, Bool.false_eq_true, if_false, if_true]
    | true => simp only [List.takeWhile_cons, List.dropWhile_cons, continues, if_true,
        reduceCtorEq, if_false]

/-- The words that have only characters of identifiers. -/
theorem isFolded_iff (free : Free word) : isFolded word = true ↔
    ∀ character ∈ word.toList, Identifier.continuesName .folded character = true := by
  rw [isFolded, List.all_eq_true]
  refine forall₂_congr fun character member => ?_
  rw [free.continuesName_eq character member]

/-- An identifier is all of a word exactly if the word has no other characters. -/
theorem identifier?_eq_some_iff (free : Free word) :
    identifier? word = some word ↔ isFolded word = true := by
  rw [free.isFolded_iff]
  constructor
  · intro isAll
    simp only [identifier?, Option.ite_none_left_eq_some, Option.some.injEq] at isAll
    rw [← isAll.2, String.toList_ofList]
    exact fun character member => List.mem_takeWhile_imp member
  · intro continues
    have nonempty : (word == "") = false := by
      rw [beq_eq_false_iff_ne]
      rintro rfl
      exact free.nonempty rfl
    simp only [identifier?, List.takeWhile_eq_self_iff.mpr continues, String.ofList_toList, nonempty,
      free.unreserved, Bool.or_self, Bool.false_eq_true, if_false]

end Word.Free

namespace FromEntry

/-- The entry that takes up all of a clause. -/
theorem entryAt?_whole (characters : List Char) :
    entryAt? (encoded characters) (encoded characters) ⟨0, (encoded characters).length⟩ =
      (Shape.read? characters).bind fun shape =>
        made? (encoded characters) (encoded characters) [] shape
          ((shape.aliasName.filter mayBeName).map (nameOf (encoded characters))) := by
  simp only [entryAt?, shapeAt?, value_ofShape, Window.extract_zero, List.take_length, List.take_zero,
    decode_encoded]

/-- The entry that is one name, with an alias or not. -/
theorem entryAt?_name {characters name rest : List Char} (noDot : '.' ∉ characters)
    (noQuote : '"' ∉ characters) (noParenthesis : '(' ∉ characters)
    (reading : Identifier.read? .folded characters = some (name, rest)) :
    entryAt? (encoded characters) (encoded characters) ⟨0, (encoded characters).length⟩ =
      if Word.isReserved (String.ofList name) then none
      else some ⟨{ TableReference.table (String.ofList name) with
        aliasName := ((readAlias? (width name) rest).filter mayBeName).map
          (nameOf (encoded characters)) }, none⟩ := by
  obtain ⟨rfl, bare⟩ := read?_bare noQuote reading
  rw [entryAt?_whole, Shape.read?_of_name noDot noQuote reading, Option.bind_some]
  exact made?_name (fun member => noQuote (List.mem_append_left _ member))
    (fun member => noParenthesis (List.mem_append_left _ member)) bare _ _ _ _

end FromEntry

namespace Word.Free

variable {word : String}

/-- A word that begins with another character than identifiers do. -/
theorem identifier?_of_nil
    (nothing : word.toList.takeWhile (Identifier.continuesName .folded) = []) :
    identifier? word = none := by
  simp only [identifier?, nothing]
  rfl

/-- The identifier of a word that begins with characters of one. -/
theorem identifier?_of_ne_nil
    (something : word.toList.takeWhile (Identifier.continuesName .folded) ≠ []) :
    identifier? word =
      if isReserved (String.ofList (word.toList.takeWhile (Identifier.continuesName .folded)))
      then none
      else some (String.ofList (word.toList.takeWhile (Identifier.continuesName .folded))) := by
  have nonempty : (String.ofList (word.toList.takeWhile (Identifier.continuesName .folded)) ==
      "") = false := by
    rw [beq_eq_false_iff_ne]
    intro nothing
    have noCharacters := congrArg String.toList nothing
    rw [String.toList_ofList] at noCharacters
    exact something noCharacters
  simp only [identifier?, nonempty, Bool.false_or]

/-- A word that is alone in a FROM clause. -/
theorem exists_scope (free : Free word) :
    ∃ scope, extract ("SELECT * FROM " ++ word) = [scope] ∧
      scope.tables.map (·.tableName) = (identifier? word).toList.map some := by
  have freeAll : ∀ other ∈ [word], Free other := fun other member =>
    List.mem_singleton.mp member ▸ free
  obtain ⟨scope, extracted, masked, tables⟩ := Spaced.exists_scope freeAll
  rw [spaced, String.ofList_toList] at extracted
  refine ⟨scope, extracted, ?_⟩
  rw [tables, spaced]
  by_cases nothing : word.toList.takeWhile (Identifier.continuesName .folded) = []
  · have noName : Identifier.read? .folded word.toList = none := by
      rw [free.read?_eq, if_pos nothing]
    rw [FromEntry.entryAt?_whole, FromEntry.Shape.read?_of_none (free.not_mem (by decide)) noName,
      identifier?_of_nil nothing]
    rfl
  · have reading := free.read?_eq
    rw [if_neg nothing] at reading
    rw [FromEntry.entryAt?_name (free.not_mem (by decide)) (free.not_mem (by decide))
      (free.not_mem (by decide)) reading, identifier?_of_ne_nil nothing]
    by_cases reserved : isReserved
        (String.ofList (word.toList.takeWhile (Identifier.continuesName .folded))) = true
    · rw [if_pos reserved, if_pos reserved]
      rfl
    · rw [if_neg reserved, if_neg reserved]
      rfl

/-- The alias that a word behind a name is. -/
def aliasOf (word : String) : Option String :=
  ((FromEntry.readAlias? 1 (' ' :: word.toList)).filter FromEntry.mayBeName).map
    (FromEntry.nameOf (encoded ('t' :: ' ' :: word.toList)))

/-- A word behind the name of a table. -/
theorem exists_scope_alias (free : Free word) :
    ∃ scope, extract ("SELECT * FROM t " ++ word) = [scope] ∧
      scope.tables = [{ TableReference.table "t" with aliasName := aliasOf word }] := by
  have freeTable : Free "t" := .of_isWhole (by decide +kernel) (by decide)
  have freeAll : ∀ other ∈ ["t", word], Free other := by
    intro other member
    rcases List.mem_cons.mp member with rfl | isWord
    · exact freeTable
    · exact List.mem_singleton.mp isWord ▸ free
  have characters : spaced "t" [word] = 't' :: ' ' :: word.toList := rfl
  have sameText : "SELECT * FROM " ++ String.ofList ('t' :: ' ' :: word.toList) =
      "SELECT * FROM t " ++ word := by
    apply String.toList_injective
    simp only [String.toList_append, String.toList_ofList]
    rfl
  have absent {character : Char} (notWord : character ∉ word.toList)
      (notFront : character ∉ ['t', ' ']) : character ∉ 't' :: ' ' :: word.toList :=
    List.not_mem_append notFront notWord
  have reading : Identifier.read? .folded ('t' :: ' ' :: word.toList) =
      some (['t'], ' ' :: word.toList) := rfl
  obtain ⟨scope, extracted, masked, tables⟩ := Spaced.exists_scope freeAll
  rw [characters, sameText] at extracted
  refine ⟨scope, extracted, ?_⟩
  rw [tables, characters, FromEntry.entryAt?_name (absent (free.not_mem (by decide)) (by decide))
    (absent (free.not_mem (by decide)) (by decide)) (absent (free.not_mem (by decide)) (by decide))
    reading]
  rfl

/-- What is read as an alias is the bare name that was found. -/
theorem nameOf_alias (free : Free word) {fragment : Fragment}
    (reading : FromEntry.readAlias? 1 (' ' :: word.toList) = some fragment) :
    Bare .folded fragment.characters ∧
      FromEntry.nameOf (encoded ('t' :: ' ' :: word.toList)) fragment =
        String.ofList fragment.characters := by
  have noQuote : '"' ∉ ' ' :: word.toList :=
    List.not_mem_append (by decide : '"' ∉ [' ']) (free.not_mem (by decide))
  obtain ⟨used, rest, after, whole, _, _, isName, _⟩ := exists_read_of_readAlias? reading
  rw [whole] at noQuote
  obtain ⟨rfl, bare⟩ := read?_bare (fun member => noQuote (List.mem_append_right _ member)) isName
  have notQuoted : fragment.characters.head? ≠ some '"' := fun isQuote =>
    noQuote (List.mem_append_right _ (List.mem_append_left _ (List.mem_of_mem_head? isQuote)))
  have inClause : Stands (0 + width ['t']) (' ' :: word.toList) fragment :=
    stands_of_readAlias? (whole ▸ noQuote) reading
  have stands : Stands 0 ('t' :: ' ' :: word.toList) fragment := inClause.behind
  refine ⟨bare, ?_⟩
  rw [FromEntry.nameOf, stands.extract_eq (.refl _), text_encoded,
    Identifier.unquote_of_head? notQuoted]

/-- An alias that is a whole word has only characters of identifiers. -/
theorem isFolded_of_aliasOf (free : Free word) (isAlias : aliasOf word = some word) :
    isFolded word = true := by
  obtain ⟨fragment, allowed, isName⟩ := Option.map_eq_some_iff.mp isAlias
  obtain ⟨bare, named⟩ := free.nameOf_alias (Option.eq_some_of_filter_eq_some allowed)
  rw [free.isFolded_iff, ← isName, named, String.toList_ofList]
  exact bare.continues

/-- Without blanks, a word that is an alias is read as a name is. -/
theorem aliasOf_eq (free : Free word)
    (solid : ∀ character ∈ word.toList, Text.isBlank character = false) :
    aliasOf word = identifier? word := by
  have ahead : (' ' :: word.toList).dropWhile Text.isBlank = word.toList := by
    rw [List.dropWhile_cons_of_pos (by decide)]
    cases isWord : word.toList with
    | nil => rfl
    | cons first rest =>
      have notBlank := solid first (isWord ▸ List.mem_cons_self)
      rw [List.dropWhile_cons_of_neg (by simp [notBlank])]
  have notAs : Identifier.afterAs? word.toList = none := by
    rw [Identifier.afterAs?.eq_def]
    split
    · rename_i first second rest isWord
      have unended : rest.head?.any Text.isBlank = false := by
        cases rest with
        | nil => rfl
        | cons third others => exact solid third (isWord ▸ by simp)
      rw [unended, Bool.and_false, if_neg Bool.false_ne_true]
    · rfl
  have beginsBlank : Text.isBlank ' ' = true := by decide
  have isRead : FromEntry.readAlias? 1 (' ' :: word.toList) =
      (Identifier.read? .folded word.toList).map fun reading =>
        ⟨1 + (width (' ' :: word.toList) - width word.toList), reading.1⟩ := by
    simp only [FromEntry.readAlias?, List.head?_cons, Option.any_some, beginsBlank, if_true, ahead,
      notAs, Option.bind_none, Option.none_or]
  by_cases nothing : word.toList.takeWhile (Identifier.continuesName .folded) = []
  · rw [free.read?_eq, if_pos nothing, Option.map_none] at isRead
    rw [aliasOf, isRead, identifier?_of_nil nothing]
    rfl
  · rw [free.read?_eq, if_neg nothing, Option.map_some] at isRead
    obtain ⟨bare, named⟩ := free.nameOf_alias isRead
    rw [aliasOf, isRead, identifier?_of_ne_nil nothing, Option.filter_some,
      FromEntry.mayBeName_of_bare bare]
    by_cases reserved : isReserved
        (String.ofList (word.toList.takeWhile (Identifier.continuesName .folded))) = true
    · simp only [reserved, Bool.not_true, Bool.false_eq_true, if_false, if_true, Option.map_none]
    · simp only [reserved, Bool.not_false, Bool.false_eq_true, if_false, if_true, Option.map_some,
        named]

end Word.Free

/-- A word in a FROM clause, as the name of a table and as an alias, is read to its last character
exactly if all of its characters are of ASCII or fold to a letter of ASCII. Otherwise the characters
before the first other one are the name, unless there are none or they are reserved; and so for an
alias, if the word has no blanks. -/
theorem extract_word_iff (word : String) (whole : Word.isWhole word = true)
    (unreserved : Word.isReserved word = false) :
    (∃ scope, extract ("SELECT * FROM " ++ word) = [scope] ∧
      scope.tables.map (·.tableName) = (Word.identifier? word).toList.map some ∧
      (scope.tables.map (·.tableName) = [some word] ↔ Word.isFolded word = true)) ∧
    ∃ scope reference, extract ("SELECT * FROM t " ++ word) = [scope] ∧
      scope.tables = [reference] ∧ reference.tableName = some "t" ∧
      (reference.aliasName = some word ↔ Word.isFolded word = true) ∧
      ((∀ character ∈ word.toList, Text.isBlank character = false) →
        reference.aliasName = Word.identifier? word) := by
  have free := Word.Free.of_isWhole whole unreserved
  obtain ⟨scope, extracted, tables⟩ := free.exists_scope
  obtain ⟨other, extractedAlias, tablesAlias⟩ := free.exists_scope_alias
  refine ⟨⟨scope, extracted, tables, ?_⟩, other, _, extractedAlias, tablesAlias, rfl, ?_,
    free.aliasOf_eq⟩
  · rw [tables, ← free.identifier?_eq_some_iff]
    cases Word.identifier? word with
    | none => simp
    | some name => simp
  · refine ⟨free.isFolded_of_aliasOf, fun isFolded => ?_⟩
    have solid : ∀ character ∈ word.toList, Text.isBlank character = false := fun character member =>
      not_isBlank_of_continuesName (free.isFolded_iff.mp isFolded character member)
    rw [← free.identifier?_eq_some_iff, ← free.aliasOf_eq solid] at isFolded
    exact isFolded

/-- A word with an accent, which is cut off in front of it. -/
theorem extract_word_iff_accented :
    (Word.isWhole "café" = true ∧ Word.isReserved "café" = false ∧ Word.isFolded "café" = false) ∧
    (∃ scope, extract ("SELECT * FROM " ++ "café") = [scope] ∧
      scope.tables.map (·.tableName) = [some "caf"]) ∧
    ∃ scope reference, extract ("SELECT * FROM t " ++ "café") = [scope] ∧
      scope.tables = [reference] ∧ reference.tableName = some "t" ∧
      reference.aliasName = some "caf" := by
  have hypotheses : Word.isWhole "café" = true ∧ Word.isReserved "café" = false ∧
      Word.isFolded "café" = false := by decide +kernel
  have isCut : Word.identifier? "café" = some "caf" := by decide
  have solid : ∀ character ∈ "café".toList, Text.isBlank character = false := by
    have checked : "café".toList.all (fun character => !Text.isBlank character) = true := by decide
    exact fun character member => Bool.not_eq_true' _ ▸ List.all_eq_true.mp checked character member
  obtain ⟨⟨scope, extracted, tables, _⟩, other, reference, extractedAlias, tablesAlias, isTable, _,
    aliasName⟩ := extract_word_iff "café" hypotheses.1 hypotheses.2.1
  rw [isCut] at tables
  exact ⟨hypotheses, ⟨scope, extracted, tables⟩, other, reference, extractedAlias, tablesAlias,
    isTable, (aliasName solid).trans isCut⟩

end QueryScope
