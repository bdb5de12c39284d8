import Mathlib.Data.List.Basic
import QueryScope.Proofs.WrittenNames
import QueryScope.Proofs.FlatQueries

/-!
# Items as they are written

An item is a path of names with an optional alias, with or without `AS`. FROM clauses and select
lists are made of items. An item is spelled in the same way in a query and in its code view, except
for the names in it, so a piece of one is a piece of the other at the same place.

In the code view an item has no separator and no parenthesis, a search for keywords passes over it,
and its path is read name by name.
-/

namespace QueryScope

/-- What is solid at both ends stays so with anything between. -/
theorem SolidEnds.join {α : Type} {blank : α → Bool} {first second : List α}
    (left : SolidEnds blank first) (middle : List α) (right : SolidEnds blank second) :
    SolidEnds blank (first ++ (middle ++ second)) := by
  obtain ⟨head, rest, rfl, headSolid⟩ := left.first
  obtain ⟨front, last, rfl, lastSolid⟩ := right.last
  constructor
  · exact ⟨head, rest ++ (middle ++ (front ++ [last])), rfl, headSolid⟩
  · exact ⟨head :: rest ++ (middle ++ front), last, by simp only [List.append_assoc], lastSolid⟩

/-- A list without blanks is solid at both ends. -/
theorem SolidEnds.of_solid {α : Type} {blank : α → Bool} {list : List α} (nonempty : list ≠ [])
    (solid : ∀ element ∈ list, blank element = false) : SolidEnds blank list := by
  constructor
  · obtain ⟨first, rest, rfl⟩ := List.exists_cons_of_ne_nil nonempty
    exact ⟨first, rest, rfl, solid first List.mem_cons_self⟩
  · exact ⟨list.dropLast, list.getLast nonempty, (List.dropLast_append_getLast nonempty).symm,
      solid _ (List.getLast_mem nonempty)⟩

namespace Written

open EntryShape Bytes

/-- The bytes of a character that is no blank are no blanks. -/
theorem not_isBlank_of_mem_utf8EncodeChar {character : Char}
    (solid : Text.isBlank character = false) {byte : UInt8}
    (member : byte ∈ String.utf8EncodeChar character) : Byte.isBlank byte = false := by
  rw [Bool.eq_false_iff]
  intro blank
  rw [eq_of_mem_utf8EncodeChar (Byte.ascii_of_blank blank) member] at solid
  rcases Byte.blank_eq blank with rfl | rfl | rfl | rfl | rfl <;> exact absurd solid (by decide)

/-- What is solid in characters is solid in bytes. -/
theorem solidEnds_encoded {characters : List Char} (solid : SolidEnds Text.isBlank characters) :
    SolidEnds Byte.isBlank (encoded characters) := by
  have one {character : Char} (characterSolid : Text.isBlank character = false) :
      SolidEnds Byte.isBlank (String.utf8EncodeChar character) :=
    SolidEnds.of_solid String.utf8EncodeChar_ne_nil
      fun byte member => not_isBlank_of_mem_utf8EncodeChar characterSolid member
  constructor
  · obtain ⟨first, rest, rfl, firstSolid⟩ := solid.first
    obtain ⟨byte, others, isEncoded, byteSolid⟩ := (one firstSolid).first
    exact ⟨byte, others ++ encoded rest, by rw [encoded_cons, isEncoded, List.cons_append], byteSolid⟩
  · obtain ⟨front, last, rfl, lastSolid⟩ := solid.last
    obtain ⟨others, byte, isEncoded, byteSolid⟩ := (one lastSolid).last
    refine ⟨encoded front ++ others, byte, ?_, byteSolid⟩
    rw [encoded_append, encoded_cons, isEncoded, List.append_assoc]
    simp

/-- What is solid at both ends is not changed by trimming. -/
theorem trim_of_solidEnds {characters : List Char} (solid : SolidEnds Text.isBlank characters) :
    Text.trim (String.ofList characters) = String.ofList characters := by
  have leading : characters.dropWhile Text.isBlank = characters := by
    obtain ⟨first, rest, rfl, firstSolid⟩ := solid.first
    rw [List.dropWhile_cons_of_neg (by simp [firstSolid])]
  obtain ⟨front, last, isCharacters, lastSolid⟩ := solid.last
  rw [Text.trim, String.toList_ofList, Text.trimCharacters, Text.dropLeadingBlanks, leading,
    Text.dropTrailingBlanks, isCharacters, List.reverse_append, List.reverse_singleton,
    List.singleton_append, List.dropWhile_cons_of_neg (by simp [lastSolid]), List.reverse_cons,
    List.reverse_reverse]

/-- A name that is between quotes begins and ends with a quote. -/
theorem solidEnds_quoted (inside : List Char) : SolidEnds Text.isBlank ('"' :: inside ++ ['"']) :=
  ⟨⟨'"', inside ++ ['"'], rfl, rfl⟩, ⟨'"' :: inside, '"', rfl, rfl⟩⟩

/-- A plain name has no blanks at all. -/
theorem PlainName.solidEnds (name : PlainName) :
    SolidEnds Text.isBlank name.spelling.toList := by
  apply SolidEnds.of_solid
  · obtain ⟨first, others, spelled, _⟩ := name.spelled
    rw [spelled]
    exact List.cons_ne_nil _ _
  · intro character member
    exact BareName.not_isBlank_of_continuesName (name.continues character member)

theorem Name.solidEnds_written (name : Name) : SolidEnds Text.isBlank name.written := by
  cases name with
  | plain name => exact name.solidEnds
  | quoted content => exact solidEnds_quoted _

theorem Name.solidEnds_shown (name : Name) : SolidEnds Text.isBlank name.shown := by
  cases name with
  | plain name => exact name.solidEnds
  | quoted content => exact solidEnds_quoted _

/-! ## Items -/

/-- An alias, with or without the word `AS` in front of it. -/
structure Alias where
  isExplicit : Bool
  name : Name
deriving DecidableEq

/-- A path of names with an optional alias. -/
structure Item where
  /-- The names in front of the last one. -/
  qualifier : List Name
  /-- The last name of the path. -/
  name : Name
  aliasName : Option Alias
deriving DecidableEq

section Spelling

variable (spelling : Name → List Char)

/-- The names in front of the last one, each with its dot. -/
def spellQualifier (qualifier : List Name) : List Char :=
  qualifier.flatMap fun name => spelling name ++ ['.']

/-- What comes between a path and its alias. -/
def Alias.introduction (aliasName : Alias) : List Char :=
  if aliasName.isExplicit then [' ', 'A', 'S', ' '] else [' ']

/-- The alias of an item, if it has one, and what introduces it. -/
def spellAlias (aliasName : Option Alias) : List Char :=
  aliasName.elim [] fun aliasName => aliasName.introduction ++ spelling aliasName.name

/-- How an item is spelled when its names are spelled as given. -/
def Item.spell (item : Item) : List Char :=
  spellQualifier spelling item.qualifier ++ (spelling item.name ++ spellAlias spelling item.aliasName)

end Spelling

/-- The name that an item goes by, which ends it: its alias, or else the last name of its path. -/
def Item.label (item : Item) : Name := item.aliasName.elim item.name (·.name)

/-- What holds of the pieces that an item is made of, each ended by a mark, and goes on from piece to
piece, holds of the item. The pieces are compared in two spellings. -/
theorem Item.of_pieces (holds : List Char → List Char → Prop) {mark : Char}
    (append : ∀ {first first' second second' : List Char}, holds first first' →
      holds second second' → holds (first ++ second) (first' ++ second'))
    (named : ∀ (name : Name), ∀ ending ∈ ['.', ' ', mark],
      holds (name.written ++ [ending]) (name.shown ++ [ending]))
    (word : holds ['A', 'S', ' '] ['A', 'S', ' ']) (nothing : holds [] []) (item : Item) :
    holds (item.spell Name.written ++ [mark]) (item.spell Name.shown ++ [mark]) := by
  have qualified (qualifier : List Name) : holds (spellQualifier Name.written qualifier)
      (spellQualifier Name.shown qualifier) := by
    induction qualifier with
    | nil => exact nothing
    | cons name others inductionHypothesis =>
      exact append (named name '.' (by simp)) inductionHypothesis
  obtain ⟨qualifier, name, aliasName⟩ := item
  simp only [Item.spell, List.append_assoc]
  apply append (qualified qualifier)
  rcases aliasName with _ | ⟨isExplicit, aliasName⟩
  · exact named name mark (by simp)
  · have ended := named aliasName mark (by simp)
    have path := named name ' ' (by simp)
    cases isExplicit with
    | false =>
      have whole := append path ended
      simpa [spellAlias, Alias.introduction] using whole
    | true =>
      have whole := append path (append word ended)
      simpa [spellAlias, Alias.introduction] using whole

/-! ## What the code view shows of an item -/

/-- The marks that may end a piece of an item. -/
def isSeparator (character : Char) : Bool :=
  character == '.' || character == ' ' || character == ','

/-- A separator is a byte that opens nothing and that no keyword begins with. -/
theorem exists_mark_of_isSeparator {character : Char} (separates : isSeparator character = true) :
    ∃ byte, encoded [character] = [byte] ∧ Keyword.isMark byte = true ∧
      opensNothing byte = true := by
  simp only [isSeparator, Bool.or_eq_true, beq_iff_eq] at separates
  rcases separates with (rfl | rfl) | rfl
  · exact ⟨Byte.dot, by decide⟩
  · exact ⟨Byte.space, by decide⟩
  · exact ⟨Byte.comma, by decide⟩

theorem isSeparator_of_mem {mark ending : Char} (separates : isSeparator mark = true)
    (member : ending ∈ ['.', ' ', mark]) : isSeparator ending = true := by
  simp only [List.mem_cons, List.not_mem_nil, or_false] at member
  rcases member with rfl | rfl | rfl
  · rfl
  · rfl
  · exact separates

/-- A piece of a query, and what the code view shows of it whatever follows. -/
def SeenAs (written shown : List Char) : Prop :=
  ∀ rest, CodeView.viewFrom .code (encoded written ++ rest) =
    encoded shown ++ CodeView.viewFrom .code rest

/-- One piece after another. -/
theorem SeenAs.append {first first' second second' : List Char} (front : SeenAs first first')
    (back : SeenAs second second') : SeenAs (first ++ second) (first' ++ second') := by
  intro rest
  rw [encoded_append, encoded_append, List.append_assoc, front, back, List.append_assoc]

/-- A piece that opens nothing is shown as it is. -/
theorem seenAs_self {characters : List Char}
    (plain : ∀ byte ∈ encoded characters, opensNothing byte = true) :
    SeenAs characters characters := fun rest => viewFrom_code_append plain rest

/-- A name that a separator ends is shown hollow. -/
theorem Name.seenAs (name : Name) {mark : Char} (separates : isSeparator mark = true) :
    SeenAs (name.written ++ [mark]) (name.shown ++ [mark]) := by
  obtain ⟨byte, isByte, _, opens⟩ := exists_mark_of_isSeparator separates
  have plain : ∀ other ∈ [byte], opensNothing other = true := by
    intro other member
    rwa [List.mem_singleton.mp member]
  intro rest
  have notQuote : ([byte] ++ rest).head? ≠ some Byte.doubleQuote := by
    rintro same
    rw [Option.some.inj same] at opens
    cases opens
  rw [encoded_append, encoded_append, isByte, List.append_assoc, name.viewFrom_written notQuote,
    viewFrom_code_append plain, List.append_assoc]

/-- An item that a separator ends is shown with its names hollow. -/
theorem Item.seenAs (item : Item) {mark : Char} (separates : isSeparator mark = true) :
    SeenAs (item.spell Name.written ++ [mark]) (item.spell Name.shown ++ [mark]) := by
  apply Item.of_pieces SeenAs SeenAs.append
  · exact fun name ending member => name.seenAs (isSeparator_of_mem separates member)
  · exact seenAs_self (List.all_eq_true.mp (by decide))
  · exact fun _ => rfl

/-- What is shown before a blank is shown at the end of a query. -/
theorem codeView_of_seenAs {written shown : List Char}
    (seen : SeenAs (written ++ [' ']) (shown ++ [' '])) :
    codeView (encoded written) = encoded shown := by
  have blank : encoded [' '] = [Byte.space] := by decide
  have padded := seen []
  rw [encoded_append, encoded_append, blank, List.append_nil, CodeView.viewFrom_append,
    List.head?_cons, CodeView.viewBefore_of_not_endsMark CodeView.reachable_code _ (by decide),
    CodeView.viewFrom, List.append_nil] at padded
  exact (List.append_inj' padded (by rw [CodeView.length_viewFrom])).1

/-! ## Searching in an item -/

/-- Whether a keyword is the semicolon or begins with a reserved word. -/
def beginsReserved (keyword : Keyword) : Bool :=
  keyword.words.head?.any fun first =>
    first == [Keyword.semicolon] || Word.reserved.any fun word => Bytes.ofString word == first

/-- Keywords that are not met in an item: each begins with a reserved word other than `AS`. -/
structure Unmet (keywords : List Keyword) : Prop where
  orderly : ∀ keyword ∈ keywords, keyword.isOrderly = true
  reserved : ∀ keyword ∈ keywords, beginsReserved keyword = true
  notAs : ∀ keyword ∈ keywords, keyword.isForeign (Bytes.ofString "AS") = true

/-- The characters of a plain name are of ASCII. -/
theorem ascii_of_continuesName {character : Char}
    (continues : Identifier.continuesName .plain character = true) : character.toNat < 128 := by
  have small (bound : Char) (isSmall : bound.toNat < 128) (below : character.val ≤ bound.val) :
      character.toNat < 128 := Nat.lt_of_le_of_lt (UInt32.le_iff_toNat_le.mp below) isSmall
  have noFold : (Letters.plain == Letters.folded) = false := rfl
  simp only [Identifier.continuesName, Identifier.startsName, Letters.contains, Char.isDigit, noFold,
    Bool.false_and, Bool.or_false, Bool.or_eq_true, Bool.and_eq_true, decide_eq_true_eq,
    beq_iff_eq] at continues
  rcases continues with (((( alpha | rfl) | digit) | rfl) | rfl) | rfl
  · delta Char.isAlpha Char.isUpper Char.isLower at alpha
    simp only [Bool.or_eq_true, Bool.and_eq_true, decide_eq_true_eq] at alpha
    rcases alpha with upper | lower
    · exact small 'Z' (by decide) upper.2
    · exact small 'z' (by decide) lower.2
  · decide
  · exact small '9' (by decide) digit.2
  · decide
  · decide
  · decide

/-- The bytes of a plain name belong to a word. -/
theorem PlainName.isWordByte_of_mem (name : PlainName) :
    ∀ byte ∈ encoded name.spelling.toList, Byte.isWordByte byte = true := by
  have checked : ∀ point < 128, Identifier.continuesName .plain (Char.ofNat point) = true →
      (String.utf8EncodeChar (Char.ofNat point)).all Byte.isWordByte = true := by
    decide
  intro byte member
  obtain ⟨character, isCharacter, isByte⟩ := List.mem_flatMap.mp member
  have continues := name.continues character isCharacter
  have words := checked character.toNat (ascii_of_continuesName continues)
  rw [Char.ofNat_toNat] at words
  exact List.all_eq_true.mp (words continues) byte isByte

theorem PlainName.encoded_ne_nil (name : PlainName) : encoded name.spelling.toList ≠ [] := by
  obtain ⟨first, others, isEncoded, _⟩ := (solidEnds_encoded name.solidEnds).first
  rw [isEncoded]
  exact List.cons_ne_nil _ _

/-- What is not reserved differs from every reserved word, in bytes. -/
theorem not_sameIgnoringCase_of_not_isReserved {name word : String}
    (notReserved : Word.isReserved name = false) (reserved : word ∈ Word.reserved) :
    sameIgnoringCase (Bytes.ofString name) (Bytes.ofString word) = false := by
  rw [Word.isReserved, List.any_eq_false] at notReserved
  have different := notReserved word reserved
  rw [← Bytes.sameIgnoringCase_ofString, Bool.not_eq_true] at different
  exact different

/-- A word that is not reserved is not the first word of a keyword that begins with a reserved
word. -/
theorem isForeign_of_not_isReserved {name : String} (nonempty : Bytes.ofString name ≠ [])
    (isWord : ∀ byte ∈ Bytes.ofString name, Byte.isWordByte byte = true)
    (notReserved : Word.isReserved name = false) {keyword : Keyword}
    (reserved : beginsReserved keyword = true) :
    keyword.isForeign (Bytes.ofString name) = true := by
  cases isFirst : keyword.words.head? with
  | none => rw [Keyword.isForeign, isFirst, Option.all_none]
  | some first =>
    rw [beginsReserved, isFirst, Option.any_some, Bool.or_eq_true, beq_iff_eq,
      List.any_eq_true] at reserved
    rw [Keyword.isForeign, isFirst, Option.all_some, Bool.not_eq_true']
    rcases reserved with rfl | ⟨word, isReserved, isFirst⟩
    · -- The semicolon is no byte of a word.
      rw [Bool.eq_false_iff]
      intro same
      rw [sameIgnoringCase, beq_iff_eq] at same
      obtain ⟨byte, others, isEncoded⟩ := List.exists_cons_of_ne_nil nonempty
      rw [isEncoded] at same
      have isSemicolon : Byte.upper byte = Keyword.semicolon := (List.cons.inj same).1
      have isWordByte := isWord byte (by simp [isEncoded])
      rw [← (Byte.sameClasses_upper byte).word, isSemicolon] at isWordByte
      cases isWordByte
    · rw [← beq_iff_eq.mp isFirst]
      exact not_sameIgnoringCase_of_not_isReserved notReserved isReserved

/-- A plain name is no reserved word, in bytes. -/
theorem PlainName.not_sameIgnoringCase (name : PlainName) {word : String}
    (reserved : word ∈ Word.reserved) :
    sameIgnoringCase (encoded name.spelling.toList) (Bytes.ofString word) = false :=
  not_sameIgnoringCase_of_not_isReserved name.not_isReserved reserved

/-- A plain name is not the first word of a keyword that begins with a reserved word. -/
theorem PlainName.isForeign (name : PlainName) {keyword : Keyword}
    (reserved : beginsReserved keyword = true) :
    keyword.isForeign (encoded name.spelling.toList) = true :=
  isForeign_of_not_isReserved name.encoded_ne_nil name.isWordByte_of_mem name.not_isReserved reserved

/-- A search passes over a name that a separator ends. -/
theorem Name.silent {keywords : List Keyword} (unmet : Unmet keywords) (name : Name) {mark : Char}
    (separates : isSeparator mark = true) :
    Keyword.Silent keywords (encoded (name.shown ++ [mark])) := by
  obtain ⟨byte, isByte, isMark, _⟩ := exists_mark_of_isSeparator separates
  rw [encoded_append, isByte]
  cases name with
  | plain name =>
    exact Keyword.silent_word unmet.orderly name.encoded_ne_nil name.isWordByte_of_mem
      (fun keyword member => name.isForeign (unmet.reserved keyword member)) isMark
  | quoted content =>
    apply Keyword.silent_marks unmet.orderly
    intro other member
    rw [List.mem_append, List.mem_singleton] at member
    rcases member with inName | rfl
    · obtain ⟨character, isCharacter, isOther⟩ := List.mem_flatMap.mp inName
      have blankOrQuote : character ∈ ['"', ' ', '\n'] := by
        simp only [Name.shown, List.cons_append, List.mem_cons, List.mem_append,
          List.not_mem_nil, or_false] at isCharacter ⊢
        rcases isCharacter with isQuote | inside | isQuote
        · exact .inl isQuote
        · exact .inr (isShown_of_mem_blanksFor character inside)
        · exact .inl isQuote
      have checked : ['"', ' ', '\n'].all (fun shown =>
          (String.utf8EncodeChar shown).all Keyword.isMark) = true := by decide
      have marks := List.all_eq_true.mp checked character blankOrQuote
      exact List.all_eq_true.mp marks other isOther
    · exact isMark

/-- A search passes over an item that a separator ends. -/
theorem Item.silent {keywords : List Keyword} (unmet : Unmet keywords) (item : Item) {mark : Char}
    (separates : isSeparator mark = true) :
    Keyword.Silent keywords (encoded (item.spell Name.shown ++ [mark])) := by
  apply Item.of_pieces fun _ shown => Keyword.Silent keywords (encoded shown)
  · intro first first' second second' front back
    rw [encoded_append]
    exact front.append back
  · exact fun name ending member => name.silent unmet (isSeparator_of_mem separates member)
  · have isWord : ∀ byte ∈ Bytes.ofString "AS", Byte.isWordByte byte = true :=
      List.all_eq_true.mp (by decide)
    exact Keyword.silent_word unmet.orderly (by decide) isWord unmet.notAs (by decide)
  · exact Keyword.silent_nil

/-! ## The characters of an item -/

/-- A search passes over an item, a comma and a blank. -/
theorem Item.silent_comma {keywords : List Keyword} (unmet : Unmet keywords) (item : Item) :
    Keyword.Silent keywords (encoded (item.spell Name.shown ++ [',', ' '])) := by
  have comma := item.silent unmet (rfl : isSeparator ',' = true)
  have blank : ∀ byte ∈ encoded [' '], Keyword.isMark byte = true :=
    List.all_eq_true.mp (by decide)
  have silent := comma.append (Keyword.silent_marks unmet.orderly blank)
  rwa [← encoded_append, List.append_assoc] at silent

/-- An item is shown with the characters of names and with dots. -/
theorem Item.isShown_of_mem (item : Item) :
    ∀ character ∈ item.spell Name.shown, isShown character = true ∨ character = '.' := by
  intro character member
  simp only [Item.spell, spellQualifier, List.mem_append, List.mem_flatMap,
    List.mem_singleton] at member
  rcases member with ⟨name, _, inName | isDot⟩ | inName | inAlias
  · exact .inl (name.isShown_of_mem character inName)
  · exact .inr isDot
  · exact .inl (item.name.isShown_of_mem character inName)
  · cases isAlias : item.aliasName with
    | none =>
      rw [isAlias] at inAlias
      cases inAlias
    | some aliasName =>
      rw [isAlias, spellAlias, Option.elim_some, List.mem_append] at inAlias
      rcases inAlias with introduces | inName
      · have shown : aliasName.introduction.all isShown = true := by
          rw [Alias.introduction]
          split <;> decide
        exact .inl (List.all_eq_true.mp shown character introduces)
      · exact .inl (aliasName.name.isShown_of_mem character inName)

/-- An item has no comma and no parenthesis in the code view. -/
theorem Item.plain_of_mem (item : Item) :
    ∀ byte ∈ encoded (item.spell Name.shown),
      byte ≠ Byte.comma ∧ isParenthesis byte = false := by
  intro byte member
  have absent (other : UInt8) (ascii : other < 0x80)
      (foreign : isShown (Char.ofNat other.toNat) = false ∧ Char.ofNat other.toNat ≠ '.') :
      byte ≠ other := by
    rintro rfl
    rcases item.isShown_of_mem _ (mem_of_mem_encoded ascii member) with isShown | isDot
    · rw [foreign.1] at isShown
      cases isShown
    · exact foreign.2 isDot
  simp only [isParenthesis, Bool.or_eq_false_iff, beq_eq_false_iff_ne]
  exact ⟨absent _ (by decide) (by decide), absent _ (by decide) (by decide),
    absent _ (by decide) (by decide)⟩

/-- A name has neither a dot nor a parenthesis in the code view. -/
theorem Name.plain_of_mem (name : Name) :
    ∀ byte ∈ encoded name.shown, byte ≠ Byte.dot ∧ isParenthesis byte = false := by
  intro byte member
  have absent (other : UInt8) (ascii : other < 0x80)
      (foreign : isShown (Char.ofNat other.toNat) = false) : byte ≠ other := by
    rintro rfl
    have shown := name.isShown_of_mem _ (mem_of_mem_encoded ascii member)
    rw [foreign] at shown
    cases shown
  simp only [isParenthesis, Bool.or_eq_false_iff, beq_eq_false_iff_ne]
  exact ⟨absent _ (by decide) (by decide), absent _ (by decide) (by decide),
    absent _ (by decide) (by decide)⟩

/-- The names in front of the last one take as many bytes in the code view as in the query. -/
theorem width_spellQualifier (qualifier : List Name) :
    width (spellQualifier Name.shown qualifier) = width (spellQualifier Name.written qualifier) := by
  induction qualifier with
  | nil => rfl
  | cons name others inductionHypothesis =>
    simp only [spellQualifier, List.flatMap_cons, width_append, name.width_shown] at *
    rw [inductionHypothesis]

/-- An item takes as many bytes in the code view as in the query. -/
theorem Item.width_shown (item : Item) :
    width (item.spell Name.shown) = width (item.spell Name.written) := by
  obtain ⟨qualifier, name, aliasName⟩ := item
  cases aliasName with
  | none => simp only [Item.spell, spellAlias, Option.elim_none, width_append,
      width_spellQualifier, name.width_shown]
  | some aliasName => simp only [Item.spell, spellAlias, Option.elim_some, width_append,
      width_spellQualifier, name.width_shown, aliasName.name.width_shown]

section Ends

variable (spelling : Name → List Char)

/-- An item begins with a name, behind which comes a separator or nothing. -/
theorem Item.exists_first (item : Item) :
    ∃ name rest, item.spell spelling = spelling name ++ rest ∧
      ∀ next ∈ rest.head?, isSeparator next = true := by
  obtain ⟨qualifier, name, aliasName⟩ := item
  cases qualifier with
  | cons first others =>
    refine ⟨first, '.' :: (spellQualifier spelling others ++
      (spelling name ++ spellAlias spelling aliasName)), ?_, ?_⟩
    · simp only [Item.spell, spellQualifier, List.flatMap_cons, List.append_assoc,
        List.cons_append, List.nil_append]
    · rintro next isNext
      cases isNext
      rfl
  | nil =>
    refine ⟨name, spellAlias spelling aliasName, rfl, ?_⟩
    rintro next isNext
    rcases aliasName with _ | ⟨_ | _, aliasName⟩
    · cases isNext
    · cases isNext
      rfl
    · cases isNext
      rfl

/-- An item ends with its label, in front of which comes a separator or nothing. -/
theorem Item.exists_last (item : Item) :
    ∃ front, item.spell spelling = front ++ spelling item.label ∧
      ∀ previous ∈ front.getLast?, isSeparator previous = true := by
  obtain ⟨qualifier, name, aliasName⟩ := item
  rcases aliasName with _ | ⟨isExplicit, aliasName⟩
  · refine ⟨spellQualifier spelling qualifier, by simp [Item.spell, spellAlias, Item.label], ?_⟩
    rcases List.eq_nil_or_concat qualifier with rfl | ⟨others, last, rfl⟩
    · rintro previous isPrevious
      cases isPrevious
    · intro previous isPrevious
      simp only [spellQualifier, List.concat_eq_append, List.flatMap_append,
        List.flatMap_singleton, ← List.append_assoc, List.getLast?_concat,
        Option.mem_some_iff] at isPrevious
      rw [← isPrevious]
      rfl
  · refine ⟨spellQualifier spelling qualifier ++
      (spelling name ++ Alias.introduction ⟨isExplicit, aliasName⟩), ?_, ?_⟩
    · simp only [Item.spell, spellAlias, Item.label, Option.elim_some, List.append_assoc]
    · intro previous isPrevious
      cases isExplicit <;>
        simp [Alias.introduction, List.getLast?_append] at isPrevious <;>
        rw [← isPrevious] <;> rfl

variable {spelling}

/-- An item is solid at both ends when its names are. -/
theorem Item.solidEnds (solid : ∀ name, SolidEnds Text.isBlank (spelling name)) (item : Item) :
    SolidEnds Text.isBlank (item.spell spelling) := by
  constructor
  · obtain ⟨name, rest, isItem, _⟩ := item.exists_first spelling
    obtain ⟨first, others, isName, firstSolid⟩ := (solid name).first
    exact ⟨first, others ++ rest, by rw [isItem, isName, List.cons_append], firstSolid⟩
  · obtain ⟨front, isItem, _⟩ := item.exists_last spelling
    obtain ⟨others, last, isName, lastSolid⟩ := (solid item.label).last
    exact ⟨front ++ others, last, by rw [isItem, isName, List.append_assoc], lastSolid⟩

end Ends

/-- An item does not begin with a reserved word. -/
theorem Item.not_reserved_first (item : Item) {rest : Bytes}
    (ends : rest.head?.any Byte.isWordByte = false) {word : String}
    (reserved : word ∈ Word.reserved) :
    sameIgnoringCase ((encoded (item.spell Name.shown) ++ rest).takeWhile Byte.isWordByte)
      (Bytes.ofString word) = false := by
  obtain ⟨name, behind, isItem, separated⟩ := item.exists_first Name.shown
  rw [isItem, encoded_append, List.append_assoc]
  cases name with
  | plain name =>
    have stops : (encoded behind ++ rest).takeWhile Byte.isWordByte = [] := by
      cases behind with
      | nil =>
        cases rest with
        | nil => rfl
        | cons next others => exact List.takeWhile_cons_of_neg (by simpa using ends)
      | cons next others =>
        obtain ⟨byte, isByte, isMark, _⟩ := exists_mark_of_isSeparator (separated next rfl)
        simp only [Keyword.isMark, Bool.and_eq_true, Bool.not_eq_true'] at isMark
        have isCons : encoded (next :: others) = [byte] ++ encoded others := by
          rw [← isByte]
          exact encoded_append [next] others
        rw [isCons, List.append_assoc, List.singleton_append,
          List.takeWhile_cons_of_neg (by simp [isMark.1.1])]
    rw [Name.shown, List.takeWhile_append_of_pos name.isWordByte_of_mem, stops, List.append_nil]
    exact name.not_sameIgnoringCase reserved
  | quoted content =>
    have nothing : (encoded (Name.quoted content).shown ++
        (encoded behind ++ rest)).takeWhile Byte.isWordByte = [] := rfl
    have checked : ∀ word ∈ Word.reserved, sameIgnoringCase [] (Bytes.ofString word) = false := by
      decide
    rw [nothing]
    exact checked word reserved

/-! ## A query around two clauses -/

/-- A clause as it is written and as the code view shows it. -/
structure Spelled (clause : Clause) (written shown : List Char) : Prop where
  seen : SeenAs (written ++ [' ']) (shown ++ [' '])
  width_eq : width shown = width written
  closed : FlatQuery.Closed clause (encoded shown)
  flat : FlatQuery.Flat (encoded shown)

theorem Spelled.length_eq {clause : Clause} {written shown : List Char}
    (spelled : Spelled clause written shown) :
    (encoded shown).length = (encoded written).length := by
  rw [length_encoded, length_encoded, spelled.width_eq]

/-- One item is a clause. -/
theorem Item.spelled {clause : Clause} (unmet : Unmet (clause.terminators.map (·.keyword)))
    (item : Item) : Spelled clause (item.spell Name.written) (item.spell Name.shown) where
  seen := item.seenAs rfl
  width_eq := item.width_shown
  closed := by
    have blank : encoded [' '] = [Byte.space] := by decide
    have silent := item.silent unmet (rfl : isSeparator ' ' = true)
    rw [encoded_append, blank] at silent
    exact ⟨silent, solidEnds_encoded (item.solidEnds Name.solidEnds_shown)⟩
  flat byte member := (item.plain_of_mem byte member).2

/-- A comma with a blank behind it opens nothing and has no parenthesis. -/
theorem plain_of_mem_comma :
    ∀ byte ∈ encoded [',', ' '], opensNothing byte = true ∧ isParenthesis byte = false := by
  have checked : (encoded [',', ' ']).all (fun byte => opensNothing byte && !isParenthesis byte) =
      true := by decide
  intro byte member
  simpa using List.all_eq_true.mp checked byte member

/-- An item and a separator in front of a clause. -/
theorem Spelled.behind {clause : Clause} {written shown : List Char}
    (rest : Spelled clause written shown) (item : Item) {mark : Char} {separator : List Char}
    (separates : isSeparator mark = true)
    (plain : ∀ byte ∈ encoded (mark :: separator),
      opensNothing byte = true ∧ isParenthesis byte = false)
    (silent : Keyword.Silent (clause.terminators.map (·.keyword))
      (encoded (item.spell Name.shown ++ mark :: separator))) :
    Spelled clause (item.spell Name.written ++ (mark :: separator ++ written))
      (item.spell Name.shown ++ (mark :: separator ++ shown)) where
  seen := by
    have separatorSeen : SeenAs separator separator := by
      apply seenAs_self
      intro byte member
      apply (plain byte _).1
      rw [encoded_cons]
      exact List.mem_append_right _ member
    have seen := (item.seenAs separates).append (separatorSeen.append rest.seen)
    simpa only [List.append_assoc, List.nil_append, List.cons_append] using seen
  width_eq := by simp only [width_append, item.width_shown, rest.width_eq]
  closed := by
    have both := silent.append rest.closed.silent
    have solid := (solidEnds_encoded (item.solidEnds Name.solidEnds_shown)).join
      (encoded (mark :: separator)) rest.closed.solid
    simp only [encoded_append, List.append_assoc] at both
    rw [encoded_append, encoded_append]
    refine ⟨?_, solid⟩
    simpa only [List.append_assoc] using both
  flat := by
    intro byte member
    simp only [encoded_append, List.mem_append] at member
    rcases member with inItem | inSeparator | inRest
    · exact (item.plain_of_mem byte inItem).2
    · exact (plain byte inSeparator).2
    · exact rest.flat byte inRest

/-- The characters of a query with a select list and a FROM clause. -/
def query (selected source : List Char) : List Char :=
  ['S', 'E', 'L', 'E', 'C', 'T', ' '] ++
    (selected ++ [' '] ++ (['F', 'R', 'O', 'M', ' '] ++ source))

theorem encoded_query (selected source : List Char) :
    encoded (query selected source) = FlatQuery.statement (encoded selected) (encoded source) := by
  have select : encoded ['S', 'E', 'L', 'E', 'C', 'T', ' '] =
      Bytes.ofString "SELECT" ++ [Byte.space] := by decide
  have blank : encoded [' '] = [Byte.space] := by decide
  have source : encoded ['F', 'R', 'O', 'M', ' '] = Bytes.ofString "FROM" ++ [Byte.space] := by
    decide
  rw [query, encoded_append, encoded_append, encoded_append, encoded_append, select, blank, source]
  simp only [FlatQuery.statement, List.append_assoc, List.singleton_append]

variable {selected selected' source source' : List Char}

/-- A query is shown with both of its clauses shown. -/
theorem codeOf_query (selectList : Spelled .selectList selected selected')
    (fromClause : Spelled .fromClause source source') :
    codeOf (String.ofList (query selected source)) =
      FlatQuery.statement (encoded selected') (encoded source') := by
  have select : SeenAs ['S', 'E', 'L', 'E', 'C', 'T', ' '] ['S', 'E', 'L', 'E', 'C', 'T', ' '] :=
    seenAs_self (List.all_eq_true.mp (by decide))
  have source : SeenAs ['F', 'R', 'O', 'M', ' '] ['F', 'R', 'O', 'M', ' '] :=
    seenAs_self (List.all_eq_true.mp (by decide))
  have seen := select.append (selectList.seen.append (source.append fromClause.seen))
  rw [codeOf, Bytes.ofString, String.toList_ofList, ← encoded_query]
  apply codeView_of_seenAs
  simpa only [query, List.append_assoc] using seen

/-- A query around two clauses is one scope, which is read from the two clauses. -/
theorem exists_scope (selectList : Spelled .selectList selected selected')
    (fromClause : Spelled .fromClause source source')
    (unquantified : FlatQuery.Unquantified (encoded selected')) :
    ∃ scope, extract (String.ofList (query selected source)) = [scope] ∧
      scope.exposedColumns =
        (SelectItem.columnNames (encoded selected) (encoded selected')).value ∧
      ∃ masked : Masked, scope.tables = (FromEntry.readAll (encoded source)
        (encoded source')).value.map (Outline.link [] masked masked.earlier) := by
  have isCode := codeOf_query selectList fromClause
  have isText : Bytes.ofString (String.ofList (query selected source)) =
      FlatQuery.statement (encoded selected) (encoded source) := by
    rw [← encoded_query, Bytes.ofString, String.toList_ofList, encoded]
  have flat : FlatQuery.Flat (codeOf (String.ofList (query selected source))) := by
    rw [isCode]
    exact FlatQuery.flat_statement selectList.flat fromClause.flat
  have extracted := FlatQuery.extract_of_flat flat
  rw [isCode, isText] at extracted
  have clauses := FlatQuery.value_ofCode_statement selectList.closed fromClause.closed unquantified
  rw [selectList.length_eq, fromClause.length_eq] at clauses
  have selectCode := FlatQuery.extract_selected (encoded selected') (encoded source')
  have fromCode := FlatQuery.extract_source (encoded selected') (encoded source')
  rw [selectList.length_eq] at selectCode
  rw [selectList.length_eq, fromClause.length_eq] at fromCode
  refine ⟨_, extracted, ?_, ⟨FlatQuery.statement (encoded selected) (encoded source),
    FlatQuery.statement (encoded selected') (encoded source'), []⟩, ?_⟩
  · simp only [Outline.assemble, Masked.textAt, Masked.codeAt, Masked.clauses, clauses,
      FlatQuery.extract_selected, selectCode]
  · simp only [Outline.assemble, Masked.entries, Masked.textAt, Masked.codeAt, Masked.clauses,
      clauses, FlatQuery.extract_source, fromCode]

end Written

end QueryScope
