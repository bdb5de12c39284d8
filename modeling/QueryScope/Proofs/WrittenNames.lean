import Mathlib.Data.List.Basic
import QueryScope.Proofs.SchemaParts

/-!
# Names as they are written

A name is written plain, when it is made of ASCII letters, digits, `_`, `$`, `#` and `@` and is not
reserved, or between double quotes, and then it may be any text, with its quotes doubled. In the
code view a quoted name is hollow: only its outer quotes are left. Reading a hollow name tells where
the name stands, and unquoting what is written there gives the name back.

Names make up paths, and a path with an optional alias is an item, as both FROM clauses and select
lists have them. An item is spelled the same way in a query and in its code view, except for the
names in it.
-/

namespace QueryScope.Written

open EntryShape Bytes

/-- Whether a text can be written without quotes. -/
def isPlainName (spelling : String) : Bool :=
  match spelling.toList with
  | [] => false
  | first :: others =>
    (first.isAlpha || first == '_')
      && others.all (fun character => character.isAlphanum || character == '_'
        || character == '$' || character == '#' || character == '@')
      && !Word.isReserved spelling

/-- A name that needs no quotes. -/
structure PlainName where
  spelling : String
  isPlain : isPlainName spelling = true
deriving DecidableEq

/-- A name in one of the two ways of writing it. -/
inductive Name where
  | plain (name : PlainName)
  | quoted (content : String)
deriving DecidableEq

/-- Characters with each double quote written twice. -/
def doubled (content : List Char) : List Char :=
  content.flatMap fun character => if character = '"' then ['"', '"'] else [character]

/-- What stands in the code view for a character between quotes: a blank for each of its bytes. -/
def blanksFor (character : Char) : List Char :=
  if character = '\n' then [character] else List.replicate character.utf8Size ' '

namespace Name

/-- The name itself. -/
def meaning : Name → String
  | plain name => name.spelling
  | quoted content => content

/-- The name as a query spells it. -/
def written : Name → List Char
  | plain name => name.spelling.toList
  | quoted content => '"' :: doubled content.toList ++ ['"']

/-- The name as the code view shows it. -/
def shown : Name → List Char
  | plain name => name.spelling.toList
  | quoted content => '"' :: (doubled content.toList).flatMap blanksFor ++ ['"']

end Name

/-! ## Plain names -/

/-- The letters of ASCII are among the letters of either kind. -/
theorem continuesName_of_plain (letters : Letters) {character : Char}
    (continues : Identifier.continuesName .plain character = true) :
    Identifier.continuesName letters character = true := by
  cases letters with
  | plain => exact continues
  | folded =>
    have noFold : (Letters.plain == Letters.folded) = false := rfl
    simp only [Identifier.continuesName, Identifier.startsName, Letters.contains, noFold,
      Bool.false_and, Bool.or_false, Bool.or_eq_true] at continues ⊢
    grind

/-- How a plain name is made up. -/
theorem PlainName.spelled (name : PlainName) :
    ∃ first others, name.spelling.toList = first :: others ∧
      (∀ letters, Identifier.startsName letters first = true) ∧
      ∀ character ∈ others, Identifier.continuesName .plain character = true := by
  have isPlain := name.isPlain
  rw [isPlainName] at isPlain
  split at isPlain
  · cases isPlain
  · rename_i first others spelled
    simp only [Bool.and_eq_true, List.all_eq_true] at isPlain
    obtain ⟨⟨begins, goesOn⟩, _⟩ := isPlain
    refine ⟨first, others, spelled, ?_, ?_⟩
    · intro letters
      simp only [Identifier.startsName, Letters.contains, Bool.or_eq_true] at begins ⊢
      grind
    · intro character member
      have allowed := goesOn character member
      simp only [Char.isAlphanum, Identifier.continuesName, Identifier.startsName,
        Letters.contains, Bool.or_eq_true] at allowed ⊢
      grind

/-- A plain name is not reserved. -/
theorem PlainName.not_isReserved (name : PlainName) : Word.isReserved name.spelling = false := by
  have isPlain := name.isPlain
  rw [isPlainName] at isPlain
  split at isPlain
  · cases isPlain
  · simp only [Bool.and_eq_true, Bool.not_eq_true'] at isPlain
    exact isPlain.2

/-- Every character of a plain name goes on with a name. -/
theorem PlainName.continues (name : PlainName) :
    ∀ character ∈ name.spelling.toList, Identifier.continuesName .plain character = true := by
  obtain ⟨first, others, spelled, begins, goesOn⟩ := name.spelled
  rw [spelled]
  intro character member
  cases member with
  | head =>
    rw [Identifier.continuesName, begins .plain]
    rfl
  | tail _ member => exact goesOn character member

/-! ## What the code view shows of a name -/

/-- The characters that a name may have in the code view. -/
def isShown (character : Char) : Bool :=
  Identifier.continuesName .plain character || character == '"' || character == ' '
    || character == '\n'

theorem isShown_of_mem_blanksFor {content : List Char} :
    ∀ character ∈ content.flatMap blanksFor, character = ' ' ∨ character = '\n' := by
  intro character member
  obtain ⟨source, _, member⟩ := List.mem_flatMap.mp member
  rw [blanksFor] at member
  split at member
  · rename_i lineFeed
    rw [List.mem_singleton, lineFeed] at member
    exact .inr member
  · exact .inl (List.eq_of_mem_replicate member)

/-- A name is shown with such characters only. -/
theorem Name.isShown_of_mem (name : Name) : ∀ character ∈ name.shown, isShown character = true := by
  intro character member
  cases name with
  | plain name => simp only [isShown, name.continues character member, Bool.true_or]
  | quoted content =>
    rw [Name.shown, List.cons_append, List.mem_cons, List.mem_append, List.mem_singleton] at member
    rcases member with rfl | inside | rfl
    · rfl
    · rcases isShown_of_mem_blanksFor character inside with rfl | rfl <;> rfl
    · rfl

/-- What a character between quotes becomes, byte by byte. -/
theorem encoded_blanksFor (character : Char) :
    encoded (blanksFor character) =
      (String.utf8EncodeChar character).map CodeView.blanked := by
  rw [blanksFor]
  split
  · rename_i lineFeed
    rw [lineFeed]
    decide
  · rename_i notLineFeed
    have spaces : encoded (List.replicate character.utf8Size ' ') =
        List.replicate character.utf8Size Byte.space := by
      generalize character.utf8Size = size
      induction size with
      | zero => rfl
      | succ size inductionHypothesis =>
        rw [List.replicate_succ, List.replicate_succ, ← inductionHypothesis]
        rfl
    rw [spaces]
    symm
    rw [List.eq_replicate_iff]
    refine ⟨by rw [List.length_map, String.length_utf8EncodeChar], ?_⟩
    intro shown member
    obtain ⟨byte, isByte, rfl⟩ := List.mem_map.mp member
    rw [CodeView.blanked, if_neg]
    rintro rfl
    exact notLineFeed (eq_of_mem_utf8EncodeChar (by decide) isByte)

/-- What the contents of quotes become, byte by byte. -/
theorem encoded_flatMap_blanksFor (content : List Char) :
    encoded (content.flatMap blanksFor) = (encoded content).map CodeView.blanked := by
  induction content with
  | nil => rfl
  | cons character others inductionHypothesis =>
    rw [List.flatMap_cons, encoded_append, inductionHypothesis, encoded_blanksFor, encoded_cons,
      List.map_append]

/-- A name takes as many bytes in the code view as in the query. -/
theorem Name.width_shown (name : Name) : width name.shown = width name.written := by
  cases name with
  | plain name => rfl
  | quoted content =>
    have inside : width ((doubled content.toList).flatMap blanksFor) =
        width (doubled content.toList) := by
      rw [← length_encoded, ← length_encoded, encoded_flatMap_blanksFor, List.length_map]
    simp only [Name.shown, Name.written, List.cons_append, width, width_append, inside]

/-- Bytes that open neither quotes nor a comment. -/
def opensNothing (byte : UInt8) : Bool :=
  byte != Byte.singleQuote && byte != Byte.doubleQuote && byte != Byte.hyphen && byte != Byte.slash

/-- Code that opens nothing is shown as it is. -/
theorem viewFrom_code_append {first : Bytes} (plain : ∀ byte ∈ first, opensNothing byte = true)
    (rest : Bytes) :
    CodeView.viewFrom .code (first ++ rest) = first ++ CodeView.viewFrom .code rest := by
  induction first with
  | nil => rfl
  | cons byte others inductionHypothesis =>
    have opens := plain byte List.mem_cons_self
    simp only [opensNothing, Bool.and_eq_true, bne_iff_ne] at opens
    obtain ⟨⟨⟨notSingle, notDouble⟩, notHyphen⟩, notSlash⟩ := opens
    have stays (next : Option UInt8) : CodeView.step .code byte next = (byte, .code) := by
      simp [CodeView.step, notSingle, notDouble, notHyphen, notSlash]
    rw [List.cons_append, CodeView.viewFrom, stays, List.cons_append,
      inductionHypothesis fun other member => plain other (List.mem_cons_of_mem _ member)]

/-- Bytes between quotes that are not the quote are blanked. -/
theorem viewFrom_quoted_append {quote : UInt8} {first : Bytes}
    (different : ∀ byte ∈ first, byte ≠ quote) (rest : Bytes) :
    CodeView.viewFrom (.quoted quote) (first ++ rest) =
      first.map CodeView.blanked ++ CodeView.viewFrom (.quoted quote) rest := by
  induction first with
  | nil => rfl
  | cons byte others inductionHypothesis =>
    have stays (next : Option UInt8) :
        CodeView.step (.quoted quote) byte next = (CodeView.blanked byte, .quoted quote) := by
      rw [CodeView.step, if_pos (different byte List.mem_cons_self)]
    rw [List.cons_append, CodeView.viewFrom, stays, List.map_cons, List.cons_append,
      inductionHypothesis fun other member => different other (List.mem_cons_of_mem _ member)]

/-- The contents of quotes are blanked up to the closing quote. -/
theorem viewFrom_doubled (content : List Char) {rest : Bytes}
    (ends : rest.head? ≠ some Byte.doubleQuote) :
    CodeView.viewFrom (.quoted Byte.doubleQuote)
        (encoded (doubled content) ++ Byte.doubleQuote :: rest) =
      (encoded (doubled content)).map CodeView.blanked ++
        Byte.doubleQuote :: CodeView.viewFrom .code rest := by
  induction content with
  | nil =>
    change CodeView.viewFrom (.quoted Byte.doubleQuote) (Byte.doubleQuote :: rest) =
      Byte.doubleQuote :: CodeView.viewFrom .code rest
    have closes : CodeView.step (.quoted Byte.doubleQuote) Byte.doubleQuote rest.head? =
        (Byte.doubleQuote, .code) := by
      simp [CodeView.step, ends]
    rw [CodeView.viewFrom, closes]
  | cons character others inductionHypothesis =>
    by_cases isQuote : character = '"'
    · -- The two quotes are a mark, behind which the quotes are still open.
      have twice : encoded (doubled (character :: others)) =
          Byte.doubleQuote :: Byte.doubleQuote :: encoded (doubled others) := by
        rw [isQuote]
        rfl
      rw [twice]
      simp only [List.cons_append, CodeView.viewFrom, List.map_cons]
      rw [← inductionHypothesis]
      rfl
    · have once : encoded (doubled (character :: others)) =
          String.utf8EncodeChar character ++ encoded (doubled others) := by
        simp only [doubled, List.flatMap_cons, if_neg isQuote, List.singleton_append]
      have different : ∀ byte ∈ String.utf8EncodeChar character, byte ≠ Byte.doubleQuote := by
        rintro byte member rfl
        exact isQuote (eq_of_mem_utf8EncodeChar (by decide) member)
      rw [once, List.append_assoc, viewFrom_quoted_append different, inductionHypothesis,
        List.map_append, List.append_assoc]

/-- The code view shows a name hollow, unless a quote comes right behind it. -/
theorem Name.viewFrom_written (name : Name) {rest : Bytes}
    (ends : rest.head? ≠ some Byte.doubleQuote) :
    CodeView.viewFrom .code (encoded name.written ++ rest) =
      encoded name.shown ++ CodeView.viewFrom .code rest := by
  cases name with
  | plain name =>
    apply viewFrom_code_append
    intro byte member
    rw [opensNothing]
    simp only [Bool.and_eq_true, bne_iff_ne]
    refine ⟨⟨⟨?_, ?_⟩, ?_⟩, ?_⟩
    all_goals
      rintro rfl
      have isCharacter := mem_of_mem_encoded (by decide) member
      have continues := name.continues _ isCharacter
      revert continues
      decide
  | quoted content =>
    have writtenBytes : encoded (quoted content).written ++ rest =
        Byte.doubleQuote :: (encoded (doubled content.toList) ++ Byte.doubleQuote :: rest) := by
      simp only [Name.written, List.cons_append, encoded_cons, encoded_append, List.append_assoc]
      rfl
    have shownBytes : encoded (quoted content).shown =
        Byte.doubleQuote :: ((encoded (doubled content.toList)).map CodeView.blanked ++
          [Byte.doubleQuote]) := by
      rw [← encoded_flatMap_blanksFor]
      simp only [Name.shown, List.cons_append, encoded_cons, encoded_append]
      rfl
    have opens (next : Option UInt8) : CodeView.step .code Byte.doubleQuote next =
        (Byte.doubleQuote, .quoted Byte.doubleQuote) := rfl
    rw [writtenBytes, shownBytes, CodeView.viewFrom, opens, viewFrom_doubled _ ends]
    simp only [List.cons_append, List.append_assoc, List.nil_append]

/-! ## Reading a name back -/

/-- A hollow name is read to its end, when nothing that goes on with a name follows. -/
theorem Name.read?_shown (letters : Letters) (name : Name) {rest : List Char}
    (ends : rest.head?.any (Identifier.continuesName letters) = false) :
    Identifier.read? letters (name.shown ++ rest) = some (name.shown, rest) := by
  cases name with
  | plain name =>
    obtain ⟨first, others, spelled, begins, goesOn⟩ := name.spelled
    have notQuote : (first == '"') = false := by
      rw [beq_eq_false_iff_ne]
      rintro rfl
      exact absurd (begins .plain) (by decide)
    have goesOn : ∀ character ∈ others, Identifier.continuesName letters character = true :=
      fun character member => continuesName_of_plain letters (goesOn character member)
    have stops : rest.takeWhile (Identifier.continuesName letters) = [] ∧
        rest.dropWhile (Identifier.continuesName letters) = rest := by
      cases rest with
      | nil => exact ⟨rfl, rfl⟩
      | cons next behind =>
        rw [List.head?_cons, Option.any_some] at ends
        simp only [List.takeWhile_cons, List.dropWhile_cons, ends, Bool.false_eq_true, if_false,
          and_self]
    rw [Name.shown, spelled, List.cons_append, Identifier.read?]
    simp only [notQuote, Bool.false_eq_true, if_false, begins letters, if_true]
    rw [List.takeWhile_append_of_pos goesOn, List.dropWhile_append_of_pos goesOn, stops.1, stops.2,
      List.append_nil]
  | quoted content =>
    have inside : ∀ character ∈ (doubled content.toList).flatMap blanksFor,
        (character != '"') = true := by
      intro character member
      rcases isShown_of_mem_blanksFor character member with rfl | rfl <;> rfl
    have isQuote : ('"' == '"') = true := rfl
    simp only [Name.shown, List.cons_append, List.append_assoc, Identifier.read?, isQuote, if_true]
    rw [List.dropWhile_append_of_pos inside, List.takeWhile_append_of_pos inside]
    simp

/-- A quote that was written twice is made one again. -/
theorem undouble_doubled (content : List Char) :
    Identifier.undouble (doubled content) = content := by
  induction content with
  | nil => rfl
  | cons character others inductionHypothesis =>
    by_cases isQuote : character = '"'
    · have twice : doubled (character :: others) = '"' :: '"' :: doubled others := by
        rw [isQuote]
        rfl
      rw [twice, Identifier.undouble, inductionHypothesis, isQuote]
    · have once : doubled (character :: others) = character :: doubled others := by
        rw [doubled, List.flatMap_cons, if_neg isQuote]
        rfl
      rw [once, SchemaParts.undouble_cons isQuote, inductionHypothesis]

/-- Unquoting what is written gives the name. -/
theorem Name.unquote_written (name : Name) :
    Identifier.unquote (String.ofList name.written) = name.meaning := by
  cases name with
  | plain name =>
    obtain ⟨first, others, spelled, begins, _⟩ := name.spelled
    have notQuote : first ≠ '"' := by
      rintro rfl
      exact absurd (begins .plain) (by decide)
    rw [Name.written, String.ofList_toList, Identifier.unquote]
    split
    · rename_i rest quoted
      rw [spelled] at quoted
      exact absurd (List.cons.inj quoted).1 notQuote
    · rfl
  | quoted content =>
    rw [Name.written, Identifier.unquote, String.toList_ofList]
    simp only [List.cons_append, List.getLast?_concat, beq_self_eq_true, if_true,
      List.dropLast_concat]
    rw [undouble_doubled, String.ofList_toList]
    rfl

end QueryScope.Written
