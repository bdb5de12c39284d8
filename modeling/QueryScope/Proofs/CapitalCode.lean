import Mathlib.Data.List.Basic
import QueryScope.Proofs.CodeView
import QueryScope.Proofs.FromEntries
import QueryScope.Proofs.LetterCase
import QueryScope.Proofs.Padding

/-!
# Code in capitals

Every scan of the code is blind to the case of letters. Regions, parentheses, separators, blanks and
words are told by bytes that are no letters or by classes that a capital shares with its letter, and
keywords are met in any case. So a scan of code in capitals finds the same places, and what it
returns of the code itself it returns in capitals.
-/

namespace QueryScope

namespace Byte

/-- The capital of a byte is blank where the byte is. Stated of functions, as the scans pass
`isBlank` to the operations on lists. -/
@[simp] theorem isBlank_comp_upper : isBlank ∘ upper = isBlank :=
  funext fun byte => (sameClasses_upper byte).blank

/-- The capital of a byte belongs to a word where the byte does, stated of functions for the same
reason. -/
@[simp] theorem isWordByte_comp_upper : isWordByte ∘ upper = isWordByte :=
  funext fun byte => (sameClasses_upper byte).word

/-- A byte and its capital are blank together: the equation of `isBlank_comp_upper` at one byte. -/
@[simp] theorem isBlank_upper (byte : UInt8) : isBlank (upper byte) = isBlank byte :=
  (sameClasses_upper byte).blank

/-- A byte and its capital belong to a word together, so words in capitals end at the
same places. -/
@[simp] theorem isWordByte_upper (byte : UInt8) : isWordByte (upper byte) = isWordByte byte :=
  (sameClasses_upper byte).word

/-- A byte and its capital begin a word together; an underscore and a digit are their
own capitals. -/
@[simp] theorem startsWord_upper (byte : UInt8) : startsWord (upper byte) = startsWord byte :=
  (sameClasses_upper byte).beginning

/-- A byte and its capital are parentheses together, so the depth of nesting does not
see the case. -/
@[simp] theorem isParenthesis_upper (byte : UInt8) :
    isParenthesis (upper byte) = isParenthesis byte :=
  (sameClasses_upper byte).parenthesis

/-- A capital is its own capital. The check goes through all bytes. -/
theorem upper_upper (byte : UInt8) : upper (upper byte) = upper byte := by
  have same := forall_of_all (fun byte => upper (upper byte) == upper byte) (by decide +kernel) byte
  exact beq_iff_eq.mp same

/-- A byte that is no letter is the capital of itself alone. So every mark that a scan waits for, a
quote, a comma or a parenthesis, stands in capitals exactly where it stood before. -/
theorem upper_eq_iff {mark : UInt8} (notLetter : isLetter mark = false) (byte : UInt8) :
    upper byte = mark ↔ byte = mark := by
  by_cases letter : isLetter byte = true
  · have capital : isLetter (upper byte) = true := (sameClasses_upper byte).letter.trans letter
    constructor
    · rintro rfl
      rw [capital] at notLetter
      cases notLetter
    · rintro rfl
      rw [letter] at notLetter
      cases notLetter
  · have same := forall_of_all (fun byte => isLetter byte || upper byte == byte)
      (by decide +kernel) byte
    simp only [Bool.or_eq_true, letter, beq_iff_eq, Bool.false_eq_true, false_or] at same
    rw [same]

end Byte

open Byte

/-- The depth behind a byte does not depend on its case: only the two parentheses change it, and
they are no letters. -/
@[simp] theorem depthAfter_upper (depth : Nat) (byte : UInt8) :
    depthAfter depth (upper byte) = depthAfter depth byte := by
  simp only [depthAfter, upper_eq_iff (by decide : isLetter openParen = false),
    upper_eq_iff (by decide : isLetter closeParen = false)]

/-- A piece of code in capitals is the piece in capitals. What the scans cut out of the code is thus
cut out of the capitals at the same places. -/
@[simp] theorem extract_map_upper (bytes : Bytes) (start stop : Nat) :
    List.extract (bytes.map upper) start stop = (bytes.extract start stop).map upper := by
  rw [List.extract_eq_take_drop, List.extract_eq_take_drop, List.map_take, List.map_drop]

/-- A test that does not tell capitals from letters gives the same answer for the first byte.
Without a first byte it fails in both. -/
theorem head?_any_map_upper {holds : UInt8 → Bool}
    (same : ∀ byte, holds (upper byte) = holds byte) (bytes : Bytes) :
    (bytes.map upper).head?.any holds = bytes.head?.any holds := by
  cases bytes with
  | nil => rfl
  | cons byte rest => exact same byte

/-! ## The code view -/

namespace CodeView

/-- A byte that is blanked out is blanked out in capitals. Line ends stay and everything else
becomes a space, and neither has a capital of its own. -/
theorem blanked_upper (byte : UInt8) : blanked (upper byte) = upper (blanked byte) := by
  have lineFeed := upper_eq_iff (by decide : isLetter lineFeed = false) byte
  simp only [blanked, lineFeed]
  split
  · rfl
  · decide

/-- The step at a capital is the step at its letter, with the capital of what the letter shows. The
marks that open and close a region are no letters, and in a region that is reached neither is the
quote that closes it. -/
theorem step_upper {region : Region} (reachable : Reachable region) (byte : UInt8)
    (next : Option UInt8) :
    step region (upper byte) (next.map upper) =
      (upper (step region byte next).1, (step region byte next).2) := by
  have here {mark : UInt8} (notLetter : isLetter mark = false) :
      (upper byte = mark) = (byte = mark) := propext (upper_eq_iff notLetter byte)
  have ahead {mark : UInt8} (notLetter : isLetter mark = false) :
      (next.map upper = some mark) = (next = some mark) := by
    cases next with
    | none => simp
    | some other => simpa using upper_eq_iff notLetter other
  have space : upper space = space := by decide
  cases region with
  | code =>
    simp only [step, here (by decide : isLetter singleQuote = false),
      here (by decide : isLetter doubleQuote = false), here (by decide : isLetter hyphen = false),
      here (by decide : isLetter slash = false), ahead (by decide : isLetter hyphen = false),
      ahead (by decide : isLetter asterisk = false)]
    split
    · rename_i isQuote
      rcases isQuote with rfl | rfl <;> rfl
    · split
      · rfl
      · split <;> rfl
  | quoted quote =>
    have notLetter : isLetter quote = false := by
      rcases reachable with rfl | rfl <;> decide
    simp only [step, ne_eq, here notLetter, ahead notLetter]
    split
    · rw [blanked_upper]
    · split <;> rfl
  | lineComment =>
    simp only [step, here (by decide : isLetter lineFeed = false)]
    split
    · rfl
    · rw [blanked_upper]
  | blockComment =>
    simp only [step, here (by decide : isLetter asterisk = false),
      ahead (by decide : isLetter slash = false)]
    split
    · rfl
    · rw [blanked_upper]
  | mark behind => simp only [step, space]

/-- The view of code in capitals is the view in capitals, from every region that is reached. By
induction on the bytes: each step goes to the same region, which is reached again. -/
theorem viewFrom_map_upper {region : Region} (reachable : Reachable region) (bytes : Bytes) :
    viewFrom region (bytes.map upper) = (viewFrom region bytes).map upper := by
  induction bytes generalizing region with
  | nil => rfl
  | cons byte rest inductionHypothesis =>
    rw [List.map_cons, viewFrom, viewFrom, List.head?_map, step_upper reachable, List.map_cons,
      inductionHypothesis (reachable_step reachable byte rest.head?)]

end CodeView

/-- The code view of a query in capitals is the code view in capitals. Every scan works on this
view, so the laws below apply to the view of any query. -/
theorem codeView_map_upper (query : Bytes) :
    codeView (query.map upper) = (codeView query).map upper :=
  CodeView.viewFrom_map_upper CodeView.reachable_code query

/-! ## Splitting, pairing and trimming -/

/-- Code in capitals is split at the same separators, provided that the separator is no letter. The
induction runs from any depth and any place, as the split carries both. -/
theorem TopLevel.split_map_upper (code : Bytes) {separator : UInt8}
    (notLetter : isLetter separator = false) :
    split (code.map upper) separator = split code separator := by
  have fromAnywhere (start offset depth : Nat) :
      splitFrom separator start offset depth (code.map upper) =
        splitFrom separator start offset depth code := by
    induction code generalizing start offset depth with
    | nil => rfl
    | cons byte rest inductionHypothesis =>
      have separates : (upper byte == separator) = (byte == separator) := by
        rw [Bool.eq_iff_iff, beq_iff_eq, beq_iff_eq]
        exact upper_eq_iff notLetter byte
      simp only [List.map_cons, splitFrom, isParenthesis_upper, separates, depthAfter_upper,
        inductionHypothesis]
  exact fromAnywhere 0 0 0

/-- The parentheses of code in capitals pair up as before. They stand at the same offsets, and the
opening ones wait in the same order. -/
@[simp] theorem Subquery.pairs_map_upper (code : Bytes) : pairs (code.map upper) = pairs code := by
  have fromAnywhere (offset : Nat) (waiting : List Nat) :
      pairsFrom offset waiting (code.map upper) = pairsFrom offset waiting code := by
    induction code generalizing offset waiting with
    | nil => rfl
    | cons byte rest inductionHypothesis =>
      simp only [List.map_cons, pairsFrom, upper_eq_iff (by decide : isLetter openParen = false),
        upper_eq_iff (by decide : isLetter closeParen = false), inductionHypothesis]
  exact fromAnywhere 0 []

namespace Buffer

/-- In capitals the same reads are sound, and the capital of each byte is read. A read behind the
end gives the zero byte, which is its own capital. -/
theorem read_map_upper (bytes : Bytes) (offset : Nat) :
    read (Bytes.buffer (bytes.map upper)) offset =
      ⟨upper (bytes.buffer.read offset).value, (bytes.buffer.read offset).sound⟩ := by
  have shown : (Bytes.buffer (bytes.map upper)).getD offset 0 =
      upper (bytes.buffer.getD offset 0) := by
    rw [Bytes.buffer, Bytes.buffer, Array.getD_eq_getD_getElem?, Array.getD_eq_getD_getElem?,
      List.getElem?_toArray, List.getElem?_toArray, List.getElem?_map]
    cases bytes[offset]? with
    | none => rfl
    | some byte => rfl
  rw [read, read, shown, size_buffer, size_buffer, List.length_map]

variable {test : UInt8 → Bool} (blind : ∀ byte, test (upper byte) = test byte)
include blind

/-- A walk forward with a test that does not tell capitals from letters ends at the same place. The
induction is that of the walk. -/
theorem value_advance_map_upper (bytes : Bytes) (offset stop : Nat) :
    (advance test (Bytes.buffer (bytes.map upper)) offset stop).value =
      (bytes.buffer.advance test offset stop).value := by
  fun_induction advance test bytes.buffer offset stop with
  | case1 offset before inductionHypothesis =>
    rw [advance, if_pos before, read_map_upper, Checked.value_bind, Checked.value_bind, blind]
    split
    · exact inductionHypothesis
    · rfl
  | case2 offset behind => rw [advance, if_neg behind]

/-- And so does a walk back. Together the two walks give the span that is left when blanks are taken
off both ends. -/
theorem value_retreat_map_upper (bytes : Bytes) (start offset : Nat) :
    (retreat test (Bytes.buffer (bytes.map upper)) start offset).value =
      (bytes.buffer.retreat test start offset).value := by
  fun_induction retreat test bytes.buffer start offset with
  | case1 offset behind inductionHypothesis =>
    rw [retreat, if_pos behind, read_map_upper, Checked.value_bind, Checked.value_bind, blind]
    split
    · exact inductionHypothesis
    · rfl
  | case2 offset before => rw [retreat, if_neg before]

end Buffer

/-- Blanks are the same bytes in capitals, so the same are taken off the ends of a span. -/
@[simp] theorem Bytes.value_trim_map_upper (bytes : Bytes) (span : Span) :
    (trim (bytes.map upper) span).value = (trim bytes span).value := by
  simp only [trim, Checked.value_bind, Buffer.value_advance_map_upper isBlank_upper,
    Buffer.value_retreat_map_upper isBlank_upper]

/-! ## Words and keywords -/

/-- A comparison without regard to case compares capitals, so the first side may be in capitals
already. -/
@[simp] theorem Bytes.sameIgnoringCase_map_upper (left right : Bytes) :
    sameIgnoringCase (left.map upper) right = sameIgnoringCase left right := by
  have twice : upper ∘ upper = upper := funext fun byte => upper_upper byte
  rw [sameIgnoringCase, sameIgnoringCase, List.map_map, twice]

namespace Word

/-- A word in capitals: the same span, with its spelling in capitals. -/
def capitals (word : Word) : Word := { word with spelling := word.spelling.map upper }

/-- The next word in capitals stands at the same place. It begins at the first byte behind the
blanks and goes on as far as word bytes do. -/
@[simp] theorem next?_map_upper (code : Bytes) (offset : Nat) :
    next? (code.map upper) offset = (next? code offset).map capitals := by
  simp only [next?_eq_ahead?, ahead?, ← List.map_drop, List.takeWhile_map, List.dropWhile_map,
    isBlank_comp_upper, isWordByte_comp_upper, List.length_map]
  cases ((code.drop offset).dropWhile isBlank).takeWhile isWordByte with
  | nil => rfl
  | cons first others =>
    simp only [List.map_cons, startsWord_upper, List.length_cons, List.length_map]
    split <;> rfl

/-- A word in capitals is the word of a given name where the word is. -/
@[simp] theorem is_capitals (word : Word) (name : String) : word.capitals.is name = word.is name :=
  Bytes.sameIgnoringCase_map_upper word.spelling _

/-- The next word has a given name in capitals where it has that name. The scans ask this of the
words that may stand behind a keyword. -/
@[simp] theorem nextIs_map_upper (code : Bytes) (offset : Nat) (name : String) :
    nextIs (code.map upper) offset name = nextIs code offset name := by
  rw [nextIs, nextIs, next?_map_upper, Option.any_map]
  exact congrArg (fun holds => (next? code offset).any holds) (funext fun word => is_capitals word name)

/-- A word in capitals modifies a join where the word does, as the modifiers are compared without
regard to case. -/
@[simp] theorem isJoinModifier_map_upper (word : Bytes) :
    isJoinModifier (word.map upper) = isJoinModifier word := by
  simp only [isJoinModifier, Bytes.sameIgnoringCase_map_upper]

end Word

namespace Keyword

/-- A word at the beginning is taken off in capitals, with the same rest. No word byte may follow,
and what follows is a word byte in both or in neither. -/
@[simp] theorem stripWord?_map_upper (word ahead : Bytes) :
    stripWord? word (ahead.map upper) = (stripWord? word ahead).map (List.map upper) := by
  have goesOn := head?_any_map_upper isWordByte_upper (ahead.drop word.length)
  simp only [stripWord?, ← List.map_take, ← List.map_drop, Bytes.sameIgnoringCase_map_upper, goesOn]
  split <;> rfl

/-- The further words of a keyword, with blanks between them, are taken off in capitals. The
induction is on the words. -/
@[simp] theorem stripSpaced?_map_upper (words : List Bytes) (ahead : Bytes) :
    stripSpaced? words (ahead.map upper) = (stripSpaced? words ahead).map (List.map upper) := by
  induction words generalizing ahead with
  | nil => rfl
  | cons word words inductionHypothesis =>
    simp only [stripSpaced?, head?_any_map_upper isBlank_upper, List.dropWhile_map,
      isBlank_comp_upper, stripWord?_map_upper]
    split
    · rw [Option.bind_map, Option.map_bind]
      exact congrArg _ (funext fun rest => inductionHypothesis rest)
    · rfl

/-- A keyword is taken off in capitals: its first word and then the others behind their blanks. -/
@[simp] theorem strip?_map_upper (keyword : Keyword) (ahead : Bytes) :
    keyword.strip? (ahead.map upper) = (keyword.strip? ahead).map (List.map upper) := by
  rw [strip?, strip?]
  split
  · rfl
  · rename_i first others _
    rw [stripWord?_map_upper, Option.bind_map, Option.map_bind]
    exact congrArg _ (funext fun rest => stripSpaced?_map_upper others rest)

/-- The first keyword of several that stands here is the same in capitals, with the same index. The
order in which they are tried does not change, so neither does the one that wins. -/
@[simp] theorem first?_map_upper (insideWord : Bool) (ahead : Bytes) (index : Nat)
    (keywords : List Keyword) :
    first? insideWord (ahead.map upper) index keywords =
      (first? insideWord ahead index keywords).map fun found => (found.1, found.2.map upper) := by
  induction keywords generalizing index with
  | nil => rfl
  | cons keyword others inductionHypothesis =>
    simp only [first?, strip?_map_upper, inductionHypothesis]
    split
    · rfl
    · cases keyword.strip? ahead with
      | none => rfl
      | some rest => rfl

/-- The search meets the same keywords in capitals. By induction on the bytes ahead: the depth, the
place and whether a word is under way are the same at each byte. -/
theorem searchFrom_map_upper (keywords : List Keyword) (offset depth : Nat) (insideWord : Bool)
    (ahead : Bytes) :
    searchFrom keywords offset depth insideWord (ahead.map upper) =
      searchFrom keywords offset depth insideWord ahead := by
  induction ahead generalizing offset depth insideWord with
  | nil => rfl
  | cons byte rest inductionHypothesis =>
    have met := first?_map_upper insideWord (byte :: rest) 0 keywords
    rw [List.map_cons] at met
    simp only [List.map_cons, searchFrom, isParenthesis_upper, depthAfter_upper, isWordByte_upper,
      inductionHypothesis, met]
    by_cases atTop : (!isParenthesis byte && depth == 0) = true
    · simp only [atTop, if_true]
      cases first? insideWord (byte :: rest) 0 keywords with
      | none => rfl
      | some found => simp only [Option.map_some, List.length_cons, List.length_map]
    · simp only [atTop, Bool.false_eq_true, if_false]

/-- A keyword is found in capitals at the same place. The byte in front of the offset, which may be
inside a word, is a word byte in both or in neither. -/
@[simp] theorem find?_map_upper (code : Bytes) (offset : Nat) (keywords : List Keyword) :
    find? (code.map upper) offset keywords = find? code offset keywords := by
  simp only [find?_eq_searchFrom, List.length_map, ← List.map_take, ← List.map_drop,
    List.getLast?_map, Option.any_map, isWordByte_upper, searchFrom_map_upper]

end Keyword

/-! ## Clauses and entries -/

/-- A clause in capitals covers the same span. It ends at the next keyword that may end it, or at
the end of the code, and is trimmed alike. -/
@[simp] theorem Clause.value_read_map_upper (clause : Clause) (code : Bytes) (offset : Nat) :
    (clause.read (code.map upper) offset).value = (clause.read code offset).value := by
  simp only [Clause.value_read, Clause.find?_eq, Keyword.find?_map_upper,
    Bytes.value_trim_map_upper, List.length_map]

/-- The clauses of a block in capitals stand at the same places. Each is found by its keyword, and
the select list begins behind `DISTINCT` or `ALL` in both or in neither. -/
@[simp] theorem Clauses.value_ofCode_map_upper (code : Bytes) :
    (ofCode (code.map upper)).value = (ofCode code).value := by
  have offset : selectListOffset? (code.map upper) = selectListOffset? code := by
    simp only [selectListOffset?_eq, Keyword.find?_map_upper, Word.next?_map_upper]
    congr 1
    funext hit
    have quantifies : isQuantifier ∘ Word.capitals = isQuantifier := by
      funext word
      simp only [Function.comp_apply, isQuantifier, Word.is_capitals]
    rw [behindQuantifier, behindQuantifier, Option.filter_map, quantifies]
    cases (Word.next? code hit.span.stop).filter isQuantifier <;> rfl
  have reading (clause : Clause) (opening : Option Clause.Opening) :
      clause.readIf (code.map upper) opening = clause.readIf code opening := by
    simp only [Clause.readIf, Clause.value_read_map_upper]
  have first : first (code.map upper) = first code := by
    simp only [Clauses.first, offset, Clause.value_read_map_upper, Clause.find?_eq,
      Keyword.find?_map_upper]
  simp only [value_ofCode, first, reading]

namespace FromEntry

/-- The pieces between joins are the same in capitals. The induction is on the joins that are found,
each at the same place. -/
theorem betweenJoins_map_upper (code : Bytes) (start : Nat) :
    betweenJoins (code.map upper) start = betweenJoins code start := by
  apply betweenJoins_induction (motive := fun start pieces =>
    betweenJoins (code.map upper) start = pieces)
  case last =>
    intro start notFound
    rw [betweenJoins_of_none (by rw [Keyword.find?_map_upper, notFound]), List.length_map]
  case step =>
    intro start hit found inductionHypothesis
    rw [betweenJoins_of_some (by rw [Keyword.find?_map_upper, found]), inductionHypothesis]

/-- The spans of all entries are the same in capitals: a comma at the top level and a join are found
at the same places. -/
@[simp] theorem value_spans_map_upper (code : Bytes) :
    (spans (code.map upper)).value = (spans code).value := by
  simp only [value_spans, TopLevel.split_map_upper code (by decide : isLetter comma = false),
    extract_map_upper, betweenJoins_map_upper]

/-- The runs of bytes that are not blank begin at the same offsets in capitals, and each run is in
capitals. The join modifiers are looked for among them. -/
theorem runs_map_upper (offset : Nat) (entry : Bytes) :
    runs offset (entry.map upper) = (runs offset entry).map fun run => (run.1, run.2.map upper) := by
  induction entry generalizing offset with
  | nil => rfl
  | cons byte rest inductionHypothesis =>
    simp only [List.map_cons, runs, isBlank_upper, inductionHypothesis]
    split
    · rfl
    · cases runs (offset + 1) rest with
      | nil => rfl
      | cons run others =>
        simp only [List.map_cons]
        split <;> rfl

/-- The length of an entry up to its last run that is no join modifier is the same in capitals. The
runs have the same ends and the same of them modify a join. -/
@[simp] theorem lengthWithoutModifiers?_map_upper (entry : Bytes) :
    lengthWithoutModifiers? (entry.map upper) = lengthWithoutModifiers? entry := by
  have modifies : (fun run : Nat × Bytes => Word.isJoinModifier run.2) ∘
      (fun run : Nat × Bytes => (run.1, run.2.map upper)) =
        fun run : Nat × Bytes => Word.isJoinModifier run.2 := by
    funext run
    exact Word.isJoinModifier_map_upper run.2
  rw [lengthWithoutModifiers?, lengthWithoutModifiers?, runs_map_upper, ← List.map_reverse,
    List.dropWhile_map, modifies]
  cases (runs 0 entry).reverse.dropWhile fun run => Word.isJoinModifier run.2 with
  | nil => rfl
  | cons run others => simp only [List.map_cons, List.length_map]

/-- The entry proper stands at the same place in capitals. The questions asked of the entry, where
its condition begins, how long it is without modifiers and which word is next, have the same
answers. -/
@[simp] theorem place?_map_upper (code : Bytes) (span : Span) :
    place? (code.map upper) span = place? code span := by
  simp only [place?, extract_map_upper, Keyword.find?_map_upper, Bytes.value_trim_map_upper,
    lengthWithoutModifiers?_map_upper, Word.nextIs_map_upper]

end FromEntry

end QueryScope
