import Mathlib.Data.List.Forall2
import QueryScope.Proofs.WrittenItems

/-!
# Paths read back, and lists cut at their separators

A path is read from the code view name by name, and each name is reported with its place. The names
of a path and the items of a list are cut out of the text at the separators of the code. Since text
and code have the same layout, the piece that is cut out between two separators is the one that was
written there.
-/

namespace QueryScope

namespace Identifier

/-- A path ends with a name that no dot follows. -/
theorem readPath_of_last {letters : Letters} (offset : Nat) {characters name rest : List Char}
    (reading : read? letters characters = some (name, rest)) (noDot : afterDot? rest = none) :
    readPath letters offset characters = ([⟨offset, name⟩], rest) := by
  rw [readPath]
  split
  · rename_i found
    rw [reading] at found
    cases found
  · rename_i found
    rw [reading] at found
    cases found
    split
    · rfl
    · rename_i skipped
      rw [noDot] at skipped
      cases skipped

/-- A path goes on behind a name that a dot and another name follow. -/
theorem readPath_of_dot {letters : Letters} {offset : Nat}
    {characters name rest ahead after : List Char} {next : Fragment} {others : List Fragment}
    (reading : read? letters characters = some (name, rest)) (skipped : afterDot? rest = some ahead)
    (further : readPath letters (offset + (Bytes.width characters - Bytes.width ahead)) ahead =
      (next :: others, after)) :
    readPath letters offset characters = (⟨offset, name⟩ :: next :: others, after) := by
  rw [readPath]
  split
  · rename_i found
    rw [reading] at found
    cases found
  · rename_i found
    rw [reading] at found
    cases found
    split
    · rename_i noDot
      rw [skipped] at noDot
      cases noDot
    · rename_i found
      rw [skipped] at found
      cases found
      simp only [further]

/-- A path ends with a name that a dot follows, but no other name behind it. -/
theorem readPath_of_dangling {letters : Letters} {offset : Nat}
    {characters name rest ahead after : List Char}
    (reading : read? letters characters = some (name, rest)) (skipped : afterDot? rest = some ahead)
    (further : readPath letters (offset + (Bytes.width characters - Bytes.width ahead)) ahead =
      ([], after)) :
    readPath letters offset characters = ([⟨offset, name⟩], rest) := by
  rw [readPath]
  split
  · rename_i found
    rw [reading] at found
    cases found
  · rename_i found
    rw [reading] at found
    cases found
    split
    · rfl
    · rename_i found
      rw [skipped] at found
      cases found
      simp only [further]

end Identifier

namespace Written

open EntryShape Bytes

/-! ## Reading a path -/

/-- The names of a path in the code view, each with its place; the path begins at `offset`. -/
def fragments (offset : Nat) : List Name → Name → List Fragment
  | [], last => [⟨offset, last.shown⟩]
  | first :: others, last =>
    ⟨offset, first.shown⟩ :: fragments (offset + (width first.shown + 1)) others last

/-- A path has at least one fragment, that of its last name if no other. -/
theorem exists_cons_fragments (offset : Nat) (qualifier : List Name) (last : Name) :
    ∃ next others, fragments offset qualifier last = next :: others := by
  cases qualifier with
  | nil => exact ⟨_, _, rfl⟩
  | cons first others => exact ⟨_, _, rfl⟩

/-- A dot in front of a name is skipped. -/
theorem afterDot?_shown (name : Name) (rest : List Char) :
    Identifier.afterDot? ('.' :: (name.shown ++ rest)) = some (name.shown ++ rest) := by
  obtain ⟨first, others, isName, firstSolid⟩ := name.solidEnds_shown.first
  have noBlank : ('.' :: (name.shown ++ rest)).dropWhile Text.isBlank =
      '.' :: (name.shown ++ rest) := rfl
  rw [Identifier.afterDot?, noBlank]
  simp only [isName, List.cons_append]
  rw [List.dropWhile_cons_of_neg (by simp [firstSolid])]

/-- A path is read name by name, when what follows cannot belong to it. -/
theorem readPath_shown (letters : Letters) (offset : Nat) (qualifier : List Name) (last : Name)
    {rest : List Char} (ends : rest.head?.any (Identifier.continuesName letters) = false)
    (noDot : Identifier.afterDot? rest = none) :
    Identifier.readPath letters offset
        (spellQualifier Name.shown qualifier ++ (last.shown ++ rest)) =
      (fragments offset qualifier last, rest) := by
  induction qualifier generalizing offset with
  | nil => exact Identifier.readPath_of_last offset (last.read?_shown letters ends) noDot
  | cons first others inductionHypothesis =>
    have behind := inductionHypothesis (offset + (width first.shown + 1))
    obtain ⟨next, later, isNext⟩ :=
      exists_cons_fragments (offset + (width first.shown + 1)) others last
    have notDigit : ('.' :: (spellQualifier Name.shown others ++ (last.shown ++ rest))).head?.any
        (Identifier.continuesName letters) = false := by
      cases letters <;> rfl
    have reading := first.read?_shown letters notDigit
    have isPath : spellQualifier Name.shown (first :: others) ++ (last.shown ++ rest) =
        first.shown ++ '.' :: (spellQualifier Name.shown others ++ (last.shown ++ rest)) := by
      simp only [spellQualifier, List.flatMap_cons, List.append_assoc, List.cons_append,
        List.nil_append]
    have skipped : Identifier.afterDot?
        ('.' :: (spellQualifier Name.shown others ++ (last.shown ++ rest))) =
          some (spellQualifier Name.shown others ++ (last.shown ++ rest)) := by
      cases others with
      | nil => exact afterDot?_shown last rest
      | cons second others =>
        simp only [spellQualifier, List.flatMap_cons, List.append_assoc]
        exact afterDot?_shown second _
    have distance : width (first.shown ++ '.' ::
        (spellQualifier Name.shown others ++ (last.shown ++ rest))) -
          width (spellQualifier Name.shown others ++ (last.shown ++ rest)) =
            width first.shown + 1 := by
      have dot : '.'.utf8Size = 1 := rfl
      rw [width_append, width, dot]
      omega
    rw [isPath, fragments, isNext]
    apply Identifier.readPath_of_dot reading skipped
    rw [distance, behind, isNext]

/-- The last name of a path. -/
theorem getLast?_fragments (offset : Nat) (qualifier : List Name) (last : Name) :
    (fragments offset qualifier last).getLast? =
      some ⟨offset + width (spellQualifier Name.shown qualifier), last.shown⟩ := by
  induction qualifier generalizing offset with
  | nil => rfl
  | cons first others inductionHypothesis =>
    obtain ⟨next, later, isNext⟩ :=
      exists_cons_fragments (offset + (width first.shown + 1)) others last
    have behind := inductionHypothesis (offset + (width first.shown + 1))
    have dot : width ['.'] = 1 := rfl
    rw [fragments, isNext, List.getLast?_cons_cons, ← isNext, behind]
    simp only [spellQualifier, List.flatMap_cons, width_append, dot, Nat.add_assoc]

/-- Without its last name a path is a shorter path. -/
theorem dropLast_fragments (offset : Nat) (others : List Name) (previous last : Name) :
    (fragments offset (others ++ [previous]) last).dropLast = fragments offset others previous := by
  induction others generalizing offset with
  | nil => rfl
  | cons first others inductionHypothesis =>
    obtain ⟨next, later, isNext⟩ :=
      exists_cons_fragments (offset + (width first.shown + 1)) (others ++ [previous]) last
    rw [List.cons_append, fragments, isNext, List.dropLast_cons_cons, ← isNext, inductionHypothesis,
      fragments]

/-- Where a path stands. -/
theorem cover_fragments (offset : Nat) (qualifier : List Name) (last : Name) :
    FromEntry.cover (fragments offset qualifier last) =
      some ⟨offset, offset + width (spellQualifier Name.shown qualifier ++ last.shown)⟩ := by
  have begins : ∃ first, (fragments offset qualifier last).head? = some first ∧
      first.offset = offset := by
    cases qualifier with
    | nil => exact ⟨_, rfl, rfl⟩
    | cons name others => exact ⟨_, rfl, rfl⟩
  obtain ⟨first, isFirst, atOffset⟩ := begins
  rw [FromEntry.cover, isFirst, getLast?_fragments]
  simp only [Fragment.stop, atOffset, width_append, Nat.add_assoc]

/-! ## Cutting at separators -/

/-- A piece that stands at the same place in a text and in its code. -/
structure Cut (text code : Bytes) (span : Span) (written shown : Bytes) : Prop where
  inText : ∃ front back, text = front ++ (written ++ back) ∧ front.length = span.start
  inCode : ∃ front back, code = front ++ (shown ++ back) ∧ front.length = span.start
  lengths : written.length = shown.length
  stop : span.stop = span.start + shown.length

namespace Cut

variable {text code written shown : Bytes} {span : Span}

/-- What is cut out ends inside the code. -/
theorem within (cut : Cut text code span written shown) : span.stop ≤ code.length := by
  obtain ⟨front, back, rfl, starts⟩ := cut.inCode
  rw [cut.stop, List.length_append, List.length_append]
  omega

/-- A cut holds of the text what was written there. -/
theorem extract_text (cut : Cut text code span written shown) :
    text.extract span.start span.stop = written := by
  obtain ⟨front, back, whole, starts⟩ := cut.inText
  exact Window.extract_eq_of_append whole starts.symm (by rw [cut.stop, cut.lengths])

/-- A cut holds of the code what is shown there. -/
theorem extract_code (cut : Cut text code span written shown) :
    code.extract span.start span.stop = shown := by
  obtain ⟨front, back, whole, starts⟩ := cut.inCode
  exact Window.extract_eq_of_append whole starts.symm cut.stop

/-- The code in front of a piece, behind it and up to its end. -/
theorem exists_around (cut : Cut text code span written shown) :
    ∃ front back, code = front ++ (shown ++ back) ∧ front.length = span.start ∧
      code.take span.start = front ∧ code.take span.stop = front ++ shown ∧
        code.drop span.stop = back := by
  obtain ⟨front, back, isCode, starts⟩ := cut.inCode
  have stops : span.stop = (front ++ shown).length := by
    rw [cut.stop, List.length_append, starts]
  refine ⟨front, back, isCode, starts, ?_, ?_, ?_⟩
  · rw [isCode, ← starts, List.take_left]
  · rw [isCode, stops, ← List.append_assoc, List.take_left]
  · rw [isCode, stops, ← List.append_assoc, List.drop_left]

/-- A part of a piece that stands at the same place in both. -/
theorem part {lead lead' middle middle' trail trail' : Bytes}
    (cut : Cut text code span (lead ++ (middle ++ trail)) (lead' ++ (middle' ++ trail')))
    (leads : lead.length = lead'.length) (middles : middle.length = middle'.length) :
    Cut text code ⟨span.start + lead'.length, span.start + lead'.length + middle'.length⟩ middle
      middle' := by
  obtain ⟨frontText, backText, isText, startsText⟩ := cut.inText
  obtain ⟨frontCode, backCode, isCode, startsCode⟩ := cut.inCode
  refine ⟨⟨frontText ++ lead, trail ++ backText, ?_, ?_⟩,
    ⟨frontCode ++ lead', trail' ++ backCode, ?_, ?_⟩, middles, rfl⟩
  · rw [isText]
    simp only [List.append_assoc]
  · rw [List.length_append, startsText, leads]
  · rw [isCode]
    simp only [List.append_assoc]
  · rw [List.length_append, startsCode]

end Cut

/-- A piece between separators: no word reaches over its ends. -/
structure Tile (text code : Bytes) (span : Span) (written shown : Bytes) : Prop
    extends Cut text code span written shown where
  before : (code.take span.start).getLast?.any Byte.isWordByte = false
  behind : (code.drop span.stop).head?.any Byte.isWordByte = false

/-- Pieces with a separator between each two. -/
def joined (separator : UInt8) : List Bytes → Bytes
  | [] => []
  | [piece] => piece
  | piece :: next :: others => piece ++ separator :: joined separator (next :: others)

/-- Where the pieces stand; the first one begins at `start`. -/
def tiles (start : Nat) : List Bytes → List Span
  | [] => []
  | piece :: others => ⟨start, start + piece.length⟩ :: tiles (start + piece.length + 1) others

/-- Pieces joined by a separator: the first, and each of the others with the separator in front. -/
theorem joined_cons (separator : UInt8) (first : Bytes) (others : List Bytes) :
    joined separator (first :: others) = first ++ others.flatMap (separator :: ·) := by
  induction others generalizing first with
  | nil => exact (List.append_nil first).symm
  | cons next others inductionHypothesis =>
    rw [joined, inductionHypothesis, List.flatMap_cons, List.cons_append]

/-- Pieces joined by a separator, seen from the last one: each of those before it has the separator
behind it. -/
theorem joined_concat (separator : UInt8) (pieces : List Bytes) (last : Bytes) :
    joined separator (pieces ++ [last]) = pieces.flatMap (· ++ [separator]) ++ last := by
  induction pieces with
  | nil => rfl
  | cons first others inductionHypothesis =>
    have goesOn : joined separator (first :: others ++ [last]) =
        first ++ separator :: joined separator (others ++ [last]) := by
      cases others <;> rfl
    rw [goesOn, inductionHypothesis]
    simp only [List.flatMap_cons, List.append_assoc, List.cons_append, List.nil_append]

/-- Splitting at the separators yields the places of the pieces. -/
theorem splitFrom_joined {separator : UInt8} (notParenthesis : isParenthesis separator = false)
    (start : Nat) {first : Bytes} {others : List Bytes}
    (plain : ∀ piece ∈ first :: others, ∀ byte ∈ piece,
      byte ≠ separator ∧ isParenthesis byte = false) :
    TopLevel.splitFrom separator start start 0 (joined separator (first :: others)) =
      tiles start (first :: others) := by
  have passed (rest : Bytes) := SchemaParts.splitFrom_append start start
    (plain first List.mem_cons_self) rest
  induction others generalizing first start with
  | nil =>
    have whole := passed []
    rw [List.append_nil] at whole
    rw [joined, whole]
    rfl
  | cons next others inductionHypothesis =>
    have plainOthers : ∀ piece ∈ next :: others, ∀ byte ∈ piece,
        byte ≠ separator ∧ isParenthesis byte = false :=
      fun piece member => plain piece (List.mem_cons_of_mem _ member)
    have separates : (!isParenthesis separator && separator == separator && (0 : Nat) == 0) =
        true := by
      rw [notParenthesis, beq_self_eq_true]
      rfl
    rw [joined, passed, TopLevel.splitFrom, if_pos separates, tiles]
    congr 1
    exact inductionHypothesis _ plainOthers fun rest => SchemaParts.splitFrom_append _ _
      (plainOthers next List.mem_cons_self) rest

section Layout

variable {α : Type} {written shown : α → Bytes} {separator : UInt8}

/-- Where text and code have the same layout, each tile of the code holds the piece that was written
there. -/
theorem forall₂_tiles (lengths : ∀ element, (written element).length = (shown element).length)
    (notWord : Byte.isWordByte separator = false) (elements : List α) {frontText frontCode : Bytes}
    (fronts : frontText.length = frontCode.length)
    (before : frontCode.getLast?.any Byte.isWordByte = false) :
    List.Forall₂ (fun element span => Tile
        (frontText ++ joined separator (elements.map written))
        (frontCode ++ joined separator (elements.map shown)) span (written element) (shown element))
      elements (tiles frontCode.length (elements.map shown)) := by
  induction elements generalizing frontText frontCode with
  | nil => exact .nil
  | cons element others inductionHypothesis =>
    have atFront (back back' : Bytes) (behind : back'.head?.any Byte.isWordByte = false) :
        Tile (frontText ++ (written element ++ back)) (frontCode ++ (shown element ++ back'))
          ⟨frontCode.length, frontCode.length + (shown element).length⟩ (written element)
          (shown element) := by
      refine ⟨⟨⟨frontText, back, rfl, fronts⟩, ⟨frontCode, back', rfl, rfl⟩, lengths element, rfl⟩,
        ?_, ?_⟩
      · rwa [List.take_left]
      · rwa [← List.length_append, ← List.append_assoc, List.drop_left]
    cases others with
    | nil =>
      have only := atFront [] [] rfl
      rw [List.append_nil, List.append_nil] at only
      exact .cons only .nil
    | cons next others =>
      refine .cons (atFront _ _ ?_) ?_
      · rwa [List.head?_cons, Option.any_some]
      · have frontLengths : (frontText ++ (written element ++ [separator])).length =
            (frontCode ++ (shown element ++ [separator])).length := by
          simp only [List.length_append, fronts, lengths element]
        have ended : (frontCode ++ (shown element ++ [separator])).getLast?.any Byte.isWordByte =
            false := by
          rwa [← List.append_assoc, List.getLast?_concat, Option.any_some]
        have later := inductionHypothesis frontLengths ended
        have starts : (frontCode ++ (shown element ++ [separator])).length =
            frontCode.length + (shown element).length + 1 := by
          simp only [List.length_append, List.length_singleton, Nat.add_assoc]
        rw [starts] at later
        simpa only [List.map_cons, joined, List.append_assoc, List.cons_append,
          List.nil_append] using later

/-- Splitting code of this layout at its separators cuts the text into what was written. -/
theorem forall₂_split (lengths : ∀ element, (written element).length = (shown element).length)
    (notWord : Byte.isWordByte separator = false)
    (notParenthesis : isParenthesis separator = false) {elements : List α} (nonempty : elements ≠ [])
    (plain : ∀ element ∈ elements, ∀ byte ∈ shown element,
      byte ≠ separator ∧ isParenthesis byte = false) :
    List.Forall₂ (fun element span => Tile (joined separator (elements.map written))
        (joined separator (elements.map shown)) span (written element) (shown element))
      elements (TopLevel.split (joined separator (elements.map shown)) separator) := by
  obtain ⟨first, others, rfl⟩ := List.exists_cons_of_ne_nil nonempty
  have plainPieces : ∀ piece ∈ shown first :: others.map shown, ∀ byte ∈ piece,
      byte ≠ separator ∧ isParenthesis byte = false := by
    intro piece member
    obtain ⟨element, isElement, rfl⟩ := List.mem_map.mp (List.map_cons ▸ member)
    exact plain element isElement
  have noFront : ([] : Bytes).length = ([] : Bytes).length := rfl
  have places : TopLevel.split (joined separator ((first :: others).map shown)) separator =
      tiles 0 ((first :: others).map shown) := splitFrom_joined notParenthesis 0 plainPieces
  rw [places]
  exact forall₂_tiles lengths notWord (first :: others) noFront rfl

end Layout

section Listed

variable {α : Type}

/-- How a list is spelled: a comma and a blank stand in front of all elements but the first one. -/
def listed (spell : α → List Char) (first : α) (others : List α) : List Char :=
  spell first ++ others.flatMap fun other => ',' :: ' ' :: spell other

/-- An element with the blank in front of it, which all but the first one have. -/
def pieceBytes (spell : α → List Char) (piece : Bool × α) : Bytes :=
  (if piece.1 then [Byte.space] else []) ++ encoded (spell piece.2)

/-- The pieces of a list between its commas. -/
def pieces (first : α) (others : List α) : List (Bool × α) :=
  (false, first) :: others.map fun other => (true, other)

/-- A list is its pieces with commas between them. -/
theorem encoded_listed (spell : α → List Char) (first : α) (others : List α) :
    encoded (listed spell first others) =
      joined Byte.comma ((pieces first others).map (pieceBytes spell)) := by
  have comma : encoded [',', ' '] = [Byte.comma, Byte.space] := by decide
  rw [pieces, List.map_cons, joined_cons, List.map_map, listed, encoded_append]
  refine congrArg (encoded (spell first) ++ ·) ?_
  induction others with
  | nil => rfl
  | cons other others inductionHypothesis =>
    have split : ',' :: ' ' :: spell other = [',', ' '] ++ spell other := rfl
    rw [List.flatMap_cons, encoded_append, inductionHypothesis, split, encoded_append, comma]
    rfl

/-- Splitting the code of a list at its commas cuts the text into what was written, each element
behind blanks. -/
theorem forall₂_listed {written shown : α → List Char}
    (lengths : ∀ element, (encoded (written element)).length = (encoded (shown element)).length)
    (plain : ∀ element, ∀ byte ∈ encoded (shown element),
      byte ≠ Byte.comma ∧ isParenthesis byte = false) (first : α) (others : List α) :
    List.Forall₂ (fun element span => ∃ lead : Bytes,
        (∀ byte ∈ lead, Byte.isBlank byte = true) ∧
        Tile (encoded (listed written first others)) (encoded (listed shown first others)) span
          (lead ++ encoded (written element)) (lead ++ encoded (shown element)))
      (first :: others) (TopLevel.split (encoded (listed shown first others)) Byte.comma) := by
  have pieceLengths (piece : Bool × α) :
      (pieceBytes written piece).length = (pieceBytes shown piece).length := by
    rw [pieceBytes, pieceBytes, List.length_append, List.length_append, lengths]
  have blankLead (piece : Bool × α) :
      ∀ byte ∈ (if piece.1 then [Byte.space] else []), byte = Byte.space := by
    intro byte member
    split at member
    · exact List.mem_singleton.mp member
    · cases member
  have piecePlain (piece : Bool × α) : ∀ byte ∈ pieceBytes shown piece,
      byte ≠ Byte.comma ∧ isParenthesis byte = false := by
    intro byte member
    rcases List.mem_append.mp member with inLead | inElement
    · rw [blankLead piece byte inLead]
      decide
    · exact plain piece.2 byte inElement
  have notWord : Byte.isWordByte Byte.comma = false := by decide
  have nonempty : pieces first others ≠ [] := List.cons_ne_nil _ _
  have layout := forall₂_split pieceLengths notWord (by decide) nonempty
    fun piece _ => piecePlain piece
  have elements : first :: others = (pieces first others).map (·.2) := by
    rw [pieces, List.map_cons, List.map_map]
    exact congrArg (first :: ·) (List.map_id others).symm
  rw [encoded_listed, encoded_listed, elements]
  apply List.forall₂_map_left_iff.mpr
  apply layout.imp
  intro piece part tile
  refine ⟨if piece.1 then [Byte.space] else [], ?_, tile⟩
  intro byte member
  rw [blankLead piece byte member]
  decide

end Listed

/-- What is computed from related elements in the same way gives the same list. -/
theorem map_eq_of_forall₂ {α β γ : Type} {related : α → β → Prop} {f : α → γ} {g : β → γ}
    {left : List α} {right : List β} (all : List.Forall₂ related left right)
    (same : ∀ first second, related first second → g second = f first) :
    right.map g = left.map f := by
  induction all with
  | nil => rfl
  | cons first _ inductionHypothesis =>
    rw [List.map_cons, List.map_cons, same _ _ first, inductionHypothesis]

/-- Two lists that are related element by element give the same results, if related elements do. -/
theorem filterMap_eq_of_forall₂ {α β γ : Type} {related : α → β → Prop} {f : α → Option γ}
    {g : β → Option γ} {left : List α} {right : List β} (all : List.Forall₂ related left right)
    (same : ∀ first second, related first second → g second = f first) :
    right.filterMap g = left.filterMap f := by
  have mapped := congrArg (List.filterMap id) (map_eq_of_forall₂ all same)
  rw [List.filterMap_map, List.filterMap_map] at mapped
  exact mapped

/-! ## The names of a qualifier -/

/-- The bytes of a path of names. -/
theorem encoded_path (spelling : Name → List Char) (others : List Name) (last : Name) :
    encoded (spellQualifier spelling others ++ spelling last) =
      joined Byte.dot ((others ++ [last]).map fun name => encoded (spelling name)) := by
  have dot : encoded ['.'] = [Byte.dot] := by decide
  rw [List.map_append, List.map_singleton, joined_concat, encoded_append, List.flatMap_map]
  congr 1
  induction others with
  | nil => rfl
  | cons name others inductionHypothesis =>
    have one : spellQualifier spelling (name :: others) =
        spelling name ++ ['.'] ++ spellQualifier spelling others := rfl
    rw [one, encoded_append, encoded_append, dot, inductionHypothesis, List.flatMap_cons]

/-- The bytes of a name in the query and in the code view are equally many. -/
theorem Name.length_encoded (name : Name) :
    (encoded name.written).length = (encoded name.shown).length := by
  rw [EntryShape.length_encoded, EntryShape.length_encoded, name.width_shown]

/-- The bytes of an item in the query and in the code view are equally many. -/
theorem Item.length_written (item : Item) :
    (encoded (item.spell Name.written)).length = (encoded (item.spell Name.shown)).length := by
  rw [EntryShape.length_encoded, EntryShape.length_encoded, item.width_shown]

/-- The text that encoded characters spell consists of these characters. -/
theorem text_encoded (characters : List Char) :
    Bytes.text (encoded characters) = String.ofList characters := by
  rw [Bytes.text, decode_encoded]

/-- A qualifier is read as its names, joined by dots. -/
theorem value_readQualifier (others : List Name) (last : Name) :
    (FromEntry.readQualifier (encoded (spellQualifier Name.written others ++ last.written))
      (encoded (spellQualifier Name.shown others ++ last.shown))).value =
        String.intercalate "." ((others ++ [last]).map Name.meaning) := by
  have notWord : Byte.isWordByte Byte.dot = false := by decide
  have layout := forall₂_split Name.length_encoded notWord (by decide)
    (List.concat_ne_nil last others) fun name _ => name.plain_of_mem
  rw [SchemaParts.value_readQualifier, encoded_path, encoded_path]
  congr 1
  apply map_eq_of_forall₂ layout
  intro name part tile
  rw [tile.extract_text, text_encoded, trim_of_solidEnds name.solidEnds_written,
    name.unquote_written]

end Written

end QueryScope
