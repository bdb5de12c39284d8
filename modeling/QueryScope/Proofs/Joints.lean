import Mathlib.Data.List.Forall2
import QueryScope.Proofs.Alignment

/-!
# Joints of a text and its code

A character that the code leaves out becomes several blanks, so the code can be cut at offsets that
fall inside a character of the text. A joint is an offset at which both can be cut. The code shows
every other byte as it is: where a character of the code begins that is no blank, the same character
begins in the text, and where it ends, it ends in the text as well. Keywords, words, separators and
trimmed pieces begin and end with such characters, so all the offsets that a reader of the code
finds are joints.
-/

namespace QueryScope

open Bytes EntryShape

/-- A byte of ASCII other than a blank. -/
def Byte.isMark (byte : UInt8) : Bool := decide (byte < 0x80) && !Byte.isBlank byte

/-- A mark is a byte of ASCII and is not blank. -/
theorem Byte.of_isMark {byte : UInt8} (mark : isMark byte = true) :
    byte < 0x80 ∧ isBlank byte = false := by
  simpa only [isMark, Bool.and_eq_true, decide_eq_true_eq, Bool.not_eq_true'] using mark

/-- A byte that differs from a mark at most in case is a mark. -/
theorem Byte.isMark_of_upper_eq {byte other : UInt8} (same : upper byte = upper other)
    (mark : isMark other = true) : isMark byte = true := by
  obtain ⟨ascii, solid⟩ := of_isMark mark
  rw [← isBlank_upper, ← same, isBlank_upper] at solid
  simp only [isMark, ascii_of_upper_eq same ascii, solid, decide_true, Bool.not_false,
    Bool.and_self]

namespace Bytes

/-- A text may be cut in front of a byte that does not continue a character, and at its end. -/
theorem CutAt.of_not_continues {code : Bytes} (spells : IsText code) {offset : Nat}
    (within : offset ≤ code.length)
    (begins : ∀ byte ∈ code[offset]?, Byte.continuesCharacter byte = false) :
    CutAt code offset := by
  rw [← List.take_append_drop offset code] at spells
  rw [← List.head?_drop] at begins
  exact ⟨within, (spells.split begins).1, (spells.split begins).2⟩

/-- Where a text may be cut there is a boundary between characters. -/
theorem CutAt.isBoundary {code : Bytes} {offset : Nat} (cut : CutAt code offset) :
    isBoundary code offset = true := by
  rw [Bytes.isBoundary]
  split
  · rename_i byte shown
    rw [← List.head?_drop] at shown
    rw [cut.back.not_continues_head byte shown]
    rfl
  · rename_i nothing
    have past := List.getElem?_eq_none_iff.mp nothing
    exact beq_iff_eq.mpr (Nat.le_antisymm cut.within past)

/-- Cutting such a span out is sound. -/
theorem CutOut.admits {code : Bytes} {span : Span} (cutOut : CutOut code span) :
    admits code span = true := by
  simp only [Bytes.admits, cutOut.start.isBoundary, cutOut.stop.isBoundary, cutOut.inOrder,
    cutOut.stop.within, decide_true, Bool.and_self]

/-- The last character of a text whose last byte is no blank has no blank byte at all. -/
theorem IsText.exists_last {bytes : Bytes} (spells : IsText bytes) {byte : UInt8}
    (ends : bytes.getLast? = some byte) (solid : Byte.isBlank byte = false) :
    ∃ front character, bytes = front ++ String.utf8EncodeChar character ∧
      ∀ other ∈ String.utf8EncodeChar character, Byte.isBlank other = false := by
  obtain ⟨text, rfl⟩ := spells
  rw [ofString] at ends ⊢
  rcases List.eq_nil_or_concat text.toList with nothing | ⟨others, character, isConcat⟩
  · rw [nothing] at ends
    cases ends
  · rw [isConcat, List.concat_eq_append, List.flatMap_append, List.flatMap_singleton] at ends ⊢
    rw [List.getLast?_append_of_ne_nil _ String.utf8EncodeChar_ne_nil] at ends
    refine ⟨_, character, rfl, ?_⟩
    intro other member
    rcases utf8EncodeChar_ascii_or_wide character with ⟨only, single, _⟩ | wide
    · rw [single, List.getLast?_singleton, Option.some.injEq] at ends
      rw [single, List.mem_singleton] at member
      rwa [member, ends]
    · rw [Bool.eq_false_iff]
      intro blank
      exact absurd (Byte.ascii_of_blank blank) (UInt8.not_lt.mpr (wide other member))

/-! ## The end of a trimmed piece -/

/-- A piece has nothing but blanks, or something is left of it without those at its ends. -/
theorem leading_eq_or_lt (piece : Bytes) :
    leading piece = piece.length ∨ leading piece + trailing piece < piece.length := by
  have front : leading piece ≤ piece.length := (List.takeWhile_prefix Byte.isBlank).length_le
  rcases Nat.eq_or_lt_of_le front with same | shorter
  · exact .inl same
  · refine .inr (Nat.lt_of_le_of_ne (leading_add_trailing_le piece) ?_)
    intro nothing
    have rest : (piece.drop (leading piece)).length = piece.length - leading piece :=
      List.length_drop
    have allBlank : ∀ byte ∈ (piece.drop (leading piece)).reverse, Byte.isBlank byte = true := by
      rw [← List.takeWhile_eq_self_iff]
      apply (List.takeWhile_prefix Byte.isBlank).eq_of_length
      rw [trailing] at nothing
      rw [List.length_reverse]
      omega
    rw [drop_leading] at allBlank rest
    cases remains : piece.dropWhile Byte.isBlank with
    | nil =>
      rw [remains, List.length_nil] at rest
      omega
    | cons byte others =>
      have solid := List.head?_dropWhile_not Byte.isBlank piece
      rw [remains] at solid allBlank
      have blank := allBlank byte (List.mem_reverse.mpr List.mem_cons_self)
      exact Bool.false_ne_true (solid.symm.trans blank)

/-- In front of the blanks at the end comes a byte that is no blank. -/
theorem exists_solid_before_trailing {piece : Bytes}
    (remains : leading piece + trailing piece < piece.length) :
    ∃ byte, piece[piece.length - trailing piece - 1]? = some byte ∧ Byte.isBlank byte = false := by
  generalize isRest : (piece.drop (leading piece)).reverse = rest
  have length : rest.length = piece.length - leading piece := by
    rw [← isRest, List.length_reverse, List.length_drop]
  have isTrailing : trailing piece = (rest.takeWhile Byte.isBlank).length := by
    rw [trailing, isRest]
  have whole : rest.takeWhile Byte.isBlank ++ rest.dropWhile Byte.isBlank = rest :=
    List.takeWhile_append_dropWhile
  cases kept : rest.dropWhile Byte.isBlank with
  | nil =>
    rw [kept, List.append_nil] at whole
    rw [whole] at isTrailing
    omega
  | cons byte others =>
    have solid := List.head?_dropWhile_not Byte.isBlank rest
    rw [kept] at solid
    refine ⟨byte, ?_, solid⟩
    have shown : rest[trailing piece]? = some byte := by
      rw [← whole, kept, isTrailing, List.getElem?_append_right (Nat.le_refl _), Nat.sub_self,
        List.getElem?_cons_zero]
    rw [← isRest, List.getElem?_reverse (by rw [List.length_drop]; omega), List.getElem?_drop,
      List.length_drop] at shown
    rw [← shown]
    congr 1
    omega

/-- A trimmed span is not empty and ends with a byte that is no blank, or it is the end of the
span. -/
theorem ends_trim {code : Bytes} {span : Span} (inOrder : span.start ≤ span.stop)
    (within : span.stop ≤ code.length) :
    (trim code span).value = ⟨span.stop, span.stop⟩ ∨
      ∃ last byte, (trim code span).value.start ≤ last ∧ (trim code span).value.stop = last + 1 ∧
        code[last]? = some byte ∧ Byte.isBlank byte = false := by
  have length := Window.length_extract code span.start within
  rw [value_trim within]
  rcases leading_eq_or_lt (code.extract span.start span.stop) with all | remains
  · have overlap := leading_add_trailing_le (code.extract span.start span.stop)
    left
    rw [Span.mk.injEq]
    omega
  · right
    obtain ⟨byte, shown, solid⟩ := exists_solid_before_trailing remains
    generalize leading (code.extract span.start span.stop) = front at remains ⊢
    generalize trailing (code.extract span.start span.stop) = back at remains shown ⊢
    refine ⟨span.stop - back - 1, byte, by simp only; omega, by simp only; omega, ?_, solid⟩
    rw [length, List.extract_eq_take_drop, List.getElem?_take_of_lt (by omega),
      List.getElem?_drop] at shown
    rw [← shown]
    congr 1
    omega

end Bytes

/-! ## Joints -/

/-- Some code and its text: both spell texts, and the code has the byte of the text or a space at
every place. -/
structure Overlay (code text : Bytes) : Prop where
  spellsCode : IsText code
  spellsText : IsText text
  veils : List.Forall₂ (fun shown byte => shown = byte ∨ shown = Byte.space) code text

namespace Overlay

variable {code text : Bytes}

/-- Code that overlays a text veils it. -/
theorem veiled (overlay : Overlay code text) : Veiled code text :=
  ⟨overlay.veils, [], [], by rw [List.nil_append, List.append_nil]; exact overlay.spellsText⟩

/-- Code that overlays a text is as long as the text. -/
theorem length_eq (overlay : Overlay code text) : code.length = text.length :=
  overlay.veils.length_eq

/-- Code without blanked parts is its own text. -/
theorem refl (spells : IsText code) : Overlay code code :=
  ⟨spells, spells, List.forall₂_same.mpr fun _ _ => .inl rfl⟩

/-- Overlays side by side make an overlay of the whole. -/
theorem append {code text laterCode laterText : Bytes} (front : Overlay code text)
    (back : Overlay laterCode laterText) : Overlay (code ++ laterCode) (text ++ laterText) :=
  ⟨front.spellsCode.append back.spellsCode, front.spellsText.append back.spellsText,
    List.rel_append front.veils back.veils⟩

/-- Where the code has no blanks, it is the text. -/
theorem eq_of_solid {shown bytes : Bytes}
    (veils : List.Forall₂ (fun shown byte => shown = byte ∨ shown = Byte.space) shown bytes)
    (solid : ∀ byte ∈ shown, Byte.isBlank byte = false) : bytes = shown := by
  induction veils with
  | nil => rfl
  | cons first _ inductionHypothesis =>
    have notSpace := solid _ List.mem_cons_self
    rcases first with rfl | rfl
    · rw [inductionHypothesis fun byte member => solid byte (List.mem_cons_of_mem _ member)]
    · cases notSpace

end Overlay

/-- An offset at which some code and its text can be cut alike. -/
structure Joint (code text : Bytes) (offset : Nat) : Prop where
  inCode : CutAt code offset
  inText : CutAt text offset

namespace Joint

variable {code text : Bytes} {offset : Nat} {byte : UInt8}

/-- The beginning is a joint of the code and the text. -/
theorem zero (overlay : Overlay code text) : Joint code text 0 :=
  ⟨.zero overlay.spellsCode, .zero overlay.spellsText⟩

/-- The end is a joint of the code and the text, which end together. -/
theorem length (overlay : Overlay code text) : Joint code text code.length := by
  refine ⟨.length overlay.spellsCode, ?_⟩
  rw [overlay.length_eq]
  exact .length overlay.spellsText

/-- A character of the code that is no blank begins at a joint. -/
theorem at_solid (overlay : Overlay code text) (cut : CutAt code offset)
    (shown : code[offset]? = some byte) (solid : Byte.isBlank byte = false) :
    Joint code text offset := by
  refine ⟨cut, .of_not_continues overlay.spellsText (overlay.length_eq ▸ cut.within) ?_⟩
  rw [overlay.veiled.getElem?_eq shown solid, ← shown, ← List.head?_drop]
  exact cut.back.not_continues_head

/-- A character of the code that is no blank ends at a joint. All its bytes are shown, so the text
has the character at the same place. -/
theorem behind_solid (overlay : Overlay code text) (cut : CutAt code (offset + 1))
    (shown : code[offset]? = some byte) (solid : Byte.isBlank byte = false) :
    Joint code text (offset + 1) := by
  have ends : (code.take (offset + 1)).getLast? = some byte := by
    rw [List.getLast?_take, if_neg (Nat.succ_ne_zero offset), Nat.add_sub_cancel, shown,
      Option.some_or]
  obtain ⟨front, character, isFront, solidCharacter⟩ := cut.front.exists_last ends solid
  have lengths := congrArg List.length isFront
  rw [List.length_take, Nat.min_eq_left cut.within, List.length_append] at lengths
  -- The piece of the text at the place of the last character is that character.
  have inCode : code.extract front.length (offset + 1) = String.utf8EncodeChar character :=
    Window.extract_eq_of_append (by rw [← List.append_assoc, ← isFront, List.take_append_drop])
      rfl lengths
  have inText : text.extract front.length (offset + 1) = String.utf8EncodeChar character := by
    have veils := (overlay.veiled.extract front.length (offset + 1)).veils
    rw [inCode] at veils
    exact Overlay.eq_of_solid veils solidCharacter
  have spells := overlay.spellsText
  rw [← Window.take_extract_drop text (by omega : front.length ≤ offset + 1), inText] at spells
  have behind := (spells.split (by
    rw [List.head?_append_of_ne_nil _ String.utf8EncodeChar_ne_nil]
    exact not_continues_head_utf8EncodeChar character)).2
  have isText : IsText (String.utf8EncodeChar character) := by
    have single := isText_encoded [character]
    rwa [List.flatMap_singleton] at single
  exact ⟨cut,
    .of_drop overlay.spellsText (overlay.length_eq ▸ cut.within) (isText.of_append behind)⟩

/-- A mark of the code, which is a byte of ASCII other than a blank, begins at a joint. -/
theorem at_mark (overlay : Overlay code text) (shown : code[offset]? = some byte)
    (mark : Byte.isMark byte = true) : Joint code text offset := by
  obtain ⟨ascii, solid⟩ := Byte.of_isMark mark
  exact at_solid overlay (.at_ascii overlay.spellsCode shown ascii) shown solid

/-- It ends at a joint as well. -/
theorem behind_mark (overlay : Overlay code text) (shown : code[offset]? = some byte)
    (mark : Byte.isMark byte = true) : Joint code text (offset + 1) := by
  obtain ⟨ascii, solid⟩ := Byte.of_isMark mark
  exact behind_solid overlay (.behind_ascii overlay.spellsCode shown ascii) shown solid

end Joint

/-- A span between two joints: it can be cut out of the code and out of the text. -/
structure CutBoth (code text : Bytes) (span : Span) : Prop where
  start : Joint code text span.start
  stop : Joint code text span.stop
  inOrder : span.start ≤ span.stop

namespace CutBoth

variable {code text : Bytes} {span : Span}

/-- What can be cut out of both can be cut out of the code. -/
theorem inCode (both : CutBoth code text span) : CutOut code span :=
  ⟨both.start.inCode, both.stop.inCode, both.inOrder⟩

/-- What can be cut out of both can be cut out of the text. -/
theorem inText (both : CutBoth code text span) : CutOut text span :=
  ⟨both.start.inText, both.stop.inText, both.inOrder⟩

/-- The piece of the code and the piece of the text that the span covers. -/
theorem overlay (overlay : Overlay code text) (both : CutBoth code text span) :
    Overlay (code.extract span.start span.stop) (text.extract span.start span.stop) :=
  ⟨both.inCode.isText, both.inText.isText, (overlay.veiled.extract span.start span.stop).veils⟩

/-- The whole. -/
theorem whole (overlay : Overlay code text) : CutBoth code text ⟨0, code.length⟩ :=
  ⟨.zero overlay, .length overlay, Nat.zero_le _⟩

/-- The empty span at the beginning. -/
theorem absent (overlay : Overlay code text) : CutBoth code text Span.absent :=
  ⟨.zero overlay, .zero overlay, Nat.le_refl _⟩

/-- What is left when the blanks at the ends are taken off begins and ends with characters that are
no blanks, or nothing is left at the end of the span. -/
theorem trim (overlay : Overlay code text) (both : CutBoth code text span) :
    CutBoth code text (Bytes.trim code span).value := by
  have within := both.stop.inCode.within
  have trimmed := trimmed_trim both.inOrder within
  have cutOut := both.inCode.trim overlay.spellsCode
  rcases ends_trim both.inOrder within with atEnd | ⟨last, byte, begins, isStop, shown, solid⟩
  · rw [atEnd]
    exact ⟨both.stop, both.stop, Nat.le_refl _⟩
  · refine ⟨?_, ?_, trimmed.inOrder⟩
    · have inside : (Bytes.trim code span).value.start < code.length := by
        have lastInside := (List.getElem?_eq_some_iff.mp shown).1
        omega
      have first := List.getElem?_eq_getElem inside
      apply Joint.at_solid overlay cutOut.start first
      apply trimmed.solid
      rw [List.extract_eq_take_drop, List.head?_take, if_neg (by omega), List.head?_drop]
      exact first
    · have stop := cutOut.stop
      rw [isStop] at stop ⊢
      exact Joint.behind_solid overlay stop shown solid

end CutBoth

/-! ## Where readers find joints -/

namespace Keyword

/-- Whether a keyword begins and ends with a mark. -/
def isFramed (keyword : Keyword) : Bool :=
  keyword.firstByte?.any Byte.isMark && keyword.lastByte?.any Byte.isMark

/-- A hit begins and ends at joints. The search may be bounded by `stop`. -/
theorem joints_of_find? {code text : Bytes} (overlay : Overlay code text) {keywords : List Keyword}
    (framed : keywords.all isFramed = true) {offset stop : Nat} {hit : Hit}
    (found : find? (code.take stop) offset keywords = some hit) :
    Joint code text hit.span.start ∧ Joint code text hit.span.stop := by
  obtain ⟨keyword, _, _, _, isKeyword, _⟩ := exists_keyword_of_find? found
  have marks := List.all_eq_true.mp framed keyword (List.mem_of_getElem? isKeyword)
  rw [isFramed, Bool.and_eq_true, Option.any_eq_true, Option.any_eq_true] at marks
  obtain ⟨⟨first, isFirst, firstMark⟩, last, isLast, lastMark⟩ := marks
  constructor
  · obtain ⟨byte, shown, same⟩ := exists_first_of_find? found isKeyword isFirst
    exact .at_mark overlay (Window.getElem?_of_take shown) (Byte.isMark_of_upper_eq same firstMark)
  · obtain ⟨before, byte, isStop, shown, same⟩ := exists_last_of_find? found isKeyword isLast
    rw [isStop]
    exact .behind_mark overlay (Window.getElem?_of_take shown) (Byte.isMark_of_upper_eq same lastMark)

/-- The end of a hit of an unbounded search. -/
theorem joint_behind {code text : Bytes} (overlay : Overlay code text) {keywords : List Keyword}
    (framed : keywords.all isFramed = true) {offset : Nat} {hit : Hit}
    (found : find? code offset keywords = some hit) : Joint code text hit.span.stop := by
  rw [← List.take_length (l := code)] at found
  exact (joints_of_find? overlay framed found).2

/-- What comes before the first keyword of a list, or before the end when there is none. -/
theorem cutBoth_before {code text : Bytes} (overlay : Overlay code text) {keywords : List Keyword}
    (spacious : TakesSpace keywords) (framed : keywords.all isFramed = true) {span : Span}
    (both : CutBoth code text span) :
    CutBoth code text ⟨span.start,
      ((find? (code.take span.stop) span.start keywords).map (·.span.start)).getD span.stop⟩ := by
  cases found : find? (code.take span.stop) span.start keywords with
  | none => exact both
  | some hit =>
    exact ⟨both.start, (joints_of_find? overlay framed found).1,
      (span_of_find?_eq_some spacious found).1⟩

end Keyword

/-- The parts between separators begin and end at joints. -/
theorem TopLevel.cutBoth_of_mem_split {code text : Bytes} (overlay : Overlay code text)
    {separator : UInt8} (mark : Byte.isMark separator = true) :
    ∀ part ∈ split code separator, CutBoth code text part := by
  intro span member
  have part := part_of_mem_split member
  refine ⟨?_, ?_, part.inOrder⟩
  · exact part.holds_at_start (.zero overlay) fun _ shown => .behind_mark overlay shown mark
  · exact part.holds_at_stop (.length overlay) fun _ shown => .at_mark overlay shown mark

/-- The span of a word may be cut out where the search for the word may begin. -/
theorem Word.cutOut_of_next? {code : Bytes} (spells : IsText code) {offset : Nat}
    (begins : CutAt code offset) {word : Word} (met : next? code offset = some word) :
    CutOut code word.span := by
  have within := stop_le_of_next? met
  have stop : CutAt code word.span.stop :=
    .of_drop spells within (Window.isText_drop_of_next? spells met)
  obtain ⟨blanks, behind, ahead, blank, _, _, _, place⟩ := split_of_next?_eq_some met
  rw [place] at within stop ⊢
  refine ⟨begins.behind_blanks spells (Nat.le_trans (Nat.le_add_right _ _) within) ?_
    (Nat.le_add_right _ _), stop, Nat.le_add_right _ _⟩
  rw [List.extract_eq_take_drop, Nat.add_sub_cancel_left, ahead, List.take_left]
  exact blank

/-- A word ends at a joint. -/
theorem Word.joint_of_next? {code text : Bytes} (overlay : Overlay code text) {offset : Nat}
    (begins : CutAt code offset) {word : Word} (met : next? code offset = some word) :
    Joint code text word.span.stop := by
  have stop := (cutOut_of_next? overlay.spellsCode begins met).stop
  obtain ⟨blanks, behind, ahead, _, wordBytes, ⟨first, others, spelled, _⟩, _, place⟩ :=
    split_of_next?_eq_some met
  obtain ⟨last, isLast⟩ : ∃ last, word.spelling.getLast? = some last :=
    ⟨_, List.getLast?_eq_some_getLast (by rw [spelled]; exact List.cons_ne_nil _ _)⟩
  have solid : Byte.isBlank last = false :=
    Byte.not_blank_of_word (wordBytes last (List.mem_of_getLast? isLast))
  obtain ⟨front, isFront⟩ := List.getLast?_eq_some_iff.mp isLast
  have isStop : word.span.stop = offset + (blanks.length + front.length) + 1 := by
    rw [place, isFront, List.length_append, List.length_singleton]
    simp only [Nat.add_assoc]
  have shown : code[offset + (blanks.length + front.length)]? = some last := by
    rw [← List.getElem?_drop, ahead, isFront, List.getElem?_append_right (Nat.le_add_right _ _),
      Nat.add_sub_cancel_left, List.append_assoc, List.getElem?_append_right (Nat.le_refl _),
      Nat.sub_self]
    rfl
  rw [isStop] at stop ⊢
  exact Joint.behind_solid overlay stop shown solid

end QueryScope
