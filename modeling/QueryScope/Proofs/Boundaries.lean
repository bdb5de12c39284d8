import Mathlib.Data.List.Basic
import QueryScope.Proofs.Padding
import QueryScope.Proofs.Utf8

/-!
# Boundaries between characters

Offsets are found among bytes, but texts are cut at them. An offset next to a byte of ASCII always
falls between two characters, and so does one that only blanks separate from such an offset. The
ends of a trimmed span, the ends of a keyword and the ends of the parts between separators are of
this kind.
-/

namespace QueryScope.Bytes

/-- The first byte of a character does not continue one. -/
theorem not_continues_head_utf8EncodeChar (character : Char) :
    ∀ byte ∈ (String.utf8EncodeChar character).head?, Byte.continuesCharacter byte = false := by
  have leads (part bound low : Nat) (fits : low + bound ≤ 256) (positive : 0 < bound)
      (high : 0xC0 ≤ low) :
      Byte.continuesCharacter (UInt8.ofNat (part % bound + low)) = false := by
    have small := Nat.mod_lt part positive
    have value : (UInt8.ofNat (part % bound + low)).toNat = part % bound + low :=
      toNat_ofNat_of_lt (by omega)
    simp only [Byte.continuesCharacter, UInt8.le_iff_toNat_le, UInt8.lt_iff_toNat_lt, value,
      UInt8.reduceToNat, decide_eq_false_iff_not]
    omega
  unfold String.utf8EncodeChar
  dsimp only
  intro byte isFirst
  split at isFirst
  · rename_i small
    obtain rfl := Option.some.inj isFirst
    simp only [Byte.continuesCharacter, UInt8.le_iff_toNat_le, decide_eq_false_iff_not]
    rw [toNat_ofNat_of_lt (by omega)]
    simp only [UInt8.reduceToNat]
    omega
  · split at isFirst
    · exact Option.some.inj isFirst ▸ leads _ _ _ (by omega) (by omega) (by omega)
    · split at isFirst
      · exact Option.some.inj isFirst ▸ leads _ _ _ (by omega) (by omega) (by omega)
      · exact Option.some.inj isFirst ▸ leads _ _ _ (by omega) (by omega) (by omega)

/-- A text does not begin in the middle of a character. -/
theorem IsText.not_continues_head {bytes : Bytes} (spells : IsText bytes) :
    ∀ byte ∈ bytes.head?, Byte.continuesCharacter byte = false := by
  obtain ⟨text, rfl⟩ := spells
  intro byte isFirst
  rw [ofString] at isFirst
  cases characters : text.toList with
  | nil =>
    rw [characters] at isFirst
    cases isFirst
  | cons character others =>
    rw [characters, List.flatMap_cons] at isFirst
    refine not_continues_head_utf8EncodeChar character byte ?_
    cases encoded : String.utf8EncodeChar character with
    | nil =>
      have positive := character.utf8Size_pos
      rw [← String.length_utf8EncodeChar, encoded] at positive
      cases positive
    | cons first further =>
      rw [encoded] at isFirst
      exact isFirst

/-- An offset that falls between two characters: what is on either side spells a text. -/
structure CutAt (code : Bytes) (offset : Nat) : Prop where
  within : offset ≤ code.length
  front : IsText (code.take offset)
  back : IsText (code.drop offset)

namespace CutAt

variable {code : Bytes}

/-- A text may be cut at its ends. -/
theorem zero (spells : IsText code) : CutAt code 0 :=
  ⟨Nat.zero_le _, isText_encoded [], spells⟩

theorem length (spells : IsText code) : CutAt code code.length where
  within := Nat.le_refl _
  front := by rwa [List.take_length]
  back := by
    rw [List.drop_length]
    exact isText_encoded []

/-- A text may be cut where what is behind spells a text. -/
theorem of_drop (spells : IsText code) {offset : Nat} (within : offset ≤ code.length)
    (back : IsText (code.drop offset)) : CutAt code offset := by
  rw [← List.take_append_drop offset code] at spells
  exact ⟨within, (spells.split back.not_continues_head).1, back⟩

/-- A text may be cut in front of a byte of ASCII. -/
theorem at_ascii (spells : IsText code) {offset : Nat} {byte : UInt8}
    (shown : code[offset]? = some byte) (ascii : byte < 0x80) : CutAt code offset := by
  obtain ⟨within, isByte⟩ := List.getElem?_eq_some_iff.mp shown
  have back : code.drop offset = byte :: code.drop (offset + 1) := by
    rw [List.drop_eq_getElem_cons within, isByte]
  rw [← List.take_append_drop offset code, back] at spells
  obtain ⟨front, rest⟩ := spells.split_ascii ascii
  refine ⟨Nat.le_of_lt within, front, ?_⟩
  rw [back]
  exact (isText_singleton ascii).append rest

/-- A text may be cut behind a byte of ASCII. -/
theorem behind_ascii (spells : IsText code) {offset : Nat} {byte : UInt8}
    (shown : code[offset]? = some byte) (ascii : byte < 0x80) : CutAt code (offset + 1) := by
  have atByte := at_ascii spells shown ascii
  obtain ⟨within, isByte⟩ := List.getElem?_eq_some_iff.mp shown
  have back : IsText ([] ++ byte :: code.drop (offset + 1)) := by
    rw [List.nil_append, ← isByte, ← List.drop_eq_getElem_cons within]
    exact atByte.back
  refine ⟨within, ?_, (back.split_ascii ascii).2⟩
  rw [List.take_add_one, shown]
  exact atByte.front.append (isText_singleton ascii)

/-- What stands between two cuts is a text. -/
theorem isText_extract {start stop : Nat} (first : CutAt code start) (second : CutAt code stop)
    (inOrder : start ≤ stop) : IsText (code.extract start stop) := by
  have spells := first.back
  rw [← Window.extract_append_drop code inOrder] at spells
  exact (spells.split second.back.not_continues_head).1

/-- Blanks lead from one cut to another one. -/
theorem behind_blanks (spells : IsText code) {start offset : Nat} (first : CutAt code start)
    (within : offset ≤ code.length)
    (blank : ∀ byte ∈ code.extract start offset, Byte.isBlank byte = true)
    (inOrder : start ≤ offset) : CutAt code offset := by
  rcases Nat.lt_or_ge start offset with ahead | same
  · obtain ⟨last, rfl⟩ := Nat.exists_eq_succ_of_ne_zero (Nat.ne_of_gt (Nat.lt_of_le_of_lt
      (Nat.zero_le _) ahead))
    have shown : code[last]? = some code[last] := List.getElem?_eq_getElem within
    have isBlank := blank _ (Window.mem_extract shown (by omega) (by omega))
    exact behind_ascii spells shown (Byte.ascii_of_blank isBlank)
  · obtain rfl := Nat.le_antisymm inOrder same
    exact first

/-- Blanks lead back from one cut to another one. -/
theorem before_blanks (spells : IsText code) {offset stop : Nat} (second : CutAt code stop)
    (blank : ∀ byte ∈ code.extract offset stop, Byte.isBlank byte = true)
    (inOrder : offset ≤ stop) : CutAt code offset := by
  rcases Nat.lt_or_ge offset stop with ahead | same
  · have within : offset < code.length := Nat.lt_of_lt_of_le ahead second.within
    have shown : code[offset]? = some code[offset] := List.getElem?_eq_getElem within
    have isBlank := blank _ (Window.mem_extract shown (Nat.le_refl _) ahead)
    exact at_ascii spells shown (Byte.ascii_of_blank isBlank)
  · obtain rfl := Nat.le_antisymm inOrder same
    exact second

end CutAt

/-- What trimming leaves out is blank, and what it leaves neither begins nor ends with a blank. -/
structure Trimmed (code : Bytes) (span trimmed : Span) : Prop where
  startLe : span.start ≤ trimmed.start
  inOrder : trimmed.start ≤ trimmed.stop
  stopLe : trimmed.stop ≤ span.stop
  blankFront : ∀ byte ∈ code.extract span.start trimmed.start, Byte.isBlank byte = true
  blankBack : ∀ byte ∈ code.extract trimmed.stop span.stop, Byte.isBlank byte = true
  solid : ∀ byte ∈ (code.extract trimmed.start trimmed.stop).head?, Byte.isBlank byte = false
  solidLast : ∀ byte ∈ (code.extract trimmed.start trimmed.stop).getLast?, Byte.isBlank byte = false

/-- Trimming leaves out blanks. -/
theorem trimmed_trim {code : Bytes} {span : Span} (inOrder : span.start ≤ span.stop)
    (within : span.stop ≤ code.length) : Trimmed code span (trim code span).value := by
  obtain ⟨front, middle, back, piece, blankFront, blankBack, solid, solidLast, trimmed⟩ :=
    Padding.exists_trimmed (code.extract span.start span.stop)
  have frontLength : (code.take span.start).length = span.start := by
    rw [List.length_take]
    omega
  have pieceLength := Window.length_extract code span.start within
  have lengths := congrArg List.length piece
  rw [pieceLength, List.length_append, List.length_append] at lengths
  have place : (trim code span).value =
      ⟨span.start + front.length, span.start + (front.length + middle.length)⟩ := by
    have moved := Window.trim_window (code.take span.start) (code.extract span.start span.stop)
      (code.drop span.stop) ⟨0, (code.extract span.start span.stop).length⟩ (Nat.le_refl _)
    have same : (⟨0, (code.extract span.start span.stop).length⟩ : Span).shift span.start =
        span := by
      simp only [Span.shift, pieceLength, Nat.zero_add, Nat.sub_add_cancel inOrder]
    rw [Window.take_extract_drop code inOrder, frontLength, trimmed, same] at moved
    rw [moved]
    simp only [Span.shift, Nat.add_comm span.start]
  have whole : code =
      code.take span.start ++ (front ++ (middle ++ (back ++ code.drop span.stop))) := by
    have regrouped := Window.take_extract_drop code inOrder
    rw [piece] at regrouped
    simpa only [List.append_assoc] using regrouped.symm
  have beforeMiddle : code =
      (code.take span.start ++ front) ++ (middle ++ (back ++ code.drop span.stop)) := by
    rwa [List.append_assoc]
  have beforeBack : code =
      (code.take span.start ++ (front ++ middle)) ++ (back ++ code.drop span.stop) := by
    rwa [List.append_assoc, List.append_assoc]
  have shownFront := Window.extract_eq_of_append whole frontLength.symm rfl
  have shownMiddle : code.extract (span.start + front.length)
      (span.start + front.length + middle.length) = middle :=
    Window.extract_eq_of_append beforeMiddle (by rw [List.length_append, frontLength]) rfl
  have shownBack : code.extract (span.start + (front.length + middle.length)) span.stop = back :=
    Window.extract_eq_of_append beforeBack
      (by rw [List.length_append, List.length_append, frontLength]) (by omega)
  rw [place]
  refine ⟨Nat.le_add_right _ _, by simp only; omega, by simp only; omega, ?_, ?_, ?_, ?_⟩
  · simp only
    rwa [shownFront]
  · simp only
    rwa [shownBack]
  · simp only [← Nat.add_assoc]
    rwa [shownMiddle]
  · simp only [← Nat.add_assoc]
    rwa [shownMiddle]

/-- Trimming leaves everything in that is not blank. -/
theorem Trimmed.of_solid {code : Bytes} {span trimmed : Span} (isTrimmed : Trimmed code span trimmed)
    {offset : Nat} {byte : UInt8} (shown : code[offset]? = some byte)
    (solid : Byte.isBlank byte = false) (behind : span.start ≤ offset) (before : offset < span.stop) :
    trimmed.start ≤ offset ∧ offset < trimmed.stop := by
  constructor
  · by_contra inFront
    have blank := isTrimmed.blankFront byte (Window.mem_extract shown behind (Nat.not_le.mp inFront))
    rw [solid] at blank
    cases blank
  · by_contra inBack
    have blank := isTrimmed.blankBack byte (Window.mem_extract shown (Nat.not_lt.mp inBack) before)
    rw [solid] at blank
    cases blank

/-- A trimmed span can be cut out where the span can. -/
theorem Trimmed.cutAt {code : Bytes} {span trimmed : Span} (spells : IsText code)
    (isTrimmed : Trimmed code span trimmed) (start : CutAt code span.start)
    (stop : CutAt code span.stop) : CutAt code trimmed.start ∧ CutAt code trimmed.stop := by
  have ended := stop.within
  have inOrder := isTrimmed.inOrder
  have stopLe := isTrimmed.stopLe
  exact ⟨start.behind_blanks spells (by omega) isTrimmed.blankFront isTrimmed.startLe,
    stop.before_blanks spells isTrimmed.blankBack stopLe⟩

/-- A span whose two ends fall between characters. -/
structure CutOut (code : Bytes) (span : Span) : Prop where
  start : CutAt code span.start
  stop : CutAt code span.stop
  inOrder : span.start ≤ span.stop

namespace CutOut

variable {code : Bytes} {span : Span}

/-- The piece that such a span covers is a text. -/
theorem isText (cutOut : CutOut code span) : IsText (code.extract span.start span.stop) :=
  cutOut.start.isText_extract cutOut.stop cutOut.inOrder

/-- What is left when the blanks at the ends are taken off. -/
theorem trim (spells : IsText code) (cutOut : CutOut code span) :
    CutOut code (Bytes.trim code span).value := by
  have trimmed := trimmed_trim cutOut.inOrder cutOut.stop.within
  obtain ⟨start, stop⟩ := trimmed.cutAt spells cutOut.start cutOut.stop
  exact ⟨start, stop, trimmed.inOrder⟩

/-- The characters of a piece stand next to each other among those of the whole. -/
theorem isInfix_decode (cutOut : CutOut code span) :
    decode (code.extract span.start span.stop) <:+: decode code := by
  refine ⟨decode (code.take span.start), decode (code.drop span.stop), ?_⟩
  rw [List.append_assoc, ← cutOut.isText.decode_append, ← cutOut.start.front.decode_append,
    Window.take_extract_drop code cutOut.inOrder]

end CutOut

/-- Bytes that stand somewhere in a text. Their ends may fall inside a character. -/
def InText (bytes : Bytes) : Prop := ∃ front back, IsText (front ++ (bytes ++ back))

namespace InText

/-- So does every piece of them. -/
theorem extract {bytes : Bytes} (inText : InText bytes) (start stop : Nat) :
    InText (bytes.extract start stop) := by
  obtain ⟨front, back, spells⟩ := inText
  refine ⟨front ++ bytes.take start, (bytes.drop start).drop (stop - start) ++ back, ?_⟩
  have whole : bytes = bytes.take start ++ ((bytes.drop start).take (stop - start) ++
      (bytes.drop start).drop (stop - start)) := by
    rw [List.take_append_drop, List.take_append_drop]
  rw [whole] at spells
  rw [List.extract_eq_take_drop]
  simpa only [List.append_assoc] using spells

/-- What stands between a byte of ASCII and a text is a text. -/
theorem between {front middle spelled back : Bytes} {byte : UInt8} (ascii : byte < 0x80)
    (isText : IsText spelled) (something : spelled ≠ [])
    (inText : InText (front ++ byte :: (middle ++ (spelled ++ back)))) : IsText middle := by
  obtain ⟨before, behind, spells⟩ := inText
  have regrouped : before ++ ((front ++ byte :: (middle ++ (spelled ++ back))) ++ behind) =
      (before ++ front) ++ byte :: (middle ++ (spelled ++ (back ++ behind))) := by
    simp only [List.append_assoc, List.cons_append]
  rw [regrouped] at spells
  obtain ⟨_, rest⟩ := spells.split_ascii ascii
  refine (rest.split ?_).1
  intro first isFirst
  apply isText.not_continues_head
  rwa [List.head?_append_of_ne_nil _ something] at isFirst

end InText

end QueryScope.Bytes

namespace QueryScope.TopLevel

/-- Where a part that splitting yields begins and ends: the first one begins at `start`, every other
one behind a separator, and it ends at a separator or at the end of the code. -/
structure Part (code : Bytes) (separator : UInt8) (start : Nat) (part : Span) : Prop where
  begins : part.start = start ∨
    ∃ before, code[before]? = some separator ∧ part.start = before + 1
  ends : part.stop = code.length ∨ code[part.stop]? = some separator
  inOrder : part.start ≤ part.stop

/-- Splitting the bytes ahead; the part that is being read began at `start`. -/
theorem part_of_mem_splitFrom {code : Bytes} {separator : UInt8} {start offset : Nat} (depth : Nat)
    {ahead : Bytes} (here : code.drop offset = ahead) (within : offset ≤ code.length)
    (inOrder : start ≤ offset) :
    ∀ part ∈ splitFrom separator start offset depth ahead, Part code separator start part := by
  induction ahead generalizing start offset depth with
  | nil =>
    intro part member
    rw [splitFrom, List.mem_singleton] at member
    have atEnd := List.drop_eq_nil_iff.mp here
    rw [member]
    exact ⟨.inl rfl, .inl (Nat.le_antisymm within atEnd), inOrder⟩
  | cons byte rest inductionHypothesis =>
    obtain ⟨shown, next⟩ := Window.of_drop_eq_cons here
    have nextWithin : offset + 1 ≤ code.length := (List.getElem?_eq_some_iff.mp shown).1
    intro part member
    rw [splitFrom] at member
    split at member
    · rename_i separates
      have isSeparator : byte = separator := by
        simp only [Bool.and_eq_true, beq_iff_eq] at separates
        exact separates.1.2
      subst isSeparator
      rcases List.mem_cons.mp member with rfl | later
      · exact ⟨.inl rfl, .inr shown, inOrder⟩
      · have further := inductionHypothesis depth next nextWithin (Nat.le_refl _) part later
        refine ⟨.inr ?_, further.ends, further.inOrder⟩
        rcases further.begins with first | behind
        · exact ⟨offset, shown, first⟩
        · exact behind
    · exact inductionHypothesis _ next nextWithin (Nat.le_succ_of_le inOrder) part member

section

variable {code : Bytes} {separator : UInt8}

/-- Splitting a whole code; its first part begins with it. -/
theorem part_of_mem_split {span : Span} (member : span ∈ split code separator) :
    Part code separator 0 span :=
  part_of_mem_splitFrom 0 List.drop_zero (Nat.zero_le _) (Nat.le_refl _) span member

/-- What holds at the beginning of a code and behind every separator holds where a part begins. -/
theorem Part.holds_at_start {span : Span} (part : Part code separator 0 span) {holds : Nat → Prop}
    (atBeginning : holds 0)
    (behindSeparator : ∀ offset, code[offset]? = some separator → holds (offset + 1)) :
    holds span.start := by
  rcases part.begins with first | ⟨before, shown, behind⟩
  · rwa [first]
  · rw [behind]
    exact behindSeparator before shown

/-- What holds at the end of a code and at every separator holds where a part ends. -/
theorem Part.holds_at_stop {span : Span} (part : Part code separator 0 span) {holds : Nat → Prop}
    (atEnd : holds code.length)
    (atSeparator : ∀ offset, code[offset]? = some separator → holds offset) :
    holds span.stop := by
  rcases part.ends with last | shown
  · rwa [last]
  · exact atSeparator span.stop shown

/-- The parts of a code may be cut out of it when the separator is a byte of ASCII. -/
theorem cutOut_of_mem_split (spells : Bytes.IsText code) (ascii : separator < 0x80) :
    ∀ part ∈ split code separator, Bytes.CutOut code part := by
  intro span member
  have part := part_of_mem_split member
  refine ⟨?_, ?_, part.inOrder⟩
  · exact part.holds_at_start (.zero spells) fun _ shown => .behind_ascii spells shown ascii
  · exact part.holds_at_stop (.length spells) fun _ shown => .at_ascii spells shown ascii

end

end QueryScope.TopLevel
