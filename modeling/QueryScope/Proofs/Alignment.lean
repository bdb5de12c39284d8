import Mathlib.Data.List.Forall2
import QueryScope.Proofs.CapitalNames
import QueryScope.Proofs.Noninterference

/-!
# Pieces of a text that begin between characters

Names and clauses are cut out of a text at offsets that were found in its code. The code has a byte of
the text or a space at every place, so where a piece of the code begins with something other than a
blank, the piece of the text begins with the same byte, and that is the beginning of a character.
Such a piece is decoded from its beginning on, and capitals of its bytes are capitals of its
characters, even if its end should fall inside a character.
-/

namespace QueryScope

namespace Bytes

/-- Bytes that a text begins with. -/
def Aligned (bytes : Bytes) : Prop := ∃ back, IsText (bytes ++ back)

/-- Bytes that spell a text are aligned, with nothing behind them. -/
theorem IsText.aligned {bytes : Bytes} (spells : IsText bytes) : Aligned bytes :=
  ⟨[], by rwa [List.append_nil]⟩

/-- Bytes of a text are aligned when the first one does not continue a character. -/
theorem InText.aligned {bytes : Bytes} (inText : InText bytes)
    (begins : ∀ byte ∈ bytes.head?, Byte.continuesCharacter byte = false) : Aligned bytes := by
  obtain ⟨front, back, spells⟩ := inText
  cases bytes with
  | nil => exact (isText_encoded []).aligned
  | cons byte rest =>
    obtain ⟨_, behind⟩ := spells.split begins
    exact ⟨back, behind⟩

/-- A piece of a text behind a byte of ASCII is aligned. -/
theorem InText.aligned_behind {bytes : Bytes} (inText : InText bytes) {before : Nat} {byte : UInt8}
    (shown : bytes[before]? = some byte) (ascii : byte < 0x80) (stop : Nat) :
    Aligned (bytes.extract (before + 1) stop) := by
  obtain ⟨front, back, spells⟩ := inText
  have whole : bytes = bytes.take before ++ byte :: (bytes.extract (before + 1) stop ++
      (bytes.drop (before + 1)).drop (stop - (before + 1))) := by
    rw [List.extract_eq_take_drop, List.take_append_drop]
    obtain ⟨within, isByte⟩ := List.getElem?_eq_some_iff.mp shown
    rw [← isByte, List.getElem_cons_drop, List.take_append_drop]
  rw [whole, List.append_assoc, List.cons_append, List.append_assoc, ← List.append_assoc] at spells
  exact ⟨_, (spells.split_ascii ascii).2⟩

/-- Whatever aligned bytes begin with is aligned. -/
theorem Aligned.extract_zero {bytes : Bytes} (aligned : Aligned bytes) (stop : Nat) :
    Aligned (bytes.extract 0 stop) := by
  obtain ⟨back, spells⟩ := aligned
  refine ⟨bytes.drop stop ++ back, ?_⟩
  rwa [Window.extract_zero, ← List.append_assoc, List.take_append_drop]

/-- A character that is cut short is decoded as one replacement character. -/
theorem decode_truncated {character : Char} {lead next : UInt8} {front beyond : Bytes}
    (isEncoded : String.utf8EncodeChar character = lead :: front ++ next :: beyond) :
    decode (lead :: front) = [replacement] := by
  have large (part bound low limit : Nat) (fits : low + bound ≤ 256) (positive : 0 < bound)
      (high : limit ≤ low) : ¬ UInt8.ofNat (part % bound + low) < UInt8.ofNat limit := by
    have small := Nat.mod_lt part positive
    rw [UInt8.lt_iff_toNat_lt, toNat_ofNat_of_lt (by omega), toNat_ofNat_of_lt (by omega)]
    omega
  have one {lead : UInt8} (wide : ¬ lead < 0x80) : decode [lead] = [replacement] := by
    simp only [decode, wide, if_false]
  have two {lead second : UInt8} (wide : ¬ lead < 0x80) (long : ¬ lead < 0xE0) :
      decode [lead, second] = [replacement] := by
    simp only [decode, wide, long, if_false]
  have three {lead second third : UInt8} (wide : ¬ lead < 0x80) (long : ¬ lead < 0xE0)
      (longest : ¬ lead < 0xF0) : decode [lead, second, third] = [replacement] := by
    simp only [decode, wide, long, longest, if_false]
  unfold String.utf8EncodeChar at isEncoded
  dsimp only at isEncoded
  split at isEncoded
  · simp at isEncoded
  · split at isEncoded
    · have isLead := (List.cons.inj isEncoded).1
      have wide := isLead ▸ large _ 0x20 0xC0 0x80 (by omega) (by omega) (by omega)
      rcases front with _ | ⟨second, rest⟩
      · exact one wide
      · simp at isEncoded
    · split at isEncoded
      · have isLead := (List.cons.inj isEncoded).1
        have wide := isLead ▸ large _ 0x10 0xE0 0x80 (by omega) (by omega) (by omega)
        have long := isLead ▸ large _ 0x10 0xE0 0xE0 (by omega) (by omega) (by omega)
        rcases front with _ | ⟨second, _ | ⟨third, rest⟩⟩
        · exact one wide
        · exact two wide long
        · simp at isEncoded
      · have isLead := (List.cons.inj isEncoded).1
        have wide := isLead ▸ large _ 0x08 0xF0 0x80 (by omega) (by omega) (by omega)
        have long := isLead ▸ large _ 0x08 0xF0 0xE0 (by omega) (by omega) (by omega)
        have longest := isLead ▸ large _ 0x08 0xF0 0xF0 (by omega) (by omega) (by omega)
        rcases front with _ | ⟨second, _ | ⟨third, _ | ⟨fourth, rest⟩⟩⟩
        · exact one wide
        · exact two wide long
        · exact three wide long longest
        · simp at isEncoded

/-- Capitals of aligned bytes spell capitals. -/
theorem Aligned.decode_map_upper {bytes : Bytes} (aligned : Aligned bytes) :
    decode (bytes.map Byte.upper) = (decode bytes).map Char.toUpper := by
  obtain ⟨back, text, whole⟩ := aligned
  rw [ofString] at whole
  generalize text.toList = characters at whole
  induction characters generalizing bytes with
  | nil =>
    rw [(List.append_eq_nil_iff.mp whole).1]
    rfl
  | cons character others inductionHypothesis =>
    rw [List.flatMap_cons] at whole
    rcases List.append_eq_append_iff.mp whole with ⟨reach, isEncoded, _⟩ | ⟨more, taken, rest⟩
    · cases bytes with
      | nil => rfl
      | cons lead front =>
        cases reach with
        | nil =>
          rw [List.append_nil] at isEncoded
          have single (character : Char) :
              decode (String.utf8EncodeChar character) = [character] := by
            rw [← List.append_nil (String.utf8EncodeChar character), decode_utf8EncodeChar_append]
            rfl
          rw [← isEncoded, EntryShape.map_upper_utf8, single, single]
          rfl
        | cons next beyond =>
          -- The bytes of a character cut short are all outside ASCII, so they have no other case.
          have same : (lead :: front).map Byte.upper = lead :: front := by
            rcases utf8EncodeChar_ascii_or_wide character with ⟨byte, isByte, _⟩ | wide
            · rw [isByte] at isEncoded
              simp at isEncoded
            · conv_rhs => rw [← List.map_id (lead :: front)]
              apply List.map_congr_left
              intro byte member
              apply Byte.upper_of_wide
              apply wide
              rw [isEncoded]
              exact List.mem_append_left _ member
          rw [same, decode_truncated isEncoded]
          decide
    · rw [taken, List.map_append, EntryShape.map_upper_utf8, decode_utf8EncodeChar_append,
        decode_utf8EncodeChar_append, inductionHypothesis rest.symm, List.map_cons]

/-- The text that aligned bytes spell in capitals is the text that they spell, in capitals. A byte
of a longer character has no capital, so characters stay whole. -/
theorem Aligned.text_map_upper {bytes : Bytes} (aligned : Aligned bytes) :
    Bytes.text (bytes.map Byte.upper) = Text.upper (Bytes.text bytes) := by
  rw [Bytes.text, Bytes.text, aligned.decode_map_upper, Text.upper_ofList]

end Bytes

/-! ## Pieces of a text and of its code -/

open Bytes EntryShape

/-- The text of some code: it stands in a text, and the code has its byte or a space at every
place. -/
structure Veiled (code text : Bytes) : Prop where
  veils : List.Forall₂ (fun shown byte => shown = byte ∨ shown = Byte.space) code text
  inText : InText text

namespace Veiled

/-- The code view has the byte of the query or a space at every place. -/
theorem veils_codeView (query : Bytes) :
    List.Forall₂ (fun shown byte => shown = byte ∨ shown = Byte.space) (codeView query) query :=
  CodeView.veils_viewFrom .code query

variable {code text : Bytes}

/-- A piece of veiled code is veiled, over the same piece of the text. -/
theorem extract (veiled : Veiled code text) (start stop : Nat) :
    Veiled (code.extract start stop) (text.extract start stop) where
  veils := by
    rw [List.extract_eq_take_drop, List.extract_eq_take_drop]
    exact List.forall₂_take _ (List.forall₂_drop start veiled.veils)
  inText := veiled.inText.extract start stop

/-- Where the code begins with a character that is no blank, the text is aligned. -/
theorem aligned (veiled : Veiled code text) (solid : ∀ byte ∈ code.head?, Byte.isBlank byte = false)
    (begins : ∀ byte ∈ code.head?, Byte.continuesCharacter byte = false) : Aligned text := by
  obtain ⟨veils, inText⟩ := veiled
  cases veils with
  | nil => exact (isText_encoded []).aligned
  | cons first rest =>
    have notSpace := solid _ rfl
    rcases first with rfl | rfl
    · exact inText.aligned begins
    · cases notSpace

/-- A byte of the code that is no blank is the byte of the text at its place. -/
theorem getElem?_eq (veiled : Veiled code text) {offset : Nat} {byte : UInt8}
    (shown : code[offset]? = some byte) (solid : Byte.isBlank byte = false) :
    text[offset]? = some byte := by
  have veils := veiled.veils
  clear veiled
  induction veils generalizing offset with
  | nil => cases shown
  | cons first _ inductionHypothesis =>
    cases offset with
    | zero =>
      cases shown
      rcases first with rfl | rfl
      · rfl
      · cases solid
    | succ offset =>
      rw [List.getElem?_cons_succ] at shown ⊢
      exact inductionHypothesis shown

/-- Behind a byte of ASCII that is no blank, the text is aligned. -/
theorem aligned_behind (veiled : Veiled code text) {before : Nat} {byte : UInt8}
    (shown : code[before]? = some byte) (ascii : byte < 0x80) (solid : Byte.isBlank byte = false)
    (stop : Nat) : Aligned (text.extract (before + 1) stop) := by
  exact veiled.inText.aligned_behind (veiled.getElem?_eq shown solid) ascii stop

end Veiled

/-! ## Where names stand -/

/-- A span that begins and ends with characters that are no blanks; the characters stand at
`base`. -/
def Placed (base : Nat) (characters : List Char) (span : Span) : Prop :=
  ∃ front middle back, characters = front ++ (middle ++ back) ∧
    span = ⟨base + width front, base + width (front ++ middle)⟩ ∧ SolidEnds Text.isBlank middle

namespace Placed

variable {base : Nat} {characters rest : List Char} {span : Span}

/-- A span of the characters behind others. -/
theorem behind {used : List Char} (placed : Placed (base + width used) rest span) :
    Placed base (used ++ rest) span := by
  obtain ⟨front, middle, back, rfl, rfl, solid⟩ := placed
  refine ⟨used ++ front, middle, back, by simp only [List.append_assoc], ?_, solid⟩
  simp only [width_append, Nat.add_assoc]

/-- A span of the characters before others. -/
theorem before (placed : Placed base characters span) (rest : List Char) :
    Placed base (characters ++ rest) span := by
  obtain ⟨front, middle, back, rfl, place, solid⟩ := placed
  exact ⟨front, middle, back ++ rest, by simp only [List.append_assoc], place, solid⟩

/-- All of the characters. -/
theorem whole (base : Nat) (solid : SolidEnds Text.isBlank characters) :
    Placed base characters ⟨base, base + width characters⟩ :=
  ⟨[], characters, [], by rw [List.append_nil]; rfl, rfl, solid⟩

/-- The characters up to the end of a span, when they do not begin with a blank. -/
theorem upTo {first : Char} {others : List Char} (solid : Text.isBlank first = false)
    (placed : Placed base (first :: others) span) : Placed base (first :: others) ⟨base, span.stop⟩ := by
  obtain ⟨front, middle, back, split, rfl, solidMiddle⟩ := placed
  rw [← List.append_assoc] at split
  refine ⟨[], front ++ middle, back, split, rfl, ?_⟩
  obtain ⟨before, last, rfl, lastSolid⟩ := solidMiddle.last
  refine ⟨?_, front ++ before, last, by rw [List.append_assoc], lastSolid⟩
  cases start : front ++ (before ++ [last]) with
  | nil => simp at start
  | cons head tail =>
    rw [start, List.cons_append] at split
    exact ⟨head, tail, rfl, (List.cons.inj split).1 ▸ solid⟩

/-- A piece of the text that begins where a name of the code begins is aligned. -/
theorem aligned {text : Bytes} (veiled : Veiled (encoded characters) text)
    (placed : Placed 0 characters span) (stop : Nat) : Aligned (text.extract span.start stop) := by
  obtain ⟨front, middle, back, rfl, place, solidMiddle⟩ := placed
  obtain ⟨character, behind, rfl, solid⟩ := solidMiddle.first
  rw [place, Nat.zero_add]
  have isHead : ∀ byte ∈ ((encoded (front ++ (character :: behind ++ back))).extract
      (width front) stop).head?, byte ∈ (String.utf8EncodeChar character).head? := by
    intro byte isFirst
    rw [List.extract_eq_take_drop, ← length_encoded, encoded_append, List.cons_append, encoded_cons,
      List.drop_left] at isFirst
    rw [List.head?_take, List.head?_append_of_ne_nil _ String.utf8EncodeChar_ne_nil] at isFirst
    split at isFirst
    · cases isFirst
    · exact isFirst
  apply (veiled.extract (width front) stop).aligned
  · intro byte isFirst
    exact Written.not_isBlank_of_mem_utf8EncodeChar solid (List.mem_of_mem_head? (isHead byte isFirst))
  · intro byte isFirst
    exact not_continues_head_utf8EncodeChar character byte (isHead byte isFirst)

end Placed

/-- An identifier is what the characters begin with, and it has no blank at its ends. -/
theorem Identifier.append_of_read? {letters : Letters} {characters name rest : List Char}
    (reading : read? letters characters = some (name, rest)) :
    characters = name ++ rest ∧ SolidEnds Text.isBlank name := by
  cases characters with
  | nil => cases reading
  | cons first others =>
    simp only [read?] at reading
    split at reading
    · rename_i quoted
      obtain rfl := beq_iff_eq.mp quoted
      split at reading
      · cases reading
      · rename_i quote after remains
        cases reading
        have isQuote : quote = '"' := by
          have found := List.head?_dropWhile_not (fun character : Char => character != '"') others
          rw [remains] at found
          simpa using found
        constructor
        · rw [List.append_assoc, List.singleton_append, ← remains, List.cons_append,
            List.takeWhile_append_dropWhile]
        · rw [isQuote]
          exact Written.solidEnds_quoted _
    · split at reading
      · rename_i starts
        cases reading
        constructor
        · rw [List.cons_append, List.takeWhile_append_dropWhile]
        · have continues : continuesName letters first = true := by
            rw [continuesName, starts]
            rfl
          apply SolidEnds.of_solid (List.cons_ne_nil _ _)
          intro character member
          rcases List.mem_cons.mp member with rfl | further
          · exact BareName.not_isBlank_of_continuesName continues
          · exact BareName.not_isBlank_of_continuesName (List.mem_takeWhile_imp further)
      · cases reading

/-- Where the identifiers of a path stand. The first one begins the characters, and the last one ends
before the rest. -/
structure PlacedPath (base : Nat) (characters : List Char) (path : List Fragment)
    (rest : List Char) : Prop where
  placed : ∀ fragment ∈ path, Placed base characters fragment.span
  first : path ≠ [] → ∃ first others, characters = first :: others ∧ Text.isBlank first = false
  begins : ∀ fragment ∈ path.head?, fragment.offset = base
  last : ∃ used, characters = used ++ rest ∧
    ∀ fragment ∈ path.getLast?, fragment.stop = base + width used

/-- A path of one identifier. -/
theorem PlacedPath.single {letters : Letters} (base : Nat) {characters name rest : List Char}
    (reading : Identifier.read? letters characters = some (name, rest)) :
    PlacedPath base characters [⟨base, name⟩] rest := by
  obtain ⟨rfl, solid⟩ := Identifier.append_of_read? reading
  obtain ⟨first, others, isName, firstSolid⟩ := solid.first
  refine ⟨?_, fun _ => ⟨first, others ++ rest, by rw [isName]; rfl, firstSolid⟩, ?_, name, rfl, ?_⟩
  · intro fragment member
    rw [List.mem_singleton.mp member]
    exact (Placed.whole base solid).before rest
  · rintro fragment ⟨⟩
    rfl
  · rintro fragment ⟨⟩
    rfl

/-- The reader of paths reports where the identifiers stand. -/
theorem placedPath_readPath (letters : Letters) (base : Nat) (characters : List Char) :
    PlacedPath base characters (Identifier.readPath letters base characters).1
      (Identifier.readPath letters base characters).2 := by
  fun_induction Identifier.readPath letters base characters with
  | case1 base characters =>
    refine ⟨?_, fun something => absurd rfl something, ?_, [], rfl, ?_⟩
    · rintro fragment ⟨⟩
    · rintro fragment ⟨⟩
    · rintro fragment ⟨⟩
  | case2 base characters name rest reading => exact .single base reading
  | case3 base characters name rest reading => exact .single base reading
  | case4 base characters name rest reading ahead dotted skippedWidth next others after further
      inductionHypothesis =>
    have alone := PlacedPath.single base reading
    obtain ⟨rfl, _⟩ := Identifier.append_of_read? reading
    obtain ⟨gap, rfl, _⟩ := exists_gap_of_afterDot? dotted
    have skipped : skippedWidth = width (name ++ gap) := by
      simp only [skippedWidth]
      rw [← List.append_assoc, width_append (name ++ gap), Nat.add_sub_cancel]
    rw [further, skipped] at inductionHypothesis
    obtain ⟨placed, _, _, used, rfl, last⟩ := inductionHypothesis
    refine ⟨?_, fun _ => alone.first (List.cons_ne_nil _ _), ?_, (name ++ gap) ++ used,
      by simp only [List.append_assoc], ?_⟩
    · intro fragment member
      rcases List.mem_cons.mp member with rfl | later
      · exact alone.placed _ List.mem_cons_self
      · rw [← List.append_assoc]
        exact (placed fragment later).behind
    · rintro fragment ⟨⟩
      rfl
    · intro fragment isLast
      rw [List.getLast?_cons_cons] at isLast
      rw [last fragment isLast, width_append (name ++ gap), Nat.add_assoc]

/-- A character that is a letter or a sign in any case is no blank. -/
theorem not_isBlank_of_foldsTo {expected character : Char} (solid : Text.isBlank expected = false)
    (folds : Letters.foldsTo expected character = true) : Text.isBlank character = false := by
  simp only [Letters.foldsTo, Bool.or_eq_true, Bool.and_eq_true, beq_iff_eq] at folds
  rcases folds with (same | ⟨_, rfl⟩) | ⟨_, rfl⟩
  · rwa [← Text.isBlank_toUpper, same]
  · decide
  · decide

/-- A placeholder has no blanks. -/
theorem solidEnds_of_placeholder {characters placeholder after : List Char}
    (reading : Placeholder.read? characters = some (placeholder, after)) :
    SolidEnds Text.isBlank placeholder := by
  obtain ⟨sameLength, spelled⟩ := foldsTo_of_read? reading
  have expectedSolid : Placeholder.text.toList.all (!Text.isBlank ·) = true := by decide
  apply SolidEnds.of_solid
  · intro nothing
    rw [nothing] at sameLength
    exact absurd sameLength (by decide)
  · intro character member
    obtain ⟨expected, listed, folds⟩ := spelled character member
    have solid := List.all_eq_true.mp expectedSolid expected listed
    rw [Bool.not_eq_true'] at solid
    exact not_isBlank_of_foldsTo solid folds

/-- An alias is an identifier among the characters. -/
theorem placed_of_readAlias? {base : Nat} {characters : List Char} {fragment : Fragment}
    (reading : FromEntry.readAlias? base characters = some fragment) :
    Placed base characters fragment.span := by
  obtain ⟨used, rest, after, rfl, _, _, isName, place⟩ :=
    BareName.exists_read_of_readAlias? reading
  obtain ⟨rfl, solid⟩ := Identifier.append_of_read? isName
  rw [Fragment.span, Fragment.stop, place]
  exact ((Placed.whole (base + width used) solid).before after).behind

/-- The parts of an entry begin and end with characters that are no blanks. -/
structure PlacedShape (characters : List Char) (shape : FromEntry.Shape) : Prop where
  name : Placed 0 characters shape.name.span
  aliasName : ∀ fragment ∈ shape.aliasName, Placed 0 characters fragment.span
  qualifier : ∀ span ∈ shape.qualifier, Placed 0 characters span

/-- The span that a path covers begins with the first identifier and ends with the last one. -/
theorem placed_of_cover {base : Nat} {characters rest : List Char} {path shorter : List Fragment}
    (isPath : PlacedPath base characters path rest) (begins : shorter <+: path) :
    ∀ span ∈ FromEntry.cover shorter, Placed base characters span := by
  intro span covered
  rw [FromEntry.cover] at covered
  split at covered
  · rename_i first last isFirst isLast
    cases covered
    obtain ⟨behind, rfl⟩ := begins
    have isHead : (shorter ++ behind).head? = some first := by
      rw [List.head?_append, isFirst, Option.some_or]
    obtain ⟨character, others, rfl, solid⟩ := isPath.first (by rintro nothing; simp [nothing] at isHead)
    rw [isPath.begins first isHead]
    exact (isPath.placed last (List.mem_append_left _ (List.mem_of_getLast? isLast))).upTo solid
  · cases covered

/-- The reader of entries reports where the parts stand. -/
theorem placedShape_of_read? {characters : List Char} {shape : FromEntry.Shape}
    (shaped : FromEntry.Shape.read? characters = some shape) : PlacedShape characters shape := by
  have isPath := placedPath_readPath .folded 0 characters
  have cases := shape_cases shaped
  generalize (Identifier.readPath .folded 0 characters).1 = path at cases isPath
  generalize (Identifier.readPath .folded 0 characters).2 = rest at cases isPath
  obtain ⟨placed, _, _, used, rfl, last⟩ := id isPath
  have aliasBehind {front after : List Char} (split : used ++ rest = front ++ after)
      (stops : shape.name.stop = width front)
      (isAlias : shape.aliasName = FromEntry.readAlias? shape.name.stop after) :
      ∀ fragment ∈ shape.aliasName, Placed 0 (used ++ rest) fragment.span := by
    intro fragment reading
    rw [isAlias, stops] at reading
    rw [split]
    apply Placed.behind
    rw [Nat.zero_add]
    exact placed_of_readAlias? reading
  rcases cases with
    ⟨gap, ahead, placeholder, after, rfl, _, reading, isQualifier, isName, isAlias⟩ |
      ⟨isLast, isQualifier, isAlias⟩
  · have place : width (used ++ (gap ++ ahead)) - width ahead = width (used ++ gap) := by
      rw [← List.append_assoc, width_append _ ahead, Nat.add_sub_cancel]
    rw [place] at isName
    have split : used ++ (gap ++ ahead) = (used ++ gap) ++ (placeholder ++ after) := by
      rw [append_of_read? reading]
      simp only [List.append_assoc]
    constructor
    · rw [isName, split]
      apply Placed.behind
      rw [Nat.zero_add]
      exact (Placed.whole _ (solidEnds_of_placeholder reading)).before after
    · apply aliasBehind (split.trans (List.append_assoc _ placeholder after).symm) _ isAlias
      rw [isName, Fragment.stop, width_append _ placeholder]
    · rw [isQualifier]
      exact placed_of_cover isPath (List.prefix_refl path)
  · constructor
    · exact placed _ (List.mem_of_getLast? isLast)
    · apply aliasBehind rfl _ isAlias
      rw [last _ isLast, Nat.zero_add]
    · rw [isQualifier]
      exact placed_of_cover isPath (List.dropLast_prefix path)

/-- The name under which an item's column is visible ends the item, and it has no blank at its
ends. -/
theorem placed_of_visibleName? {characters name : List Char}
    (visible : SelectItem.visibleName? characters = some name) :
    Placed 0 characters ⟨width characters - width name, width characters⟩ := by
  have wholeName {letters : Letters} (front : List Char) {name : List Char}
      (whole : Identifier.isWhole letters name = true) :
      Placed 0 (front ++ name) ⟨width (front ++ name) - width name, width (front ++ name)⟩ := by
    simp only [Identifier.isWhole] at whole
    split at whole
    · rename_i found reading
      obtain ⟨rfl, solid⟩ := Identifier.append_of_read? reading
      rw [List.append_nil, width_append, Nat.add_sub_cancel]
      apply Placed.behind
      rw [Nat.zero_add]
      exact Placed.whole _ solid
    · cases whole
  rw [SelectItem.visibleName?] at visible
  split at visible
  · cases visible
  · split at visible
    · rename_i trailing accepted
      cases visible
      obtain ⟨front, rfl, whole⟩ := SelectItem.exists_append_of_acceptedAlias? accepted
      exact wholeName front whole
    · have isPath := placedPath_readPath .plain 0 characters
      rw [SelectItem.lastName?] at visible
      split at visible
      · rename_i first next others path
        rw [path] at isPath
        obtain ⟨fragment, isLast, rfl⟩ := Option.map_eq_some_iff.mp visible
        rw [← List.getLast?_cons_cons] at isLast
        have placed := isPath.placed fragment (List.mem_of_getLast? isLast)
        obtain ⟨used, rfl, last⟩ := isPath.last
        have stops := last fragment isLast
        rw [Fragment.span, stops, Nat.zero_add] at placed
        rw [Fragment.stop, Nat.zero_add] at stops
        rw [List.append_nil] at placed ⊢
        rwa [← stops, Nat.add_sub_cancel, stops]
      · split at visible
        · rename_i accepted
          cases visible
          rw [Bool.and_eq_true] at accepted
          exact wholeName [] accepted.1
        · cases visible

/-! ## Where clauses begin -/

/-- A span of the code that begins between two characters, and not with a blank. -/
structure Framed (code : Bytes) (span : Span) : Prop where
  start : CutAt code span.start
  solid : ∀ byte ∈ (code.extract span.start span.stop).head?, Byte.isBlank byte = false

section

variable {code : Bytes}

/-- What a framed span holds of the text is aligned. Its first byte is not blank, so the text has
the same byte there, and that byte begins a character. -/
theorem Framed.aligned {text : Bytes} (veiled : Veiled code text) {span : Span}
    (framed : Framed code span) : Aligned (text.extract span.start span.stop) := by
  apply (veiled.extract span.start span.stop).aligned framed.solid
  intro byte isFirst
  rw [List.extract_eq_take_drop, List.head?_take] at isFirst
  split at isFirst
  · cases isFirst
  · exact framed.start.back.not_continues_head byte isFirst

/-- The span of an absent clause is framed: it begins with the code and holds nothing. -/
theorem Framed.absent (spells : IsText code) : Framed code .absent := by
  refine ⟨.zero spells, ?_⟩
  rintro byte ⟨⟩

/-- Every keyword that ends a clause ends with a byte of ASCII, so what is behind it begins with a
character. -/
theorem endsAscii_of_mem_terminators (clause : Clause) :
    ∀ keyword ∈ clause.terminators.map (·.keyword), keyword.endsAscii = true := by
  rw [← List.all_eq_true]
  cases clause <;> decide

/-- What a keyword opens begins between two characters. -/
theorem cutAt_of_ofHit? (spells : IsText code) {terminators : List Clause.Terminator}
    (plain : ∀ keyword ∈ terminators.map (·.keyword), keyword.endsAscii = true) {start : Nat} :
    ∀ opening ∈ (Clause.find? code start terminators).bind (Clause.Opening.ofHit? terminators),
      CutAt code opening.offset := by
  intro opening opened
  obtain ⟨hit, found, isOffset⟩ := Clause.Opening.exists_hit opened
  rw [isOffset]
  exact Keyword.cutAt_behind spells plain found

/-- A clause, and what the keyword behind it opens, when the clause begins between two characters. -/
theorem framed_read (spells : IsText code) (clause : Clause) {offset : Nat}
    (begins : CutAt code offset) :
    Framed code (clause.read code offset).value.1 ∧
      ∀ opening ∈ (clause.read code offset).value.2, CutAt code opening.offset := by
  have untrimmed := SelectList.cutOut_untrimmed spells clause begins
  constructor
  · exact ⟨(untrimmed.trim spells).start,
      (trimmed_trim untrimmed.inOrder untrimmed.stop.within).solid⟩
  · exact cutAt_of_ofHit? spells (endsAscii_of_mem_terminators clause)

/-- What is true of an absent clause and of every clause that begins at an offset of some kind is
true of the clauses of a block, when such an offset follows `SELECT` and every keyword that opens a
clause. -/
theorem Clauses.forall_ofCode {begins : Nat → Prop} {fits : Span → Prop} (absent : fits Span.absent)
    (behindSelect : ∀ offset, Clauses.selectListOffset? code = some offset → begins offset)
    (leading : ∀ opening ∈
      (Clause.find? code 0 [Clause.fromTerminator, Clause.whereTerminator]).bind
        (Clause.Opening.ofHit? [Clause.fromTerminator, Clause.whereTerminator]),
      begins opening.offset)
    (read : ∀ (clause : Clause) {offset : Nat}, begins offset →
      fits (clause.read code offset).value.1 ∧
        ∀ opening ∈ (clause.read code offset).value.2, begins opening.offset) :
    fits (Clauses.ofCode code).value.selectList ∧ fits (Clauses.ofCode code).value.fromClause ∧
      fits (Clauses.ofCode code).value.whereClause := by
  have first : fits (Clauses.first code).1 ∧
      ∀ opening ∈ (Clauses.first code).2, begins opening.offset := by
    simp only [Clauses.first]
    split
    · rename_i offset found
      exact read .selectList (behindSelect offset found)
    · exact ⟨absent, leading⟩
  have readIf (clause : Clause) {opened : Option Clause.Opening}
      (opens : ∀ opening ∈ opened, begins opening.offset) :
      fits (clause.readIf code opened).1 ∧
        ∀ opening ∈ (clause.readIf code opened).2, begins opening.offset := by
    cases opened with
    | none => exact ⟨absent, opens⟩
    | some opening =>
      simp only [Clause.readIf]
      split
      · exact read clause (opens opening rfl)
      · exact ⟨absent, opens⟩
  obtain ⟨selectList, afterSelect⟩ := first
  obtain ⟨fromClause, afterFrom⟩ := readIf .fromClause afterSelect
  rw [Clauses.value_ofCode]
  exact ⟨selectList, fromClause, (readIf .whereClause afterFrom).1⟩

/-- Every clause of a block begins between two characters, and not with a blank. -/
theorem framed_ofCode (spells : IsText code) :
    Framed code (Clauses.ofCode code).value.selectList ∧
      Framed code (Clauses.ofCode code).value.fromClause ∧
      Framed code (Clauses.ofCode code).value.whereClause := by
  refine Clauses.forall_ofCode (.absent spells)
    (fun _ => SelectList.cutAt_of_selectListOffset? spells) (cutAt_of_ofHit? spells ?_)
    (framed_read spells)
  rw [← List.all_eq_true]
  decide

end

end QueryScope
