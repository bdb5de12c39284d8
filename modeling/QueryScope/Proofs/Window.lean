import Mathlib.Data.List.TakeWhile
import QueryScope.Scope.Subquery
import QueryScope.Proofs.Utf8
import QueryScope.Proofs.Scanning
import QueryScope.Proofs.Parentheses

/-!
# Reading inside a window

Between two parentheses of a code lies a window. What is read there, from an offset inside it, is
what would be read at the same place of the window's code alone: blanks and words end at the
closing parenthesis as they end at the end of a text, and an alias may end at either. So trimming,
reading a word and reading an alias commute with moving the window to its place.
-/

namespace QueryScope

/-- The word moved to the right by `distance`. -/
def Word.shift (word : Word) (distance : Nat) : Word :=
  { word with span := word.span.shift distance }

/-- Where a word ends that was moved. -/
theorem Word.stop_shift (word : Word) (distance : Nat) :
    (word.shift distance).span.stop = distance + word.span.stop :=
  Nat.add_comm _ _

/-- A word that was moved is spelled as before. -/
@[simp] theorem Word.spelling_shift (word : Word) (distance : Nat) :
    (word.shift distance).spelling = word.spelling := rfl

/-- A word that was moved is the same word. -/
@[simp] theorem Word.is_shift (word : Word) (distance : Nat) :
    (word.shift distance).is = word.is := rfl

/-- The subquery moved to the right by `distance`. -/
def Subquery.shift (subquery : Subquery) (distance : Nat) : Subquery where
  span := subquery.span.shift distance
  content := subquery.content.shift distance
  aliasName := subquery.aliasName

namespace Bytes

/-- Behind the blanks at the front comes what is left when they are skipped. -/
theorem drop_leading (piece : Bytes) :
    piece.drop (leading piece) = piece.dropWhile Byte.isBlank :=
  drop_run Byte.isBlank piece

/-- The blanks at the front and those at the end do not overlap. -/
theorem leading_add_trailing_le (piece : Bytes) :
    leading piece + trailing piece ≤ piece.length := by
  have front : leading piece ≤ piece.length := (List.takeWhile_prefix Byte.isBlank).length_le
  have back : trailing piece ≤ (piece.drop (leading piece)).reverse.length :=
    (List.takeWhile_prefix Byte.isBlank).length_le
  rw [List.length_reverse, List.length_drop] at back
  omega

end Bytes

namespace Window

/-- A run that a byte ends does not depend on what follows the byte. -/
theorem takeWhile_append_stop {keep : UInt8 → Bool} {stop : UInt8} (ends : keep stop = false)
    (bytes behind : Bytes) : (bytes ++ stop :: behind).takeWhile keep = bytes.takeWhile keep := by
  induction bytes with
  | nil => simp [ends]
  | cons byte rest inductionHypothesis =>
    simp only [List.cons_append, List.takeWhile_cons, inductionHypothesis]

/-- What is left behind a run that a byte ends still has the byte and all that follows it. -/
theorem dropWhile_append_stop {skip : UInt8 → Bool} {stop : UInt8} (ends : skip stop = false)
    (bytes behind : Bytes) :
    (bytes ++ stop :: behind).dropWhile skip = bytes.dropWhile skip ++ stop :: behind := by
  induction bytes with
  | nil => simp [ends]
  | cons byte rest inductionHypothesis =>
    simp only [List.cons_append, List.dropWhile_cons, inductionHypothesis]
    split <;> rfl

/-- The closing parenthesis is no blank. -/
theorem closeParen_not_blank : Byte.isBlank Byte.closeParen = false := by decide

/-- The closing parenthesis belongs to no word. -/
theorem closeParen_not_word : Byte.isWordByte Byte.closeParen = false := by decide

/-- What follows an offset of the middle piece. -/
theorem drop_window (front inside back : Bytes) {offset : Nat} (within : offset ≤ inside.length) :
    (front ++ (inside ++ back)).drop (front.length + offset) = inside.drop offset ++ back := by
  rw [List.drop_append, List.drop_of_length_le (by omega), List.nil_append,
    Nat.add_sub_cancel_left, List.drop_append_of_le_length within]

/-- The byte at which the bytes ahead begin. -/
theorem of_drop_eq_cons {bytes rest : Bytes} {offset : Nat} {byte : UInt8}
    (here : bytes.drop offset = byte :: rest) :
    bytes[offset]? = some byte ∧ bytes.drop (offset + 1) = rest := by
  constructor
  · rw [← Nat.add_zero offset, ← List.getElem?_drop, here, List.getElem?_cons_zero]
  · rw [← List.drop_drop, here, List.drop_succ_cons, List.drop_zero]

/-- A byte of what comes before an offset is a byte of the whole. -/
theorem getElem?_of_take {bytes : Bytes} {stop offset : Nat} {byte : UInt8}
    (shown : (bytes.take stop)[offset]? = some byte) : bytes[offset]? = some byte := by
  rw [List.getElem?_take] at shown
  exact (Option.ite_none_right_eq_some.mp shown).2

/-- Two pieces next to each other. -/
theorem extract_append_extract (bytes : Bytes) {start middle stop : Nat} (first : start ≤ middle)
    (second : middle ≤ stop) :
    bytes.extract start middle ++ bytes.extract middle stop = bytes.extract start stop := by
  have lengths : stop - start = (middle - start) + (stop - middle) := by omega
  have behind : start + (middle - start) = middle := by omega
  simp only [List.extract_eq_take_drop]
  rw [lengths, List.take_add, List.drop_drop, behind]

/-- A piece of the middle piece. -/
theorem extract_window (front inside back : Bytes) (start : Nat) {stop : Nat}
    (within : stop ≤ inside.length) :
    (front ++ (inside ++ back)).extract (front.length + start) (front.length + stop) =
      inside.extract start stop := by
  simp only [List.extract_eq_take_drop, Nat.add_sub_add_left]
  by_cases inOrder : start ≤ stop
  · rw [drop_window front inside back (by omega),
      List.take_append_of_le_length (by rw [List.length_drop]; omega)]
  · rw [Nat.sub_eq_zero_of_le (by omega), List.take_zero, List.take_zero]

/-- A piece is known where the bytes around it are. -/
theorem extract_eq_of_append {bytes front inside back : Bytes} {start stop : Nat}
    (whole : bytes = front ++ (inside ++ back)) (starts : start = front.length)
    (stops : stop = start + inside.length) : bytes.extract start stop = inside := by
  subst whole starts stops
  rw [List.extract_eq_take_drop, List.drop_left, Nat.add_sub_cancel_left, List.take_left]

/-- How long a piece is. -/
theorem length_extract (bytes : Bytes) (start : Nat) {stop : Nat} (within : stop ≤ bytes.length) :
    (bytes.extract start stop).length = stop - start := by
  rw [List.extract_eq_take_drop, List.length_take, List.length_drop]
  omega

/-- A byte between two offsets is part of what stands between them. -/
theorem mem_extract {bytes : Bytes} {start offset stop : Nat} {byte : UInt8}
    (shown : bytes[offset]? = some byte) (behind : start ≤ offset) (before : offset < stop) :
    byte ∈ bytes.extract start stop := by
  apply List.mem_of_getElem? (i := offset - start)
  rw [List.extract_eq_take_drop, List.getElem?_take_of_lt (by omega), List.getElem?_drop,
    Nat.add_sub_cancel' behind, shown]

/-- A piece at the beginning. -/
theorem extract_zero (bytes : Bytes) (stop : Nat) : bytes.extract 0 stop = bytes.take stop := by
  rw [List.extract_eq_take_drop, List.drop_zero, Nat.sub_zero]

/-- Bytes up to an offset are those up to an earlier one and what stands between. -/
theorem take_append_extract (bytes : Bytes) {start stop : Nat} (inOrder : start ≤ stop) :
    bytes.take start ++ bytes.extract start stop = bytes.take stop := by
  rw [← extract_zero, ← extract_zero,
    extract_append_extract bytes (Nat.zero_le start) inOrder]

/-- A piece with what comes behind it. -/
theorem extract_append_drop (bytes : Bytes) {start stop : Nat} (inOrder : start ≤ stop) :
    bytes.extract start stop ++ bytes.drop stop = bytes.drop start := by
  rw [List.extract_eq_take_drop]
  conv_rhs => rw [← List.take_append_drop (stop - start) (bytes.drop start), List.drop_drop,
    Nat.add_sub_cancel' inOrder]

/-- A piece with what is on either side of it. -/
theorem take_extract_drop (bytes : Bytes) {start stop : Nat} (inOrder : start ≤ stop) :
    bytes.take start ++ (bytes.extract start stop ++ bytes.drop stop) = bytes := by
  rw [extract_append_drop bytes inOrder, List.take_append_drop]

/-- Trimming inside a window. -/
theorem trim_window (front inside back : Bytes) (span : Span) (within : span.stop ≤ inside.length) :
    (Bytes.trim (front ++ (inside ++ back)) (span.shift front.length)).value =
      (Bytes.trim inside span).value.shift front.length := by
  have piece : (front ++ (inside ++ back)).extract (span.start + front.length)
      (span.stop + front.length) = inside.extract span.start span.stop := by
    rw [Nat.add_comm span.start, Nat.add_comm span.stop]
    exact extract_window front inside back span.start within
  have trimmed := Bytes.leading_add_trailing_le (inside.extract span.start span.stop)
  have pieceLength : (inside.extract span.start span.stop).length ≤ span.stop := by
    simp only [List.extract_eq_take_drop, List.length_take]
    omega
  have wide : (span.shift front.length).stop ≤ (front ++ (inside ++ back)).length := by
    simp only [Span.shift, List.length_append]
    omega
  rw [Bytes.value_trim wide, Bytes.value_trim within]
  simp only [Span.shift, piece, Span.mk.injEq]
  omega

end Window

namespace Word

/-- How a word is met: behind blanks comes a run of word bytes, as long as it can be, the first of
which begins a word. -/
theorem split_of_next?_eq_some {code : Bytes} {offset : Nat} {word : Word}
    (met : next? code offset = some word) :
    ∃ blanks behind, code.drop offset = blanks ++ (word.spelling ++ behind) ∧
      (∀ byte ∈ blanks, Byte.isBlank byte = true) ∧
      (∀ byte ∈ word.spelling, Byte.isWordByte byte = true) ∧
      (∃ first others, word.spelling = first :: others ∧ Byte.startsWord first = true) ∧
      (∀ byte ∈ behind.head?, Byte.isWordByte byte = false) ∧
      word.span = ⟨offset + blanks.length, offset + blanks.length + word.spelling.length⟩ := by
  rw [next?_eq_ahead?] at met
  simp only [ahead?] at met
  split at met
  · cases met
  · rename_i first others spelled
    split at met
    · rename_i starts
      cases met
      refine ⟨(code.drop offset).takeWhile Byte.isBlank,
        ((code.drop offset).dropWhile Byte.isBlank).dropWhile Byte.isWordByte, ?_, ?_, ?_,
        ⟨first, others, rfl, starts⟩, ?_, rfl⟩
      · rw [← spelled, List.takeWhile_append_dropWhile, List.takeWhile_append_dropWhile]
      · intro byte member
        exact List.mem_takeWhile_imp member
      · intro byte member
        rw [← spelled] at member
        exact List.mem_takeWhile_imp member
      · intro byte member
        have stopped := List.head?_dropWhile_not Byte.isWordByte
          ((code.drop offset).dropWhile Byte.isBlank)
        rw [Option.mem_def.mp member] at stopped
        exact stopped
    · cases met

/-- What comes behind a word. -/
theorem drop_stop {code blanks behind : Bytes} {offset : Nat} {word : Word}
    (ahead : code.drop offset = blanks ++ (word.spelling ++ behind))
    (place : word.span =
      ⟨offset + blanks.length, offset + blanks.length + word.spelling.length⟩) :
    code.drop word.span.stop = behind := by
  have stop : word.span.stop = offset + (blanks ++ word.spelling).length := by
    rw [place, List.length_append, ← Nat.add_assoc]
  rw [stop, ← List.drop_drop, ahead, ← List.append_assoc, List.drop_left]

/-- A word ends inside the code. -/
theorem stop_le_of_next? {code : Bytes} {offset : Nat} {word : Word}
    (met : next? code offset = some word) : word.span.stop ≤ code.length := by
  obtain ⟨blanks, behind, ahead, _, _, ⟨first, others, spelled, _⟩, _, place⟩ :=
    split_of_next?_eq_some met
  have lengths := congrArg List.length ahead
  simp only [List.length_drop, List.length_append, spelled, List.length_cons] at lengths
  simp only [place, spelled, List.length_cons]
  omega

end Word

namespace Subquery

/-- What is cut out of the code for an alias to end in front of is all that is ahead. -/
theorem value_cut_length (code : Bytes) (offset : Nat) :
    (Bytes.cut code ⟨offset, code.length⟩).value = code.drop offset := by
  rw [Bytes.cut, List.extract_eq_take_drop, List.take_of_length_le (by rw [List.length_drop])]

/-- An alias may end where nothing but blanks is left. -/
theorem aliasMayEnd_of_nil {code : Bytes} {offset : Nat}
    (nothing : Text.dropLeadingBlanks (Bytes.decode (code.drop offset)) = []) :
    aliasMayEnd code offset = true := by
  rw [aliasMayEnd, checkAliasEnd, Checked.value_bind, value_cut_length, nothing]
  rfl

/-- Where something is left, an alias may end in front of a mark or of one of the words that follow
an alias. -/
theorem aliasMayEnd_of_cons {code : Bytes} {offset : Nat} {next : Char} {others : List Char}
    (something : Text.dropLeadingBlanks (Bytes.decode (code.drop offset)) = next :: others) :
    aliasMayEnd code offset = (next == ',' || next == ')' || next == ';' ||
      (Word.next? code offset).any fun word => aliasFollowers.any word.is) := by
  rw [aliasMayEnd, checkAliasEnd, Checked.value_bind, value_cut_length, something]
  simp only
  split
  · rename_i mark
    rw [mark]
    rfl
  · rename_i noMark
    rw [Bool.not_eq_true] at noMark
    rw [noMark]
    rfl

/-- An alias is a word, the one behind `AS` if that comes first, which is not reserved and behind
which an alias may end. -/
theorem aliasAt?_eq (code : Bytes) (offset : Nat) :
    aliasAt? code offset = (Word.next? code offset).bind fun first =>
      (if first.is "AS" then Word.next? code first.span.stop else some first).bind fun word =>
        if !Word.isReserved (Bytes.text word.spelling) && aliasMayEnd code word.span.stop then
          some (Bytes.text word.spelling)
        else none := by
  rw [aliasAt?, readAlias, Checked.value_bind, Word.value_scan]
  cases Word.next? code offset with
  | none => rfl
  | some first =>
    have second : (if first.is "AS" then Word.scan code first.span.stop
        else pure (some first)).value =
          if first.is "AS" then Word.next? code first.span.stop else some first := by
      split
      · rfl
      · rfl
    simp only [Checked.value_bind, Option.bind_some, second]
    cases (if first.is "AS" then Word.next? code first.span.stop else some first) with
    | none => rfl
    | some word =>
      simp only [Option.bind_some]
      cases Word.isReserved (Bytes.text word.spelling) with
      | false => rfl
      | true => rfl

end Subquery

namespace Window

/-- Reading a word inside a window. -/
theorem next?_window (front inside back : Bytes) {offset : Nat} (within : offset ≤ inside.length) :
    Word.next? (front ++ (inside ++ Byte.closeParen :: back)) (front.length + offset) =
      (Word.next? inside offset).map (·.shift front.length) := by
  simp only [Word.next?_eq_ahead?, Word.ahead?, drop_window front inside _ within,
    takeWhile_append_stop closeParen_not_blank, dropWhile_append_stop closeParen_not_blank,
    takeWhile_append_stop closeParen_not_word]
  split
  · rfl
  · split
    · simp only [Option.map_some, Word.shift, Span.shift, Option.some.injEq, Word.mk.injEq,
        Span.mk.injEq, true_and]
      omega
    · rfl

/-- Asking for a word inside a window. -/
theorem nextIs_window (front inside back : Bytes) {offset : Nat} (within : offset ≤ inside.length)
    (name : String) :
    Word.nextIs (front ++ (inside ++ Byte.closeParen :: back)) (front.length + offset) name =
      Word.nextIs inside offset name := by
  simp only [Word.nextIs, next?_window front inside back within, Option.any_map, Word.is_shift]

/-- Behind a word, what is left of a text is a text: the byte there belongs to no word, so it is one
of ASCII. -/
theorem isText_drop_of_next? {code : Bytes} (spells : Bytes.IsText code) {offset : Nat}
    {word : Word} (met : Word.next? code offset = some word) :
    Bytes.IsText (code.drop word.span.stop) := by
  obtain ⟨blanks, behind, ahead, _, _, _, ended, place⟩ := Word.split_of_next?_eq_some met
  rw [← List.take_append_drop word.span.stop code] at spells
  refine (spells.split ?_).2
  rw [Word.drop_stop ahead place]
  intro byte member
  have notWord := ended byte member
  simp only [Byte.isWordByte, Bool.or_eq_false_iff, Byte.isWide, decide_eq_false_iff_not] at notWord
  simp only [Byte.continuesCharacter, notWord.2, false_and, decide_false]

/-- An alias may end in a window where it may end in the window's code alone. At the end of the
window the closing parenthesis takes the place of the end of the text. -/
theorem aliasMayEnd_window (front inside back : Bytes) {offset : Nat}
    (within : offset ≤ inside.length) (spells : Bytes.IsText (inside.drop offset)) :
    Subquery.aliasMayEnd (front ++ (inside ++ Byte.closeParen :: back)) (front.length + offset) =
      Subquery.aliasMayEnd inside offset := by
  have closing : Bytes.decode (Byte.closeParen :: back) = ')' :: Bytes.decode back :=
    Bytes.decode_ascii (by decide) back
  have wide : Text.dropLeadingBlanks (Bytes.decode
      ((front ++ (inside ++ Byte.closeParen :: back)).drop (front.length + offset))) =
        (Bytes.decode (inside.drop offset) ++ ')' :: Bytes.decode back).dropWhile Text.isBlank := by
    rw [drop_window front inside _ within, spells.decode_append, closing, Text.dropLeadingBlanks]
  cases blank : (Bytes.decode (inside.drop offset)).dropWhile Text.isBlank with
  | nil =>
    have parenthesis : Text.isBlank ')' = false := by decide
    rw [List.dropWhile_append, blank, List.isEmpty_nil, if_pos rfl,
      List.dropWhile_cons_of_neg (by simp [parenthesis])] at wide
    rw [Subquery.aliasMayEnd_of_cons wide, Subquery.aliasMayEnd_of_nil blank]
    rfl
  | cons next others =>
    rw [List.dropWhile_append, blank, List.isEmpty_cons, if_neg Bool.false_ne_true,
      List.cons_append] at wide
    rw [Subquery.aliasMayEnd_of_cons wide, Subquery.aliasMayEnd_of_cons blank,
      next?_window front inside back within, Option.any_map]
    rfl

/-- Reading an alias inside a window. -/
theorem aliasAt?_window (front inside back : Bytes) (spells : Bytes.IsText inside) {offset : Nat}
    (within : offset ≤ inside.length) :
    Subquery.aliasAt? (front ++ (inside ++ Byte.closeParen :: back)) (front.length + offset) =
      Subquery.aliasAt? inside offset := by
  have ending {start : Nat} {word : Word} (met : Word.next? inside start = some word) :
      Subquery.aliasMayEnd (front ++ (inside ++ Byte.closeParen :: back))
        (word.shift front.length).span.stop = Subquery.aliasMayEnd inside word.span.stop := by
    rw [Word.stop_shift]
    exact aliasMayEnd_window front inside back (Word.stop_le_of_next? met)
      (isText_drop_of_next? spells met)
  simp only [Subquery.aliasAt?_eq, next?_window front inside back within]
  cases met : Word.next? inside offset with
  | none => simp only [Option.map_none, Option.bind_none]
  | some first =>
    have second : Word.next? (front ++ (inside ++ Byte.closeParen :: back))
        (first.shift front.length).span.stop =
          (Word.next? inside first.span.stop).map (·.shift front.length) := by
      rw [Word.stop_shift]
      exact next?_window front inside back (Word.stop_le_of_next? met)
    simp only [Option.map_some, Option.bind_some, Word.is_shift, second]
    by_cases introduced : first.is "AS" = true
    · simp only [if_pos introduced]
      cases metSecond : Word.next? inside first.span.stop with
      | none => simp only [Option.map_none, Option.bind_none]
      | some word =>
        simp only [Option.map_some, Option.bind_some, ending metSecond, Word.spelling_shift]
    · simp only [if_neg introduced, Option.bind_some, ending met, Word.spelling_shift]

end Window

namespace Subquery

/-- A pair of parentheses is a subquery when its contents begin with `SELECT`. -/
theorem value_ofPair (code : Bytes) (pair : Nat × Nat) :
    (ofPair code pair).value =
      if Word.nextIs code (Bytes.trim code ⟨pair.1 + 1, pair.2⟩).value.start "SELECT" then
        some ⟨⟨pair.1, pair.2 + 1⟩, (Bytes.trim code ⟨pair.1 + 1, pair.2⟩).value,
          aliasAt? code (pair.2 + 1)⟩
      else none := by
  rw [ofPair, Checked.value_bind, Checked.value_bind, Word.value_scan, ← Word.nextIs]
  by_cases begins :
      Word.nextIs code (Bytes.trim code ⟨pair.1 + 1, pair.2⟩).value.start "SELECT" = true
  · rw [if_pos begins, if_pos begins]
    rfl
  · rw [if_neg begins, if_neg begins]
    rfl

/-- The subqueries of a code, without regard to how they were cut out. -/
theorem value_all (code : Bytes) :
    (all code).value = (pairs code).filterMap fun pair => (ofPair code pair).value :=
  Checked.value_eachSome _ _

/-- Looking for a subquery at a pair inside a window. -/
theorem ofPair_window (front inside back : Bytes) (spells : Bytes.IsText inside) {pair : Nat × Nat}
    (inOrder : pair.1 < pair.2) (within : pair.2 < inside.length) :
    (ofPair (front ++ (inside ++ Byte.closeParen :: back))
        (Parentheses.shiftPair front.length pair)).value =
      ((ofPair inside pair).value).map (·.shift front.length) := by
  have contents : (Bytes.trim (front ++ (inside ++ Byte.closeParen :: back))
      ⟨pair.1 + front.length + 1, pair.2 + front.length⟩).value =
        (Bytes.trim inside ⟨pair.1 + 1, pair.2⟩).value.shift front.length := by
    have moved : (⟨pair.1 + front.length + 1, pair.2 + front.length⟩ : Span) =
        (⟨pair.1 + 1, pair.2⟩ : Span).shift front.length := by
      simp only [Span.shift, Span.mk.injEq, and_true]
      omega
    rw [moved]
    exact Window.trim_window front inside _ _ (Nat.le_of_lt within)
  have contentsStart : (Bytes.trim inside ⟨pair.1 + 1, pair.2⟩).value.start ≤ inside.length := by
    have trimmed := Bytes.leading_add_trailing_le (inside.extract (pair.1 + 1) pair.2)
    rw [Bytes.value_trim (Nat.le_of_lt within)]
    simp only [List.extract_eq_take_drop, List.length_take, List.length_drop] at trimmed ⊢
    omega
  have aliasBehind : aliasAt? (front ++ (inside ++ Byte.closeParen :: back))
      (pair.2 + front.length + 1) = aliasAt? inside (pair.2 + 1) := by
    rw [show pair.2 + front.length + 1 = front.length + (pair.2 + 1) by omega]
    exact Window.aliasAt?_window front inside back spells within
  simp only [value_ofPair, Parentheses.shiftPair, contents, aliasBehind]
  rw [show ((Bytes.trim inside ⟨pair.1 + 1, pair.2⟩).value.shift front.length).start =
    front.length + (Bytes.trim inside ⟨pair.1 + 1, pair.2⟩).value.start by
      rw [Span.shift, Nat.add_comm], Window.nextIs_window front inside back contentsStart]
  split
  · simp only [Option.map_some, shift, Span.shift, Option.some.injEq, Subquery.mk.injEq,
      Span.mk.injEq, and_true, true_and]
    omega
  · rfl

end Subquery

end QueryScope
