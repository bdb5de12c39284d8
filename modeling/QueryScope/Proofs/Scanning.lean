import Mathlib.Data.List.TakeWhile
import QueryScope.Sql.Word
import QueryScope.Sql.Keyword

/-!
# Scans by offset and by what is ahead

A scan walks over a buffer by offset, and every byte that it looks at is a read that could fail.
Here each loop gets two laws. One says that its guard keeps all its reads inside the buffer. The
other gives its value as a function of the bytes ahead, with no offsets in it: blanks are a run that
is taken off the front, a word is the run behind them, and a search goes down the list of bytes
ahead. The rest of the theory reasons about the bytes ahead and never opens a loop.
-/

namespace QueryScope

/-! ## Single bytes -/

namespace Buffer

/-- A read is sound exactly when the offset lies inside the buffer. All soundness of scans comes
down to this. -/
theorem sound_read_iff (buffer : Buffer) (offset : Nat) :
    (buffer.read offset).sound = true ↔ offset < buffer.size :=
  decide_eq_true_iff

variable {code : Bytes} {offset : Nat}

/-- A buffer is as long as the bytes that it holds. -/
@[simp] theorem size_buffer (code : Bytes) : code.buffer.size = code.length := by
  rw [Bytes.buffer, List.size_toArray]

/-- What is read at an offset is the first of the bytes ahead. This is how an offset is traded for a
list. -/
theorem value_read_of_drop {byte : UInt8} {rest : Bytes} (ahead : code.drop offset = byte :: rest) :
    (code.buffer.read offset).value = byte := by
  have shown : code[offset]? = some byte := by
    rw [← List.head?_drop, ahead, List.head?_cons]
  rw [read, Bytes.buffer, Array.getD_eq_getD_getElem?, List.getElem?_toArray, shown,
    Option.getD_some]

/-- Past the end zero is read. The read is not sound there, but its value still fails the test of
every scan. -/
theorem value_read_of_length_le (past : code.length ≤ offset) :
    (code.buffer.read offset).value = 0 := by
  rw [read, Bytes.buffer, Array.getD_eq_getD_getElem?, List.getElem?_toArray,
    List.getElem?_eq_none past, Option.getD_none]

/-- A slice of a buffer is the piece of the bytes that it holds. -/
theorem value_slice (code : Bytes) (span : Span) :
    (code.buffer.slice span).value = code.extract span.start span.stop := by
  rw [slice, Bytes.buffer, List.extract_toArray]

end Buffer

/-! ## Runs of bytes -/

/-- What is left behind a run that is taken off the front. -/
theorem Bytes.drop_run (test : UInt8 → Bool) (ahead : Bytes) :
    ahead.drop (ahead.takeWhile test).length = ahead.dropWhile test := by
  have whole : ahead.takeWhile test ++ ahead.dropWhile test = ahead :=
    List.takeWhile_append_dropWhile
  have cut : (ahead.takeWhile test ++ ahead.dropWhile test).drop (ahead.takeWhile test).length =
      ahead.dropWhile test := List.drop_left
  rwa [whole] at cut

/-- What is ahead once a run has been passed, told by the offset behind it. -/
theorem Bytes.drop_add_run (test : UInt8 → Bool) (code : Bytes) (offset : Nat) :
    code.drop (offset + ((code.drop offset).takeWhile test).length) =
      (code.drop offset).dropWhile test := by
  rw [← List.drop_drop, drop_run]

/-- There is no run at the front exactly if the first byte fails the test or there is none. -/
theorem Bytes.run_eq_nil_iff (test : UInt8 → Bool) (ahead : Bytes) :
    ahead.takeWhile test = [] ↔ ahead.head?.any test = false := by
  cases ahead with
  | nil => simp
  | cons byte rest => cases passes : test byte <;> simp [passes]

/-- Where there is a byte ahead, the offset lies inside. -/
theorem Bytes.lt_length_of_drop {code rest : Bytes} {byte : UInt8} {offset : Nat}
    (ahead : code.drop offset = byte :: rest) : offset < code.length := by
  rw [← Nat.not_le]
  intro past
  rw [List.drop_eq_nil_of_le past] at ahead
  cases ahead

/-- Before `stop`, the bytes ahead begin with the one at the offset. A walk forward peels them off
in this way. -/
theorem Bytes.extract_of_drop {code rest : Bytes} {byte : UInt8} {offset stop : Nat}
    (ahead : code.drop offset = byte :: rest) (before : offset < stop) :
    code.extract offset stop = byte :: code.extract (offset + 1) stop := by
  have behind : code.drop (offset + 1) = rest := by
    rw [← List.drop_drop, ahead, List.drop_one, List.tail_cons]
  have counted : stop - offset = stop - (offset + 1) + 1 := by omega
  rw [List.extract_eq_take_drop, List.extract_eq_take_drop, ahead, behind, counted,
    List.take_succ_cons]

/-- Behind `start`, a piece ends with the byte in front of its end. A walk back peels them off in
this way. -/
theorem Bytes.extract_pred {code : Bytes} {start offset : Nat} (behind : start < offset)
    (within : offset ≤ code.length) :
    code.extract start offset =
      code.extract start (offset - 1) ++ [(code.buffer.read (offset - 1)).value] := by
  have inside : offset - 1 < code.length := by omega
  have ahead := List.drop_eq_getElem_cons inside
  have counted : offset - start = offset - 1 - start + 1 := by omega
  have shown : (code.drop start)[offset - 1 - start]? = some code[offset - 1] := by
    rw [List.getElem?_drop, Nat.add_sub_cancel' (by omega), List.getElem?_eq_getElem inside]
  rw [List.extract_eq_take_drop, List.extract_eq_take_drop, counted, List.take_add_one, shown,
    Buffer.value_read_of_drop ahead, Option.toList_some]

/-- Texts that are the same but for the case of their letters are equally long. -/
theorem Bytes.length_eq_of_sameIgnoringCase {left right : Bytes}
    (same : sameIgnoringCase left right = true) : left.length = right.length := by
  have lengths := congrArg List.length (beq_iff_eq.mp same)
  rwa [List.length_map, List.length_map] at lengths

namespace Buffer

variable {test : UInt8 → Bool}

/-- Looking at the next byte if there is one is a read behind a guard. -/
theorem any_head?_drop (test : UInt8 → Bool) (code : Bytes) (offset : Nat) :
    (code.drop offset).head?.any test =
      (decide (offset < code.length) && test (code.buffer.read offset).value) := by
  cases ahead : code.drop offset with
  | nil =>
    have past := List.drop_eq_nil_iff.mp ahead
    rw [decide_eq_false (Nat.not_lt.mpr past)]
    rfl
  | cons byte rest =>
    rw [decide_eq_true (Bytes.lt_length_of_drop ahead), value_read_of_drop ahead]
    rfl

/-- Walking forward passes over the bytes ahead as long as they pass the test. The byte that is read
past the end must fail it, and then the walk stops there in any case. -/
theorem value_advance (fails : test 0 = false) (code : Bytes) (offset stop : Nat) :
    (code.buffer.advance test offset stop).value =
      offset + ((code.extract offset stop).takeWhile test).length := by
  fun_induction advance test code.buffer offset stop with
  | case1 offset before inductionHypothesis =>
    rw [Checked.value_bind]
    cases ahead : code.drop offset with
    | nil =>
      have past := List.drop_eq_nil_iff.mp ahead
      rw [value_read_of_length_le past, fails, List.extract_eq_take_drop, ahead, List.take_nil]
      rfl
    | cons byte rest =>
      rw [value_read_of_drop ahead, Bytes.extract_of_drop ahead before, List.takeWhile_cons]
      split
      · rw [inductionHypothesis, List.length_cons, Nat.add_assoc, Nat.add_comm 1]
      · rfl
  | case2 offset behind =>
    rw [List.extract_eq_take_drop, Nat.sub_eq_zero_of_le (Nat.le_of_not_lt behind), List.take_zero]
    rfl

/-- Walking forward to the end of the text passes the run of bytes ahead that pass the test. This is
`value_advance` with no bound but the text itself. -/
theorem value_advance_length (fails : test 0 = false) (code : Bytes) (offset : Nat) :
    (code.buffer.advance test offset code.buffer.size).value =
      offset + ((code.drop offset).takeWhile test).length := by
  rw [value_advance fails, size_buffer, List.extract_eq_take_drop,
    List.take_of_length_le (by rw [List.length_drop])]

/-- Walking forward reads nothing at or behind `stop`, so it is sound when that is inside. The guard
of the loop comes before each read. -/
theorem sound_advance {buffer : Buffer} {stop : Nat} (within : stop ≤ buffer.size) (offset : Nat) :
    (buffer.advance test offset stop).sound = true := by
  fun_induction advance test buffer offset stop with
  | case1 offset before inductionHypothesis =>
    have inside := (sound_read_iff buffer offset).mpr (Nat.lt_of_lt_of_le before within)
    rw [Checked.sound_bind, inside, Bool.true_and]
    split
    · exact inductionHypothesis
    · rfl
  | case2 offset behind => rfl

/-- Walking back passes over the bytes in front as long as they pass the test, but not past `start`.
The bytes in front are those of the piece in reverse. -/
theorem value_retreat {code : Bytes} (start : Nat) {offset : Nat} (within : offset ≤ code.length) :
    (code.buffer.retreat test start offset).value =
      offset - ((code.extract start offset).reverse.takeWhile test).length := by
  fun_induction retreat test code.buffer start offset with
  | case1 offset behind inductionHypothesis =>
    rw [Checked.value_bind, Bytes.extract_pred behind within, List.reverse_append,
      List.reverse_singleton, List.singleton_append, List.takeWhile_cons]
    split
    · rw [inductionHypothesis (by omega), List.length_cons, Nat.sub_sub, Nat.add_comm 1]
    · rfl
  | case2 offset before =>
    rw [List.extract_eq_take_drop, Nat.sub_eq_zero_of_le (Nat.le_of_not_lt before), List.take_zero]
    rfl

/-- Walking back reads only bytes in front of where it began, and it began inside the text or at its
end. -/
theorem sound_retreat {buffer : Buffer} (start : Nat) {offset : Nat}
    (within : offset ≤ buffer.size) : (buffer.retreat test start offset).sound = true := by
  fun_induction retreat test buffer start offset with
  | case1 offset behind inductionHypothesis =>
    have inside := (sound_read_iff buffer (offset - 1)).mpr (by omega)
    rw [Checked.sound_bind, inside, Bool.true_and]
    split
    · exact inductionHypothesis (by omega)
    · rfl
  | case2 offset before => rfl

end Buffer

/-! ## Trimming -/

namespace Bytes

/-- The number of blanks at the front. -/
def leading (piece : Bytes) : Nat := (piece.takeWhile Byte.isBlank).length

/-- The number of blanks at the end that are not at the front as well. Where all is blank, the
blanks are taken off at the front. -/
def trailing (piece : Bytes) : Nat :=
  ((piece.drop (leading piece)).reverse.takeWhile Byte.isBlank).length

/-- Trimming moves the ends of a span by the blanks at either end of the piece. This also holds of
an empty span, which has none. -/
theorem value_trim {bytes : Bytes} {span : Span} (within : span.stop ≤ bytes.length) :
    (trim bytes span).value =
      ⟨span.start + leading (bytes.extract span.start span.stop),
        span.stop - trailing (bytes.extract span.start span.stop)⟩ := by
  have dropped (front : Nat) : bytes.extract (span.start + front) span.stop =
      (bytes.extract span.start span.stop).drop front := by
    rw [List.extract_eq_take_drop, List.extract_eq_take_drop, List.drop_take, List.drop_drop,
      Nat.sub_sub]
  simp only [trim, Checked.value_bind, Checked.value_pure, Buffer.value_retreat _ within,
    Buffer.value_advance (by decide : Byte.isBlank 0 = false), dropped]
  rfl

/-- Taking blanks off the ends of a span that ends inside the text is sound: one walk forward up to
the end of the span, and one walk back from there. -/
theorem sound_trim {code : Bytes} {span : Span} (within : span.stop ≤ code.length) :
    (trim code span).sound = true := by
  have inside : span.stop ≤ code.buffer.size := within
  simp only [trim, Checked.sound_bind, Checked.sound_pure, Buffer.sound_advance inside,
    Buffer.sound_retreat _ inside, Bool.and_self]

/-- A span that holds no offset is left as it is, and nothing is read. Such spans may lie anywhere,
also past the end. -/
theorem trim_of_le (bytes : Bytes) {span : Span} (nothing : span.stop ≤ span.start) :
    trim bytes span = ⟨span, true⟩ := by
  have stays : bytes.buffer.advance Byte.isBlank span.start span.stop = ⟨span.start, true⟩ := by
    rw [Buffer.advance, if_neg (Nat.not_lt.mpr nothing)]
    rfl
  have remains : bytes.buffer.retreat Byte.isBlank span.start span.stop = ⟨span.stop, true⟩ := by
    rw [Buffer.retreat, if_neg (Nat.not_lt.mpr nothing)]
    rfl
  simp only [trim, stays, bind, remains]
  rfl

end Bytes

/-! ## Words -/

namespace Word

/-- The word that comes first in the bytes ahead, which begin at `offset`, when blanks are
skipped. -/
def ahead? (offset : Nat) (ahead : Bytes) : Option Word :=
  let start := offset + (ahead.takeWhile Byte.isBlank).length
  match (ahead.dropWhile Byte.isBlank).takeWhile Byte.isWordByte with
  | [] => none
  | first :: others =>
    if Byte.startsWord first then
      some ⟨first :: others, ⟨start, start + (first :: others).length⟩⟩
    else
      none

/-- A byte that may begin a word belongs to one, so the run behind such a byte is a word. -/
theorem isWordByte_of_startsWord {byte : UInt8} (starts : Byte.startsWord byte = true) :
    Byte.isWordByte byte = true := by
  simp only [Byte.startsWord, Bool.or_eq_true] at starts
  rcases starts with (letter | underscore) | wide
  · simp only [Byte.isWordByte, letter, Bool.true_or]
  · simp only [Byte.isWordByte, underscore, Bool.or_true, Bool.true_or]
  · simp only [Byte.isWordByte, wide, Bool.or_true]

/-- A scan meets the word that comes first in the bytes ahead. Blanks are walked over, one byte is
looked at if there is one, and the word is walked to its end. -/
theorem next?_eq_ahead? (code : Bytes) (offset : Nat) :
    next? code offset = ahead? offset (code.drop offset) := by
  have blanks : Byte.isBlank 0 = false := by decide
  have wordBytes : Byte.isWordByte 0 = false := by decide
  have ahead := Bytes.drop_add_run Byte.isBlank code offset
  simp only [next?, scan, ahead?, Checked.value_bind, Buffer.value_advance_length blanks]
  generalize offset + ((code.drop offset).takeWhile Byte.isBlank).length = start at ahead
  rw [← ahead]
  cases shown : code.drop start with
  | nil =>
    have past := List.drop_eq_nil_iff.mp shown
    rw [Buffer.size_buffer, if_neg (Nat.not_lt.mpr past)]
    rfl
  | cons first others =>
    have inside : start < code.buffer.size := by
      rw [Buffer.size_buffer]
      exact Bytes.lt_length_of_drop shown
    rw [if_pos inside, Checked.value_bind, Buffer.value_read_of_drop shown]
    by_cases starts : Byte.startsWord first = true
    · have spelled : (first :: others).takeWhile Byte.isWordByte =
          first :: others.takeWhile Byte.isWordByte :=
        List.takeWhile_cons_of_pos (isWordByte_of_startsWord starts)
      have cut : code.extract start (start + (first :: others.takeWhile Byte.isWordByte).length) =
          first :: others.takeWhile Byte.isWordByte := by
        have taken := List.takeWhile_prefix Byte.isWordByte (l := first :: others)
        rw [spelled] at taken
        rw [List.extract_eq_take_drop, Nat.add_sub_cancel_left, shown]
        exact (List.prefix_iff_eq_take.mp taken).symm
      simp only [if_pos starts, Checked.value_bind, Buffer.value_advance_length wordBytes, shown,
        spelled, Bytes.cut, cut]
      rfl
    · rw [if_neg starts]
      cases met : (first :: others).takeWhile Byte.isWordByte with
      | nil => rfl
      | cons spelled further =>
        have isFirst : spelled = first := by
          rw [List.takeWhile_cons] at met
          split at met
          · cases met
            rfl
          · cases met
        subst isFirst
        simp only [if_neg starts]
        rfl

end Word

/-! ## Keywords -/

namespace Keyword

/-- What follows `word` when the bytes ahead begin with it. A word that begins with a letter must
not go on. -/
def stripWord? (word ahead : Bytes) : Option Bytes :=
  let rest := ahead.drop word.length
  if Bytes.sameIgnoringCase (ahead.take word.length) word
      && !(startsWithLetter word && rest.head?.any Byte.isWordByte) then
    some rest
  else
    none

/-- What follows when the bytes ahead begin with all the words, each after at least one blank. -/
def stripSpaced? : List Bytes → Bytes → Option Bytes
  | [], ahead => some ahead
  | word :: words, ahead =>
    if ahead.head?.any Byte.isBlank then
      (stripWord? word (ahead.dropWhile Byte.isBlank)).bind (stripSpaced? words)
    else
      none

/-- What follows the keyword when the bytes ahead begin with it: its first word at once, and each
other word after blanks. -/
def strip? (keyword : Keyword) (ahead : Bytes) : Option Bytes :=
  match keyword.words with
  | [] => some ahead
  | first :: others => (stripWord? first ahead).bind (stripSpaced? others)

/-- The first keyword of the list that the bytes ahead begin with, as its position counted from
`index`, and what follows it. -/
def first? (insideWord : Bool) (ahead : Bytes) (index : Nat) : List Keyword → Option (Nat × Bytes)
  | [] => none
  | keyword :: others =>
    if keyword.beginsWord && insideWord then
      first? insideWord ahead (index + 1) others
    else match keyword.strip? ahead with
      | some rest => some (index, rest)
      | none => first? insideWord ahead (index + 1) others

/-- Search the bytes ahead, which begin at `offset` and at the given depth; `insideWord` tells
whether the byte before them belongs to a word. -/
def searchFrom (keywords : List Keyword) (offset depth : Nat) (insideWord : Bool) :
    Bytes → Option Hit
  | [] => none
  | byte :: rest =>
    match (if !isParenthesis byte && depth == 0 then first? insideWord (byte :: rest) 0 keywords
      else none) with
    | some (index, after) =>
      some ⟨index, ⟨offset, offset + ((byte :: rest).length - after.length)⟩⟩
    | none =>
      searchFrom keywords (offset + 1) (depthAfter depth byte) (Byte.isWordByte byte) rest

/-- A word takes up as many bytes as it has, so the length of what is left tells where the word
ends. -/
theorem length_of_stripWord?_eq_some {word ahead rest : Bytes}
    (stripped : stripWord? word ahead = some rest) :
    rest.length + word.length = ahead.length := by
  simp only [stripWord?, Option.ite_none_right_eq_some, Option.some.injEq,
    Bool.and_eq_true] at stripped
  obtain ⟨⟨same, _⟩, rfl⟩ := stripped
  have lengths := Bytes.length_eq_of_sameIgnoringCase same
  rw [List.length_take] at lengths
  rw [List.length_drop]
  omega

/-- Further words never give bytes back. They may take none if there are no further words. -/
theorem length_of_stripSpaced?_eq_some {words : List Bytes} {ahead rest : Bytes}
    (stripped : stripSpaced? words ahead = some rest) : rest.length ≤ ahead.length := by
  induction words generalizing ahead with
  | nil =>
    cases stripped
    exact Nat.le_refl _
  | cons word words inductionHypothesis =>
    simp only [stripSpaced?] at stripped
    split at stripped
    · obtain ⟨between, strippedWord, strippedWords⟩ := Option.bind_eq_some_iff.mp stripped
      have shorter := inductionHypothesis strippedWords
      have taken := length_of_stripWord?_eq_some strippedWord
      have dropped := (List.dropWhile_suffix Byte.isBlank (l := ahead)).length_le
      omega
    · cases stripped

/-- The keyword's first word is taken from the bytes ahead, and further words take no less than
nothing. -/
theorem length_of_strip?_eq_some {keyword : Keyword} {ahead rest : Bytes}
    (stripped : keyword.strip? ahead = some rest) :
    rest.length + (keyword.words.head?.getD []).length ≤ ahead.length := by
  simp only [strip?] at stripped
  split at stripped
  · rename_i noWords
    cases stripped
    simp [noWords]
  · rename_i first others words
    obtain ⟨between, strippedFirst, strippedOthers⟩ := Option.bind_eq_some_iff.mp stripped
    have shorter := length_of_stripSpaced?_eq_some strippedOthers
    have taken := length_of_stripWord?_eq_some strippedFirst
    simp only [words, List.head?_cons, Option.getD_some]
    omega

/-- The keyword that is chosen never gives bytes back, whichever of them it is. -/
theorem length_of_first?_eq_some {insideWord : Bool} {ahead rest : Bytes} {start index : Nat}
    {keywords : List Keyword}
    (found : first? insideWord ahead start keywords = some (index, rest)) :
    rest.length ≤ ahead.length := by
  induction keywords generalizing start with
  | nil => cases found
  | cons keyword others inductionHypothesis =>
    rw [first?] at found
    split at found
    · exact inductionHypothesis found
    · split at found
      · rename_i stripped
        cases found
        have taken := length_of_strip?_eq_some stripped
        omega
      · exact inductionHypothesis found

/-- What a word leaves over is an end of the bytes ahead, so it is reached by going on
from there. -/
theorem suffix_of_stripWord? {word ahead rest : Bytes}
    (stripped : stripWord? word ahead = some rest) : rest <:+ ahead := by
  simp only [stripWord?, Option.ite_none_right_eq_some, Option.some.injEq] at stripped
  rw [← stripped.2]
  exact List.drop_suffix _ _

/-- What is left over of the bytes ahead begins at the offset that its length gives. So lengths and
offsets can be exchanged. -/
theorem drop_of_suffix {code rest : Bytes} {offset : Nat} (suffix : rest <:+ code.drop offset) :
    code.drop (code.length - rest.length) = rest :=
  (List.suffix_iff_eq_drop.mp (suffix.trans (List.drop_suffix offset code))).symm

/-- Matching a word at an offset strips it off the bytes ahead. The offset behind the word is told
by the length of what is left. -/
theorem value_matchWord {code : Bytes} {offset : Nat} (within : offset ≤ code.length)
    (word : Bytes) :
    (matchWord code.buffer offset word).value =
      (stripWord? word (code.drop offset)).map (code.length - ·.length) := by
  have aheadLength : (code.drop offset).length = code.length - offset := List.length_drop
  simp only [matchWord, stripWord?, Buffer.size_buffer]
  by_cases short : code.length < offset + word.length
  · -- The guard fails, and so few bytes cannot spell the word.
    have different : Bytes.sameIgnoringCase ((code.drop offset).take word.length) word = false := by
      rw [← Bool.not_eq_true]
      intro same
      have lengths := Bytes.length_eq_of_sameIgnoringCase same
      rw [List.length_take] at lengths
      omega
    rw [if_pos short, different]
    rfl
  · have rest : (code.drop offset).drop word.length = code.drop (offset + word.length) :=
      List.drop_drop
    have stop : code.length - (code.drop (offset + word.length)).length = offset + word.length := by
      rw [List.length_drop]
      omega
    have spelled : code.extract offset (offset + word.length) =
        (code.drop offset).take word.length := by
      rw [List.extract_eq_take_drop, Nat.add_sub_cancel_left]
    rw [if_neg short, Checked.value_bind, Buffer.value_slice, spelled, rest,
      Buffer.any_head?_drop, ← Bool.and_assoc]
    cases Bytes.sameIgnoringCase ((code.drop offset).take word.length) word with
    | false => rfl
    | true =>
      -- The byte behind the word is read only where the word could go on.
      cases startsWithLetter word && decide (offset + word.length < code.length) with
      | false =>
        rw [Bool.false_and, Bool.not_false, Bool.and_self, if_pos rfl, Option.map_some, stop]
        rfl
      | true =>
        rw [Bool.true_and, Bool.true_and, if_pos rfl, Bool.not_true, if_neg Bool.false_ne_true,
          Checked.value_bind]
        cases Byte.isWordByte (code.buffer.read (offset + word.length)).value with
        | false =>
          rw [Bool.not_false, if_pos rfl, Option.map_some, stop]
          rfl
        | true => rfl

/-- A match reads the bytes of the word only when they fit, and the byte behind it only when there
is one. -/
theorem sound_matchWord (buffer : Buffer) (offset : Nat) (word : Bytes) :
    (matchWord buffer offset word).sound = true := by
  simp only [matchWord]
  split
  · rfl
  · rename_i fits
    have slice : (buffer.slice ⟨offset, offset + word.length⟩).sound = true := by
      simp only [Buffer.slice, Nat.le_add_right, Nat.le_of_not_lt fits, decide_true, Bool.and_self]
    rw [Checked.sound_bind, slice, Bool.true_and]
    split
    · rfl
    · split
      · rename_i goesOn
        rw [Bool.and_eq_true, decide_eq_true_iff] at goesOn
        rw [Checked.sound_bind, (Buffer.sound_read_iff buffer _).mpr goesOn.2]
        rfl
      · rfl

/-- Matching further words strips them off the bytes ahead. By induction on the words: each is
matched behind the blanks that the walk has passed. -/
theorem value_matchSpaced {code : Bytes} (words : List Bytes) {offset : Nat}
    (within : offset ≤ code.length) :
    (matchSpaced code.buffer offset words).value =
      (stripSpaced? words (code.drop offset)).map (code.length - ·.length) := by
  induction words generalizing offset with
  | nil =>
    have stop : code.length - (code.drop offset).length = offset := by
      rw [List.length_drop]
      omega
    rw [matchSpaced, stripSpaced?, Option.map_some, stop]
    rfl
  | cons word words inductionHypothesis =>
    rw [matchSpaced, stripSpaced?, Checked.value_bind,
      Buffer.value_advance_length (by decide : Byte.isBlank 0 = false)]
    cases blank : (code.drop offset).head?.any Byte.isBlank with
    | false =>
      have none := (Bytes.run_eq_nil_iff Byte.isBlank (code.drop offset)).mpr blank
      rw [none, List.length_nil, Nat.add_zero, if_pos rfl]
      rfl
    | true =>
      have behind := Bytes.drop_add_run Byte.isBlank code offset
      have some : offset + ((code.drop offset).takeWhile Byte.isBlank).length ≠ offset := by
        rw [Ne, Nat.add_eq_left, List.length_eq_zero_iff, Bytes.run_eq_nil_iff, blank]
        exact Bool.false_ne_true.symm
      have inside : offset + ((code.drop offset).takeWhile Byte.isBlank).length ≤ code.length := by
        have taken := (List.takeWhile_prefix Byte.isBlank (l := code.drop offset)).length_le
        rw [List.length_drop] at taken
        omega
      rw [if_neg some, Checked.value_bind, value_matchWord inside, behind, if_pos rfl]
      cases stripped : stripWord? word ((code.drop offset).dropWhile Byte.isBlank) with
      | none => rfl
      | some rest =>
        have suffix := suffix_of_stripWord? stripped
        rw [← behind] at suffix
        rw [Option.map_some, Option.bind_some]
        simp only
        rw [inductionHypothesis (Nat.sub_le _ _), drop_of_suffix suffix]

/-- Matching further words is sound. The walk over the blanks ends with the text, and each word is
compared only where it fits. -/
theorem sound_matchSpaced (buffer : Buffer) (words : List Bytes) (offset : Nat) :
    (matchSpaced buffer offset words).sound = true := by
  induction words generalizing offset with
  | nil => rfl
  | cons word words inductionHypothesis =>
    rw [matchSpaced, Checked.sound_bind, Buffer.sound_advance (Nat.le_refl _), Bool.true_and]
    split
    · rfl
    · rw [Checked.sound_bind, sound_matchWord, Bool.true_and]
      split
      · rfl
      · exact inductionHypothesis _

/-- Matching a keyword strips it off the bytes ahead: its first word, and then the further ones. -/
theorem value_matchAt {code : Bytes} (keyword : Keyword) {offset : Nat}
    (within : offset ≤ code.length) :
    (keyword.matchAt code.buffer offset).value =
      (keyword.strip? (code.drop offset)).map (code.length - ·.length) := by
  rw [matchAt, strip?]
  cases keyword.words with
  | nil => exact value_matchSpaced [] within
  | cons first others =>
    simp only [Checked.value_bind, value_matchWord within]
    cases stripped : stripWord? first (code.drop offset) with
    | none => rfl
    | some rest =>
      have suffix := suffix_of_stripWord? stripped
      simp only [Option.map_some, Option.bind_some]
      rw [value_matchSpaced others (Nat.sub_le _ _), drop_of_suffix suffix]

/-- Matching a keyword is sound at every offset, as each of its words is compared only where it
fits. -/
theorem sound_matchAt (buffer : Buffer) (offset : Nat) (keyword : Keyword) :
    (keyword.matchAt buffer offset).sound = true := by
  rw [matchAt]
  split
  · rfl
  · rw [Checked.sound_bind, sound_matchWord, Bool.true_and]
    split
    · rfl
    · exact sound_matchSpaced _ _ _

/-- The keyword that is chosen at an offset is the one that is chosen for the bytes ahead. By
induction on the keywords, which are tried in order. -/
theorem value_matchFirst {code : Bytes} (insideWord : Bool) {offset : Nat}
    (within : offset ≤ code.length) (index : Nat) (keywords : List Keyword) :
    (matchFirst code.buffer offset insideWord index keywords).value =
      (first? insideWord (code.drop offset) index keywords).map fun choice =>
        (choice.1, code.length - choice.2.length) := by
  induction keywords generalizing index with
  | nil => rfl
  | cons keyword others inductionHypothesis =>
    rw [matchFirst, first?]
    split
    · exact inductionHypothesis (index + 1)
    · rw [Checked.value_bind, value_matchAt keyword within]
      cases keyword.strip? (code.drop offset) with
      | none => exact inductionHypothesis (index + 1)
      | some rest => rfl

/-- Choosing a keyword is sound, as each of them is matched soundly. -/
theorem sound_matchFirst (buffer : Buffer) (offset : Nat) (insideWord : Bool) (index : Nat)
    (keywords : List Keyword) :
    (matchFirst buffer offset insideWord index keywords).sound = true := by
  induction keywords generalizing index with
  | nil => rfl
  | cons keyword others inductionHypothesis =>
    rw [matchFirst]
    split
    · exact inductionHypothesis (index + 1)
    · rw [Checked.sound_bind, sound_matchAt, Bool.true_and]
      split
      · rfl
      · exact inductionHypothesis (index + 1)

/-- The byte in front of an offset is the last of the bytes passed. At the beginning there is none,
and the guard of the read says so. -/
theorem value_isInsideWord {code : Bytes} {offset : Nat} (within : offset ≤ code.length) :
    (isInsideWord code.buffer offset).value =
      (code.take offset).getLast?.any Byte.isWordByte := by
  rw [isInsideWord]
  split
  · rename_i zero
    rw [zero]
    rfl
  · rename_i positive
    have last := Bytes.extract_pred (Nat.pos_of_ne_zero positive) within
    rw [List.extract_eq_take_drop, List.drop_zero, Nat.sub_zero] at last
    rw [last, List.getLast?_concat]
    rfl

/-- Looking at the byte in front is sound inside the text and at its end. At offset zero nothing is
read. -/
theorem sound_isInsideWord {buffer : Buffer} {offset : Nat} (within : offset ≤ buffer.size) :
    (isInsideWord buffer offset).sound = true := by
  rw [isInsideWord]
  split
  · rfl
  · rw [Checked.sound_bind, (Buffer.sound_read_iff buffer (offset - 1)).mpr (by omega)]
    rfl

/-- What is matched at top level, in terms of the bytes ahead: nothing at a parenthesis or inside
one, and else the first keyword that stands there. -/
theorem value_matchTopLevel {code : Bytes} (keywords : List Keyword) {offset : Nat} (depth : Nat)
    (byte : UInt8) (within : offset ≤ code.length) :
    (matchTopLevel keywords code.buffer offset depth byte).value =
      (if !isParenthesis byte && depth == 0 then
        first? ((code.take offset).getLast?.any Byte.isWordByte) (code.drop offset) 0 keywords
      else none).map fun choice => (choice.1, code.length - choice.2.length) := by
  rw [matchTopLevel]
  split
  · rw [Checked.value_bind, value_isInsideWord within, value_matchFirst _ within]
  · rfl

/-- A search from an offset goes down the bytes ahead. The loop reads the byte in front again at
every offset, where the recursion remembers what it was. -/
theorem value_searchAt (keywords : List Keyword) (code : Bytes) {offset : Nat} (depth : Nat)
    (within : offset ≤ code.length) :
    (searchAt keywords code.buffer offset depth).value =
      searchFrom keywords offset depth ((code.take offset).getLast?.any Byte.isWordByte)
        (code.drop offset) := by
  fun_induction searchAt keywords code.buffer offset depth with
  | case1 offset depth inside inductionHypothesis =>
    have inside : offset < code.length := inside
    have ahead := List.drop_eq_getElem_cons inside
    have passed : (code.take (offset + 1)).getLast? = some code[offset] := by
      rw [List.take_add_one, List.getElem?_eq_getElem inside, Option.toList_some,
        List.getLast?_concat]
    have chosen := value_matchTopLevel keywords depth code[offset] within
    rw [ahead, searchFrom, ← ahead, Checked.value_bind, Checked.value_bind,
      Buffer.value_read_of_drop ahead, chosen]
    generalize met : (if !isParenthesis code[offset] && depth == 0 then
      first? ((code.take offset).getLast?.any Byte.isWordByte) (code.drop offset) 0 keywords
      else none) = choice
    cases choice with
    | none =>
      have later := inductionHypothesis code[offset] inside
      rw [passed] at later
      exact later
    | some choice =>
      have shorter : choice.2.length ≤ (code.drop offset).length := by
        split at met
        · exact length_of_first?_eq_some met
        · cases met
      have stop : code.length - choice.2.length =
          offset + ((code.drop offset).length - choice.2.length) := by
        rw [List.length_drop] at shorter ⊢
        omega
      simp only [Option.map_some, stop]
      rfl
  | case2 offset depth behind =>
    have past : code.length ≤ offset := Nat.le_of_not_lt behind
    rw [List.drop_eq_nil_of_le past]
    rfl

/-- A search is sound: it reads at offsets before the end only, and in front of them. The induction
is that of the search. -/
theorem sound_searchAt (keywords : List Keyword) (buffer : Buffer) (offset depth : Nat) :
    (searchAt keywords buffer offset depth).sound = true := by
  fun_induction searchAt keywords buffer offset depth with
  | case1 offset depth inside inductionHypothesis =>
    have chosen : (matchTopLevel keywords buffer offset depth
        (buffer.read offset).value).sound = true := by
      rw [matchTopLevel]
      split
      · rw [Checked.sound_bind, sound_isInsideWord (Nat.le_of_lt inside), sound_matchFirst]
        rfl
      · rfl
    rw [Checked.sound_bind, (Buffer.sound_read_iff buffer offset).mpr inside, Checked.sound_bind,
      chosen, Bool.true_and, Bool.true_and]
    split
    · rfl
    · exact inductionHypothesis _
  | case2 offset depth behind => rfl

/-- What a search finds, in terms of the bytes ahead. It begins at the offset or at the end,
whichever comes first, and knows whether a word is under way from the byte in front. -/
theorem find?_eq_searchFrom (code : Bytes) (offset : Nat) (keywords : List Keyword) :
    find? code offset keywords =
      searchFrom keywords (min offset code.length) 0
        ((code.take offset).getLast?.any Byte.isWordByte) (code.drop offset) := by
  have found := value_searchAt keywords code 0 (Nat.min_le_right offset code.length)
  rcases Nat.le_total offset code.length with within | past
  · rw [Nat.min_eq_left within] at found ⊢
    rwa [find?, search, Buffer.size_buffer, Nat.min_eq_left within]
  · rw [Nat.min_eq_right past, List.drop_length] at found
    rw [Nat.min_eq_right past, List.drop_eq_nil_of_le past, find?, search, Buffer.size_buffer,
      Nat.min_eq_right past, found]
    rfl

/-- Every search is sound, from any offset and for any keywords. -/
theorem sound_search (code : Bytes) (offset : Nat) (keywords : List Keyword) :
    (search code offset keywords).sound = true :=
  sound_searchAt _ _ _ _

end Keyword

end QueryScope
