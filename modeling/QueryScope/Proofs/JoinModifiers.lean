import Mathlib.Data.List.TakeWhile
import QueryScope.Sql.FromEntry
import QueryScope.Proofs.Boundaries

/-!
# The words of the next join at the end of an entry

Before `JOIN` may stand words that say what kind of join comes next. The reader cuts them off one
after the other, each with the blanks in front of it. Here the entry is divided into its runs of
bytes between blanks, and what is left is measured at once: up to the end of the last run that is no
such word.
-/

namespace QueryScope.FromEntry

/-! ## Runs of bytes between blanks -/

/-- The maximal runs of other bytes between blanks, each with its offset; the bytes stand at
`offset`. -/
def runs (offset : Nat) : Bytes → List (Nat × Bytes)
  | [] => []
  | byte :: rest =>
    if Byte.isBlank byte then
      runs (offset + 1) rest
    else match runs (offset + 1) rest with
      | [] => [(offset, [byte])]
      | (start, run) :: others =>
        if start = offset + 1 then (offset, byte :: run) :: others
        else (offset, [byte]) :: (start, run) :: others

/-- A byte that is not blank begins a run, which stands first in the list. -/
theorem exists_run {byte : UInt8} (solid : Byte.isBlank byte = false) (offset : Nat)
    (rest : Bytes) :
    ∃ run others, runs offset (byte :: rest) = (offset, run) :: others := by
  simp only [runs, solid, Bool.false_eq_true, if_false]
  split
  · exact ⟨_, _, rfl⟩
  · split
    · exact ⟨_, _, rfl⟩
    · exact ⟨_, _, rfl⟩

/-- A run of the bytes ahead, which stand at `offset`: it has bytes and no blank among them, and
where it ends, the bytes end or a blank comes next. -/
structure RunIn (offset : Nat) (ahead : Bytes) (start : Nat) (run : Bytes) : Prop where
  split : ∃ front back, ahead = front ++ (run ++ back) ∧ start = offset + front.length ∧
    ∀ byte ∈ back.head?, Byte.isBlank byte = true
  nonempty : run ≠ []
  solid : ∀ byte ∈ run, Byte.isBlank byte = false

namespace RunIn

variable {offset start : Nat} {rest run : Bytes} {byte : UInt8}

/-- A run of the bytes behind the first one is a run of all of them, as what is in front of it may
be anything. -/
theorem later (byte : UInt8) (isRun : RunIn (offset + 1) rest start run) :
    RunIn offset (byte :: rest) start run := by
  obtain ⟨⟨front, back, rfl, place, ended⟩, nonempty, solid⟩ := isRun
  refine ⟨⟨byte :: front, back, rfl, ?_, ended⟩, nonempty, solid⟩
  rw [place, List.length_cons, Nat.add_assoc, Nat.add_comm 1]

/-- A run does not begin before the bytes. -/
theorem behind (isRun : RunIn offset rest start run) : offset ≤ start := by
  obtain ⟨front, back, _, place, _⟩ := isRun.split
  rw [place]
  exact Nat.le_add_right _ _

/-- A run that goes on with a run right behind the first byte is one run. It ends where that one
ends. -/
theorem extend (first : Byte.isBlank byte = false)
    (isRun : RunIn (offset + 1) rest (offset + 1) run) :
    RunIn offset (byte :: rest) offset (byte :: run) := by
  obtain ⟨⟨front, back, rfl, place, ended⟩, _, solid⟩ := isRun
  obtain rfl : front = [] := List.eq_nil_of_length_eq_zero (by omega)
  refine ⟨⟨[], back, rfl, rfl, ended⟩, List.cons_ne_nil _ _, ?_⟩
  intro other member
  rcases List.mem_cons.mp member with rfl | further
  · exact first
  · exact solid other further

/-- A run of one byte ends here unless another run begins right behind it. So the next byte is
blank, or there is none. -/
theorem single (first : Byte.isBlank byte = false)
    (apart : ∀ run others, runs (offset + 1) rest ≠ (offset + 1, run) :: others) :
    RunIn offset (byte :: rest) offset [byte] := by
  refine ⟨⟨[], rest, rfl, rfl, ?_⟩, List.cons_ne_nil _ _, ?_⟩
  · intro next isNext
    obtain ⟨tail, rfl⟩ := List.head?_eq_some_iff.mp isNext
    by_contra solid
    obtain ⟨run, others, begun⟩ := exists_run (Bool.eq_false_iff.mpr solid) (offset + 1) tail
    exact apart run others begun
  · intro other member
    rwa [List.mem_singleton.mp member]

end RunIn

/-- Every run that is listed is one. By induction on the bytes, with one case for each way in which
the first byte joins the runs behind it. -/
theorem runIn_of_mem_runs {offset : Nat} {ahead : Bytes} {start : Nat} {run : Bytes}
    (member : (start, run) ∈ runs offset ahead) : RunIn offset ahead start run := by
  induction ahead generalizing offset start run with
  | nil => cases member
  | cons byte rest inductionHypothesis =>
    rw [runs] at member
    split at member
    · exact (inductionHypothesis member).later byte
    · rename_i notBlank
      have solid : Byte.isBlank byte = false := Bool.eq_false_iff.mpr notBlank
      split at member
      · rename_i nothing
        cases List.mem_singleton.mp member
        exact .single solid (by rw [nothing]; simp)
      · rename_i first firstRun others found
        have behind {start : Nat} {run : Bytes}
            (listed : (start, run) ∈ (first, firstRun) :: others) :
            RunIn (offset + 1) rest start run := by
          rw [← found] at listed
          exact inductionHypothesis listed
        split at member
        · rename_i adjacent
          subst adjacent
          rcases List.mem_cons.mp member with isFirst | isLater
          · cases isFirst
            exact (behind List.mem_cons_self).extend solid
          · exact (behind (List.mem_cons_of_mem _ isLater)).later byte
        · rename_i apart
          rcases List.mem_cons.mp member with isFirst | isLater
          · cases isFirst
            apply RunIn.single solid
            intro run others same
            rw [found] at same
            cases same
            exact apart rfl
          · exact (behind isLater).later byte

/-- Where a run ends, the bytes end or a blank comes next. -/
theorem RunIn.ends {ahead : Bytes} {start : Nat} {run : Bytes} (isRun : RunIn 0 ahead start run) :
    start + run.length ≤ ahead.length ∧
      ∀ byte ∈ (ahead.drop (start + run.length)).head?, Byte.isBlank byte = true := by
  obtain ⟨front, back, rfl, place, ended⟩ := isRun.split
  rw [Nat.zero_add] at place
  subst place
  constructor
  · simp only [List.length_append]
    omega
  · rw [← List.append_assoc, ← List.length_append, List.drop_left]
    exact ended

/-- Runs come in order, each behind the end of those before it. So the last of those that are kept
reaches furthest. -/
theorem pairwise_runs (offset : Nat) (ahead : Bytes) :
    (runs offset ahead).Pairwise fun first second => first.1 + first.2.length ≤ second.1 := by
  induction ahead generalizing offset with
  | nil => exact .nil
  | cons byte rest inductionHypothesis =>
    have later := inductionHypothesis (offset + 1)
    rw [runs]
    split
    · exact later
    · split
      · exact List.pairwise_singleton _ _
      · rename_i start run others found
        rw [found] at later
        have isRun : (start, run) ∈ runs (offset + 1) rest := by
          rw [found]
          exact List.mem_cons_self
        have begins := (runIn_of_mem_runs isRun).behind
        obtain ⟨behind, ordered⟩ := List.pairwise_cons.mp later
        split
        · rename_i adjacent
          rw [List.pairwise_cons]
          refine ⟨?_, ordered⟩
          intro other member
          have apart := behind other member
          simp only [List.length_cons] at apart ⊢
          omega
        · rw [List.pairwise_cons]
          refine ⟨?_, later⟩
          intro other member
          rcases List.mem_cons.mp member with rfl | further
          · exact begins
          · have apart := behind other further
            simp only [List.length_singleton] at apart ⊢
            omega

/-- A word at the beginning is part of the first run, which may go on behind it. -/
theorem exists_runs_word (offset : Nat) {word : Bytes} (nonempty : word ≠ [])
    (solid : ∀ byte ∈ word, Byte.isBlank byte = false) (back : Bytes) :
    ∃ more rest others, runs offset (word ++ back) = (offset, word ++ more) :: others ∧
      back = more ++ rest := by
  induction word generalizing offset with
  | nil => exact absurd rfl nonempty
  | cons byte further inductionHypothesis =>
    have notBlank := solid byte List.mem_cons_self
    cases further with
    | nil =>
      rw [List.singleton_append, runs, if_neg (by simp [notBlank])]
      cases found : runs (offset + 1) back with
      | nil => exact ⟨[], back, [], rfl, rfl⟩
      | cons next others =>
        obtain ⟨start, run⟩ := next
        by_cases adjacent : start = offset + 1
        · have isRun : (start, run) ∈ runs (offset + 1) back := by
            rw [found]
            exact List.mem_cons_self
          obtain ⟨front, rest, isBack, place, _⟩ := (runIn_of_mem_runs isRun).split
          obtain rfl : front = [] := List.eq_nil_of_length_eq_zero (by omega)
          refine ⟨run, rest, others, ?_, isBack⟩
          simp only [if_pos adjacent, List.singleton_append]
        · refine ⟨[], back, (start, run) :: others, ?_, rfl⟩
          simp only [if_neg adjacent, List.append_nil]
    | cons next others =>
      obtain ⟨more, rest, later, isRuns, isBack⟩ := inductionHypothesis (offset + 1)
        (List.cons_ne_nil _ _) fun other member => solid other (List.mem_cons_of_mem _ member)
      refine ⟨more, rest, later, ?_, isBack⟩
      rw [List.cons_append, runs, if_neg (by simp [notBlank]), isRuns]
      simp only [if_true, List.cons_append]

/-- The runs of bytes that a blank separates are the runs of the two sides. This is what divides an
entry at its last blank. -/
theorem runs_append_blank (offset : Nat) (first : Bytes) {blank : UInt8}
    (isBlank : Byte.isBlank blank = true) (rest : Bytes) :
    runs offset (first ++ blank :: rest) =
      runs offset first ++ runs (offset + first.length + 1) rest := by
  induction first generalizing offset with
  | nil => simp only [List.nil_append, runs, isBlank, if_true, List.length_nil, Nat.add_zero]
  | cons byte others inductionHypothesis =>
    have behind := inductionHypothesis (offset + 1)
    have sameOffset : offset + 1 + others.length + 1 = offset + (byte :: others).length + 1 := by
      rw [List.length_cons]
      omega
    rw [sameOffset] at behind
    rw [List.cons_append, runs, runs, behind]
    by_cases blankByte : Byte.isBlank byte = true
    · rw [if_pos blankByte, if_pos blankByte]
    · rw [if_neg blankByte, if_neg blankByte]
      cases runs (offset + 1) others with
      | cons run tail =>
        simp only [List.cons_append]
        split <;> rfl
      | nil =>
        -- The next run begins behind the blank, so it is not a part of the one that ends here.
        cases later : runs (offset + (byte :: others).length + 1) rest with
        | nil => rfl
        | cons run tail =>
          have isRun : run ∈ runs (offset + (byte :: others).length + 1) rest := by
            rw [later]
            exact List.mem_cons_self
          have starts := (runIn_of_mem_runs isRun).behind
          rw [List.length_cons] at starts
          simp only [List.nil_append, List.singleton_append]
          rw [if_neg (by omega)]

/-- Bytes without blanks are one run. -/
theorem runs_solid (offset : Nat) {word : Bytes} (nonempty : word ≠ [])
    (solid : ∀ byte ∈ word, Byte.isBlank byte = false) : runs offset word = [(offset, word)] := by
  induction word generalizing offset with
  | nil => exact absurd rfl nonempty
  | cons byte others inductionHypothesis =>
    have notBlank := solid byte List.mem_cons_self
    cases others with
    | nil => simp only [runs, notBlank, Bool.false_eq_true, if_false]
    | cons next rest =>
      have behind := inductionHypothesis (offset + 1) (List.cons_ne_nil _ _)
        fun other member => solid other (List.mem_cons_of_mem _ member)
      rw [runs, behind]
      simp only [notBlank, Bool.false_eq_true, if_false, if_true]

/-- Blanks at the end hold no run and end none that has not ended already. -/
theorem runs_append_blanks (offset : Nat) (entry : Bytes) {blanks : Bytes}
    (blank : ∀ byte ∈ blanks, Byte.isBlank byte = true) :
    runs offset (entry ++ blanks) = runs offset entry := by
  have none (offset : Nat) (blanks : Bytes) (blank : ∀ byte ∈ blanks, Byte.isBlank byte = true) :
      runs offset blanks = [] := by
    induction blanks generalizing offset with
    | nil => rfl
    | cons byte others inductionHypothesis =>
      rw [runs, if_pos (blank byte List.mem_cons_self)]
      exact inductionHypothesis _ fun other member => blank other (List.mem_cons_of_mem _ member)
  cases blanks with
  | nil => rw [List.append_nil]
  | cons first others =>
    rw [runs_append_blank offset entry (blank first List.mem_cons_self),
      none _ others fun other member => blank other (List.mem_cons_of_mem _ member),
      List.append_nil]

/-! ## What is left of an entry -/

/-- The length of an entry without the words at its end that say what kind of join comes next, or
nothing when no other word is left. -/
def lengthWithoutModifiers? (entry : Bytes) : Option Nat :=
  match (runs 0 entry).reverse.dropWhile (Word.isJoinModifier ·.2) with
  | [] => none
  | (start, run) :: _ => some (start + run.length)

/-- The words at the end of an entry are left out as a whole: what is left ends with a run. So it
never ends inside a word or with a blank. -/
theorem exists_run_of_lengthWithoutModifiers? {entry : Bytes} {length : Nat}
    (measured : lengthWithoutModifiers? entry = some length) :
    ∃ start run, (start, run) ∈ runs 0 entry ∧ length = start + run.length := by
  rw [lengthWithoutModifiers?] at measured
  split at measured
  · cases measured
  · rename_i start run others left
    cases measured
    refine ⟨start, run, ?_, rfl⟩
    have remains : (start, run) ∈ (runs 0 entry).reverse.dropWhile
        (Word.isJoinModifier ·.2) := by
      rw [left]
      exact List.mem_cons_self
    exact List.mem_reverse.mp ((List.dropWhile_sublist _).subset remains)

/-- The modifiers of a join are cut off inside the entry: what is left is no longer than it was. -/
theorem lengthWithoutModifiers?_le {entry : Bytes} {length : Nat}
    (measured : lengthWithoutModifiers? entry = some length) : length ≤ entry.length := by
  obtain ⟨start, run, member, rfl⟩ := exists_run_of_lengthWithoutModifiers? measured
  exact (runIn_of_mem_runs member).ends.1

/-- Only modifiers are cut off at the end of an entry: what is left holds every other run. The runs
are in order, so a run that is no modifier ends where what is left ends, or before. -/
theorem le_lengthWithoutModifiers {entry : Bytes} {length : Nat}
    (measured : lengthWithoutModifiers? entry = some length) {start : Nat} {run : Bytes}
    (member : (start, run) ∈ runs 0 entry) (notModifier : Word.isJoinModifier run = false) :
    start + run.length ≤ length := by
  have ordered := List.pairwise_reverse.mpr (pairwise_runs 0 entry)
  have split := List.takeWhile_append_dropWhile (p := fun run : Nat × Bytes =>
    Word.isJoinModifier run.2) (l := (runs 0 entry).reverse)
  have remains : (start, run) ∈ (runs 0 entry).reverse.dropWhile (Word.isJoinModifier ·.2) := by
    rcases List.mem_append.mp (split ▸ List.mem_reverse.mpr member) with cutOff | left
    · have isModifier := List.mem_takeWhile_imp cutOff
      rw [notModifier] at isModifier
      cases isModifier
    · exact left
  have orderedRest := ordered.sublist (List.dropWhile_sublist (Word.isJoinModifier ·.2))
  rw [lengthWithoutModifiers?] at measured
  split at measured
  · cases measured
  · rename_i last lastRun others left
    cases measured
    rw [left] at remains orderedRest
    rcases List.mem_cons.mp remains with isLast | earlier
    · cases isLast
      exact Nat.le_refl _
    · have apart := (List.pairwise_cons.mp orderedRest).1 _ earlier
      simp only at apart
      omega

/-- Bytes without blanks are one word: an entry of its own, or a modifier. In the second case
nothing is left. -/
theorem lengthWithoutModifiers?_solid {entry : Bytes} (nonempty : entry ≠ [])
    (solid : ∀ byte ∈ entry, Byte.isBlank byte = false) :
    lengthWithoutModifiers? entry =
      if Word.isJoinModifier entry then none else some entry.length := by
  rw [lengthWithoutModifiers?, runs_solid 0 nonempty solid, List.reverse_singleton,
    List.dropWhile_cons]
  by_cases modifier : Word.isJoinModifier entry = true
  · rw [if_pos modifier, if_pos modifier]
    rfl
  · rw [if_neg modifier, if_neg modifier]
    exact congrArg some (Nat.zero_add _)

/-- The last word of an entry is cut off when it is a modifier, and otherwise the entry ends with
it. -/
theorem lengthWithoutModifiers?_append_blank (front : Bytes) {blank : UInt8}
    (isBlank : Byte.isBlank blank = true) {last : Bytes} (nonempty : last ≠ [])
    (solid : ∀ byte ∈ last, Byte.isBlank byte = false) :
    lengthWithoutModifiers? (front ++ blank :: last) =
      if Word.isJoinModifier last then lengthWithoutModifiers? front
      else some (front ++ blank :: last).length := by
  have length : 0 + front.length + 1 + last.length = (front ++ blank :: last).length := by
    rw [List.length_append, List.length_cons]
    omega
  rw [lengthWithoutModifiers?, runs_append_blank 0 front isBlank, runs_solid _ nonempty solid,
    List.reverse_append, List.reverse_singleton, List.singleton_append, List.dropWhile_cons]
  by_cases modifier : Word.isJoinModifier last = true
  · rw [if_pos modifier, if_pos modifier, lengthWithoutModifiers?]
  · rw [if_neg modifier, if_neg modifier]
    exact congrArg some length

/-- Blanks at the end do not matter, so the blanks in front of a modifier go with it. -/
theorem lengthWithoutModifiers?_append_blanks (entry : Bytes) {blanks : Bytes}
    (blank : ∀ byte ∈ blanks, Byte.isBlank byte = true) :
    lengthWithoutModifiers? (entry ++ blanks) = lengthWithoutModifiers? entry := by
  rw [lengthWithoutModifiers?, lengthWithoutModifiers?, runs_append_blanks 0 entry blank]

/-! ## Cutting off one word after the other -/

/-- The last blank divides the bytes: no other blank stands behind it. So the bytes behind it are
the last word. -/
theorem exists_of_lastBlank?_eq_some {entry : Bytes} {offset : Nat}
    (isLast : lastBlank? entry = some offset) :
    ∃ front blank last, entry = front ++ blank :: last ∧ front.length = offset ∧
      Byte.isBlank blank = true ∧ lastBlank? last = none := by
  induction entry generalizing offset with
  | nil => cases isLast
  | cons byte rest inductionHypothesis =>
    rw [lastBlank?] at isLast
    split at isLast
    · rename_i later
      cases isLast
      obtain ⟨front, blank, last, rfl, rfl, isBlank, noneBehind⟩ := inductionHypothesis later
      exact ⟨byte :: front, blank, last, rfl, rfl, isBlank, noneBehind⟩
    · rename_i noneBehind
      rw [Option.ite_none_right_eq_some] at isLast
      obtain ⟨isBlank, same⟩ := isLast
      cases same
      exact ⟨[], byte, rest, rfl, rfl, isBlank, noneBehind⟩

/-- Where no blank is the last one, there is none at all. -/
theorem solid_of_lastBlank?_eq_none {entry : Bytes} (noBlank : lastBlank? entry = none) :
    ∀ byte ∈ entry, Byte.isBlank byte = false := by
  induction entry with
  | nil =>
    intro byte member
    cases member
  | cons byte rest inductionHypothesis =>
    rw [lastBlank?] at noBlank
    split at noBlank
    · cases noBlank
    · rename_i noneBehind
      rw [ite_eq_right_iff] at noBlank
      intro other member
      rcases List.mem_cons.mp member with rfl | further
      · rw [Bool.eq_false_iff]
        intro blank
        cases noBlank blank
      · exact inductionHypothesis noneBehind other further

section Turn

variable {code : Bytes} {span : Span} {offset : Nat}

/-- An entry of one word is left as it is, unless it is a modifier. Then nothing is left of it. -/
theorem dropModifiers_of_none (noBlank : lastBlank? (Bytes.cut code span).value = none) :
    dropModifiers code span =
      ⟨if Word.isJoinModifier (Bytes.cut code span).value then none else some span,
        (Bytes.cut code span).sound⟩ := by
  rw [dropModifiers, Checked.andThen]
  split
  · simp only [Checked.value_pure, Checked.sound_pure, Bool.and_true]
  · rename_i found
    rw [noBlank] at found
    cases found

/-- An entry whose last word is no modifier is left as it is, and the cutting ends. -/
theorem dropModifiers_of_other (isLast : lastBlank? (Bytes.cut code span).value = some offset)
    (other : ¬ Word.isJoinModifier ((Bytes.cut code span).value.drop (offset + 1)) = true) :
    dropModifiers code span = ⟨some span, (Bytes.cut code span).sound⟩ := by
  rw [dropModifiers, Checked.andThen]
  split
  · rename_i noBlank
    rw [isLast] at noBlank
    cases noBlank
  · rename_i found
    rw [isLast] at found
    cases found
    rw [if_neg other]
    simp only [Checked.value_pure, Checked.sound_pure, Bool.and_true]

/-- When the last word is a modifier, the loop goes on with what is in front of it, without the
blanks there. -/
theorem dropModifiers_of_modifier (isLast : lastBlank? (Bytes.cut code span).value = some offset)
    (modifier : Word.isJoinModifier ((Bytes.cut code span).value.drop (offset + 1)) = true) :
    dropModifiers code span = Bytes.cut code span >>= fun _ =>
      Bytes.trim code ⟨span.start, span.start + offset⟩ >>= dropModifiers code := by
  rw [dropModifiers, Checked.andThen]
  split
  · rename_i noBlank
    rw [isLast] at noBlank
    cases noBlank
  · rename_i found
    rw [isLast] at found
    cases found
    rw [if_pos modifier]
    rfl

end Turn

/-- A span of code that is not empty and neither begins nor ends with a blank. The reader keeps its
span so, and then the bytes behind the last blank are a word. -/
structure Solid (code : Bytes) (span : Span) : Prop where
  something : span.start < span.stop
  within : span.stop ≤ code.length
  first : ∀ byte ∈ (code.extract span.start span.stop).head?, Byte.isBlank byte = false
  last : ∀ byte ∈ (code.extract span.start span.stop).getLast?, Byte.isBlank byte = false

namespace Solid

variable {code : Bytes} {span : Span} {front last : Bytes} {blank : UInt8}

/-- What is trimmed and not empty is solid. With this the reader begins, and goes on after each
word. -/
theorem of_trimmed {trimmed : Span} (within : span.stop ≤ code.length)
    (isTrimmed : Bytes.Trimmed code span trimmed) (something : trimmed.start < trimmed.stop) :
    Solid code trimmed :=
  ⟨something, Nat.le_trans isTrimmed.stopLe within, isTrimmed.solid, isTrimmed.solidLast⟩

/-- What lies before the last word of a solid span, without the blanks at its end, is a shorter
solid span that begins at the same place. -/
theorem shorten (solid : Solid code span)
    (divided : code.extract span.start span.stop = front ++ blank :: last)
    (isBlank : Byte.isBlank blank = true) :
    ∃ shorter blanks, (Bytes.trim code ⟨span.start, span.start + front.length⟩).value = shorter ∧
      Solid code shorter ∧ shorter.start = span.start ∧ shorter.length < span.length ∧
      front = code.extract shorter.start shorter.stop ++ blanks ∧
      ∀ byte ∈ blanks, Byte.isBlank byte = true := by
  have lengths := congrArg List.length divided
  rw [Window.length_extract code span.start solid.within, List.length_append, List.length_cons]
    at lengths
  have within : span.start + front.length ≤ code.length := by
    have := solid.within
    omega
  have isFront : code.extract span.start (span.start + front.length) = front := by
    have taken := congrArg (List.take front.length) divided
    rw [List.take_left, List.extract_eq_take_drop, List.take_take, Nat.min_eq_left (by omega)]
      at taken
    rwa [List.extract_eq_take_drop, Nat.add_sub_cancel_left]
  have trimmed : Bytes.Trimmed code ⟨span.start, span.start + front.length⟩
      (Bytes.trim code ⟨span.start, span.start + front.length⟩).value :=
    Bytes.trimmed_trim (Nat.le_add_right _ _) within
  generalize isShorter : (Bytes.trim code ⟨span.start, span.start + front.length⟩).value = shorter
    at trimmed
  obtain ⟨startLe, inOrder, stopLe, blankFront, blankBack, _, _⟩ := id trimmed
  simp only at startLe inOrder stopLe blankFront blankBack
  -- The first byte of the span is not blank, so trimming stops in front of it and behind it.
  have inside : span.start < code.length := Nat.lt_of_lt_of_le solid.something solid.within
  have begins := Bytes.extract_of_drop (List.drop_eq_getElem_cons inside) solid.something
  have shown : code[span.start]? = some code[span.start] := List.getElem?_eq_getElem inside
  have firstSolid : Byte.isBlank code[span.start] = false := by
    apply solid.first
    rw [begins, List.head?_cons]
    rfl
  have sameStart : shorter.start = span.start := by
    by_contra moved
    have blank := blankFront _ (Window.mem_extract shown (Nat.le_refl _) (by omega))
    rw [firstSolid] at blank
    cases blank
  have someFront : 0 < front.length := by
    apply List.length_pos_iff.mpr
    rintro rfl
    rw [begins, List.nil_append] at divided
    cases divided
    rw [firstSolid] at isBlank
    cases isBlank
  have something : shorter.start < shorter.stop := by
    by_contra nothing
    have blank := blankBack _ (Window.mem_extract shown (by omega) (by omega))
    rw [firstSolid] at blank
    cases blank
  refine ⟨shorter, code.extract shorter.stop (span.start + front.length), rfl,
    .of_trimmed within trimmed something, sameStart, ?_, ?_, blankBack⟩
  · rw [Span.length, Span.length]
    omega
  · rw [Window.extract_append_extract code inOrder stopLe, sameStart, isFront]

end Solid

/-- Cutting off the modifiers one after the other leaves what lies before all of them. By induction
on the length of the span, which each word makes shorter. -/
theorem value_dropModifiers {code : Bytes} {span : Span} (solid : Solid code span) :
    (dropModifiers code span).value =
      (lengthWithoutModifiers? (code.extract span.start span.stop)).map fun length =>
        ⟨span.start, span.start + length⟩ := by
  induction size : span.length using Nat.strongRecOn generalizing span with
  | ind _ inductionHypothesis =>
  have length := Window.length_extract code span.start solid.within
  have reaches : span.start + (code.extract span.start span.stop).length = span.stop := by
    have := solid.something
    omega
  cases blank : lastBlank? (code.extract span.start span.stop) with
  | none =>
    have nonempty : code.extract span.start span.stop ≠ [] := by
      apply List.ne_nil_of_length_pos
      have := solid.something
      omega
    rw [dropModifiers_of_none blank,
      lengthWithoutModifiers?_solid nonempty (solid_of_lastBlank?_eq_none blank), Bytes.cut]
    by_cases modifier : Word.isJoinModifier (code.extract span.start span.stop) = true
    · rw [if_pos modifier, if_pos modifier]
      rfl
    · rw [if_neg modifier, if_neg modifier, Option.map_some, reaches]
  | some offset =>
    obtain ⟨front, byte, last, divided, rfl, isBlank, noneBehind⟩ :=
      exists_of_lastBlank?_eq_some blank
    have behind : (code.extract span.start span.stop).drop (front.length + 1) = last := by
      rw [divided, ← List.drop_drop, List.drop_left, List.drop_one, List.tail_cons]
    have nonempty : last ≠ [] := by
      rintro rfl
      have isLast := solid.last byte (by rw [divided, List.getLast?_append]; rfl)
      rw [isBlank] at isLast
      cases isLast
    have measured := lengthWithoutModifiers?_append_blank front isBlank nonempty
      (solid_of_lastBlank?_eq_none noneBehind)
    rw [← divided] at measured
    by_cases modifier : Word.isJoinModifier last = true
    · obtain ⟨shorter, blanks, isShorter, shorterSolid, sameStart, smaller, isFront, areBlank⟩ :=
        solid.shorten divided isBlank
      have shorterMeasured := inductionHypothesis shorter.length (size ▸ smaller) shorterSolid rfl
      rw [dropModifiers_of_modifier blank (by rw [Bytes.cut, behind]; exact modifier),
        Checked.value_bind, Checked.value_bind, isShorter, shorterMeasured, measured,
        if_pos modifier, isFront, lengthWithoutModifiers?_append_blanks _ areBlank, sameStart]
    · rw [dropModifiers_of_other blank (by rw [Bytes.cut, behind]; exact modifier), measured,
        if_neg modifier, Option.map_some, reaches]

end QueryScope.FromEntry
