import Mathlib.Data.List.Chain
import QueryScope.Sql.TopLevel
import QueryScope.Proofs.Window

/-!
# The parts between separators

Splitting a code at the separators of top level cuts it into parts that tile it. The depth that
decides about a separator is counted from the beginning of the code, but it is zero at every cut,
so each part is read on its own as it is read inside the code: it has no separator at top level and
is not split again.
-/

namespace QueryScope

/-- The depth at a position, counted from zero at `offset`. -/
def depthBetween (code : Bytes) (offset position : Nat) : Nat :=
  (code.extract offset position).foldl depthAfter 0

section Depth

variable {code : Bytes} {offset position : Nat}

@[simp] theorem depthBetween_self (code : Bytes) (offset : Nat) :
    depthBetween code offset offset = 0 := by
  rw [depthBetween, List.extract_eq_take_drop, Nat.sub_self, List.take_zero, List.foldl_nil]

/-- The depth goes on from any position in between. -/
theorem depthBetween_eq_foldl {middle : Nat} (first : offset ≤ middle) (second : middle ≤ position) :
    depthBetween code offset position =
      (code.extract middle position).foldl depthAfter (depthBetween code offset middle) := by
  rw [depthBetween, ← Window.extract_append_extract code first second, List.foldl_append,
    depthBetween]

/-- One byte more. -/
theorem depthBetween_succ {byte : UInt8} (behind : offset ≤ position)
    (shown : code[position]? = some byte) :
    depthBetween code offset (position + 1) = depthAfter (depthBetween code offset position) byte := by
  have one : code.extract position (position + 1) = [byte] := by
    rw [List.extract_eq_take_drop, Nat.add_sub_cancel_left, List.take_one, List.head?_drop, shown,
      Option.toList_some]
  rw [depthBetween_eq_foldl behind (Nat.le_succ position), one, List.foldl_cons, List.foldl_nil]

/-- A count that begins at top level agrees with the one that led there. -/
theorem depthBetween_of_top {middle : Nat} (top : depthBetween code offset middle = 0)
    (first : offset ≤ middle) (second : middle ≤ position) :
    depthBetween code middle position = depthBetween code offset position := by
  rw [depthBetween_eq_foldl first second, top, depthBetween]

/-- The depth inside a piece of code, counted from the beginning of the piece. -/
theorem depthBetween_extract (code : Bytes) {start stop : Nat} (within : start + position ≤ stop) :
    depthBetween (code.extract start stop) 0 position = depthBetween code start (start + position) := by
  have shorter : min position (stop - start) = position := by omega
  simp only [depthBetween, List.extract_eq_take_drop, List.drop_zero, Nat.sub_zero, List.take_take,
    Nat.add_sub_cancel_left, shorter]

end Depth

namespace TopLevel

/-- A separator stands at a position of top level. A parenthesis never separates. -/
structure Separates (code : Bytes) (separator : UInt8) (position : Nat) : Prop where
  shown : code[position]? = some separator
  notParenthesis : isParenthesis separator = false
  top : depthBetween code 0 position = 0

variable {code : Bytes} {separator : UInt8}

/-- Behind a separator the code is at top level. -/
theorem Separates.top_behind {position : Nat} (separates : Separates code separator position) :
    depthBetween code 0 (position + 1) = 0 := by
  rw [depthBetween_succ (Nat.zero_le position) separates.shown,
    depthAfter_of_not_isParenthesis separates.notParenthesis, separates.top]

/-- No separator stands at top level between two offsets. -/
def Unseparated (code : Bytes) (separator : UInt8) (start stop : Nat) : Prop :=
  ∀ position, start ≤ position → position < stop → ¬ Separates code separator position

/-- The spans that cut the code from `start` on at its separators of top level. -/
inductive Layout (code : Bytes) (separator : UInt8) : Nat → List Span → Prop where
  | last {start : Nat} (within : start ≤ code.length)
      (whole : Unseparated code separator start code.length) :
      Layout code separator start [⟨start, code.length⟩]
  | cut {start stop : Nat} {others : List Span} (inOrder : start ≤ stop)
      (whole : Unseparated code separator start stop) (separates : Separates code separator stop)
      (behind : Layout code separator (stop + 1) others) :
      Layout code separator start (⟨start, stop⟩ :: others)

/-- Splitting the bytes ahead lays out the code from the beginning of the part that is being read. The
part has no separator so far. -/
theorem layout_splitFrom {start offset depth : Nat} {ahead : Bytes}
    (here : code.drop offset = ahead) (within : offset ≤ code.length) (inOrder : start ≤ offset)
    (isDepth : depthBetween code 0 offset = depth) (whole : Unseparated code separator start offset) :
    Layout code separator start (splitFrom separator start offset depth ahead) := by
  induction ahead generalizing start offset depth with
  | nil =>
    obtain rfl := Nat.le_antisymm within (List.drop_eq_nil_iff.mp here)
    exact .last inOrder whole
  | cons byte rest inductionHypothesis =>
    obtain ⟨shown, next⟩ := Window.of_drop_eq_cons here
    have nextWithin : offset + 1 ≤ code.length := (List.getElem?_eq_some_iff.mp shown).1
    rw [splitFrom]
    by_cases isCut : (!isParenthesis byte && byte == separator && depth == 0) = true
    · rw [if_pos isCut]
      simp only [Bool.and_eq_true, Bool.not_eq_true', beq_iff_eq] at isCut
      obtain ⟨⟨notParenthesis, rfl⟩, rfl⟩ := isCut
      have separates : Separates code byte offset := ⟨shown, notParenthesis, isDepth⟩
      refine .cut inOrder whole separates ?_
      exact inductionHypothesis next nextWithin (Nat.le_refl _) separates.top_behind
        fun position behind before => absurd behind (Nat.not_le.mpr before)
    · rw [if_neg isCut]
      refine inductionHypothesis next nextWithin (Nat.le_succ_of_le inOrder) ?_ ?_
      · rw [depthBetween_succ (Nat.zero_le offset) shown, isDepth]
      · -- The byte that is passed over is no separator of top level either.
        intro position behind before separates
        rcases Nat.lt_succ_iff_lt_or_eq.mp before with earlier | rfl
        · exact whole position behind earlier separates
        · obtain rfl := Option.some.inj (shown.symm.trans separates.shown)
          apply isCut
          rw [separates.notParenthesis, ← isDepth, separates.top]
          simp

/-- Splitting lays out the code. -/
theorem layout_split (code : Bytes) (separator : UInt8) :
    Layout code separator 0 (split code separator) :=
  layout_splitFrom List.drop_zero (Nat.zero_le _) (Nat.le_refl 0) (depthBetween_self code 0)
    fun _ _ before => absurd before (Nat.not_lt_zero _)

/-- A code without a separator at top level is one part. -/
theorem split_of_unseparated (whole : Unseparated code separator 0 code.length) :
    split code separator = [⟨0, code.length⟩] := by
  have layout := layout_split code separator
  generalize split code separator = parts at layout
  cases layout with
  | last => rfl
  | cut _ _ separates _ =>
    have within := (List.getElem?_eq_some_iff.mp separates.shown).1
    exact absurd separates (whole _ (Nat.zero_le _) within)

/-- The offsets at which a part ends and the next one follows. -/
def cuts (parts : List Span) : List Nat := parts.dropLast.map (·.stop)

/-- A part of a code that is read alone as it is read in the code. -/
structure Independent (code : Bytes) (separator : UInt8) (part : Span) : Prop where
  inOrder : part.start ≤ part.stop
  within : part.stop ≤ code.length
  top : depthBetween code 0 part.start = 0
  whole : Unseparated code separator part.start part.stop

/-- Such a part is not split again. -/
theorem Independent.split_extract {part : Span} (independent : Independent code separator part) :
    split (code.extract part.start part.stop) separator = [⟨0, part.length⟩] := by
  have length : (code.extract part.start part.stop).length = part.length :=
    Window.length_extract code part.start independent.within
  have inOrder := independent.inOrder
  rw [← length]
  apply split_of_unseparated
  intro position _ before separates
  rw [length, Span.length] at before
  -- A separator of the part would be one of the code: both count the same depth there.
  have inside : part.start + position < part.stop := by omega
  refine independent.whole (part.start + position) (Nat.le_add_right _ _) inside ?_
  refine ⟨?_, separates.notParenthesis, ?_⟩
  · rw [← separates.shown, List.extract_eq_take_drop, List.getElem?_take_of_lt before,
      List.getElem?_drop]
  · rw [← depthBetween_of_top independent.top (Nat.zero_le _) (Nat.le_add_right _ _),
      ← depthBetween_extract code (Nat.le_of_lt inside), separates.top]

namespace Layout

variable {start : Nat} {parts : List Span}

/-- The first part begins where the layout does. -/
theorem head (layout : Layout code separator start parts) :
    parts.head?.map (·.start) = some start := by
  cases layout <;> rfl

theorem ne_nil (layout : Layout code separator start parts) : parts ≠ [] := by
  cases layout <;> exact List.cons_ne_nil _ _

/-- The last part ends with the code. -/
theorem last_stop (layout : Layout code separator start parts) :
    parts.getLast?.map (·.stop) = some code.length := by
  induction layout with
  | last => rfl
  | cut _ _ _ behind inductionHypothesis =>
    rw [List.getLast?_cons_of_ne_nil behind.ne_nil, inductionHypothesis]

/-- Between two parts stands one separator. -/
theorem separated (layout : Layout code separator start parts) :
    parts.IsChain fun left right =>
      code[left.stop]? = some separator ∧ right.start = left.stop + 1 := by
  induction layout with
  | last => exact List.isChain_singleton _
  | cut _ _ separates behind inductionHypothesis =>
    refine List.isChain_cons.mpr ⟨?_, inductionHypothesis⟩
    intro next isNext
    have begins := behind.head
    rw [isNext, Option.map_some] at begins
    exact ⟨separates.shown, Option.some.inj begins⟩

/-- The parts with the separators between them are the code again. -/
theorem intercalate_eq (layout : Layout code separator start parts) :
    [separator].intercalate (parts.map fun part => code.extract part.start part.stop) =
      code.drop start := by
  induction layout with
  | last within =>
    rw [List.map_singleton, List.intercalate_singleton, ← Window.extract_append_drop code within,
      List.drop_length, List.append_nil]
  | @cut start stop others inOrder _ separates behind inductionHypothesis =>
    have here : code.drop stop = separator :: code.drop (stop + 1) := by
      obtain ⟨within, isSeparator⟩ := List.getElem?_eq_some_iff.mp separates.shown
      rw [List.drop_eq_getElem_cons within, isSeparator]
    obtain ⟨next, further, rfl⟩ := List.exists_cons_of_ne_nil behind.ne_nil
    rw [List.map_cons] at inductionHypothesis
    rw [List.map_cons, List.map_cons, List.intercalate_cons_cons, inductionHypothesis,
      List.append_assoc, List.singleton_append, ← here, Window.extract_append_drop code inOrder]

/-- The cuts are the separators of top level. -/
theorem mem_cuts_iff (layout : Layout code separator start parts) (position : Nat) :
    position ∈ cuts parts ↔ start ≤ position ∧ Separates code separator position := by
  induction layout with
  | last _ whole =>
    constructor
    · rintro ⟨⟩
    · rintro ⟨behind, separates⟩
      have within := (List.getElem?_eq_some_iff.mp separates.shown).1
      exact absurd separates (whole position behind within)
  | @cut start stop others inOrder whole separates behind inductionHypothesis =>
    rw [cuts, List.dropLast_cons_of_ne_nil behind.ne_nil, List.map_cons, List.mem_cons, ← cuts,
      inductionHypothesis]
    constructor
    · rintro (rfl | ⟨later, isSeparator⟩)
      · exact ⟨inOrder, separates⟩
      · exact ⟨by omega, isSeparator⟩
    · rintro ⟨later, isSeparator⟩
      rcases Nat.lt_trichotomy position stop with inside | rfl | beyond
      · exact absurd isSeparator (whole position later inside)
      · exact .inl rfl
      · exact .inr ⟨beyond, isSeparator⟩

/-- Every part can be read alone when the layout begins at top level. -/
theorem independent (layout : Layout code separator start parts)
    (top : depthBetween code 0 start = 0) :
    ∀ part ∈ parts, Independent code separator part := by
  induction layout with
  | last within whole =>
    intro part member
    rw [List.mem_singleton] at member
    subst member
    exact ⟨within, Nat.le_refl _, top, whole⟩
  | cut inOrder whole separates _ inductionHypothesis =>
    intro part member
    rcases List.mem_cons.mp member with rfl | later
    · have within := (List.getElem?_eq_some_iff.mp separates.shown).1
      exact ⟨inOrder, Nat.le_of_lt within, top, whole⟩
    · exact inductionHypothesis separates.top_behind part later

end Layout

/-- Parts that tile a code. -/
structure Tiling (code : Bytes) (separator : UInt8) (parts : List Span) : Prop where
  begins : parts.head?.map (·.start) = some 0
  ends : parts.getLast?.map (·.stop) = some code.length
  inOrder : ∀ part ∈ parts, part.start ≤ part.stop
  /-- Exactly one separator stands between a part and the next. -/
  separated : parts.IsChain fun left right =>
    code[left.stop]? = some separator ∧ right.start = left.stop + 1
  joined : [separator].intercalate (parts.map fun part => code.extract part.start part.stop) = code
  /-- A separator is a cut exactly at top level, and no parenthesis is one. -/
  cuts : ∀ position, code[position]? = some separator →
    (position ∈ cuts parts ↔ depthBetween code 0 position = 0 ∧ isParenthesis separator = false)
  /-- No part is split again. -/
  alone : ∀ part ∈ parts,
    split (code.extract part.start part.stop) separator = [⟨0, part.length⟩]

/-- Splitting tiles every code, whatever its parentheses are. -/
theorem tiling_split (code : Bytes) (separator : UInt8) :
    Tiling code separator (split code separator) := by
  have layout := layout_split code separator
  have independent := layout.independent (depthBetween_self code 0)
  refine ⟨layout.head, layout.last_stop, fun part member => (independent part member).inOrder,
    layout.separated, ?_, ?_, fun part member => (independent part member).split_extract⟩
  · rw [layout.intercalate_eq, List.drop_zero]
  · intro position shown
    rw [layout.mem_cuts_iff]
    constructor
    · rintro ⟨_, separates⟩
      exact ⟨separates.top, separates.notParenthesis⟩
    · rintro ⟨top, notParenthesis⟩
      exact ⟨Nat.zero_le position, shown, notParenthesis, top⟩

-- A parenthesis without a partner is passed over when it closes, and hides the rest when it opens.
example : split (Bytes.ofString "a),b(c,d),e(f,g") Byte.comma = [⟨0, 2⟩, ⟨3, 9⟩, ⟨10, 15⟩] := by
  decide +kernel

end TopLevel

end QueryScope
