import Mathlib.Data.List.Basic
import QueryScope.Proofs.Masking
import QueryScope.Proofs.Quotes

/-!
# Placeholders in masked code

A placeholder begins with its only opening parenthesis, so two of them never overlap. In the masked
code of a query without placeholders of its own, every placeholder is therefore one that masking has
put there. The number of those before it is the position of its child, and its origin in the query
is where the child begins.
-/

namespace QueryScope.Placeholder

/-- A placeholder, written in any case, stands at an offset of the code. -/
def StandsAt (code : Bytes) (offset : Nat) : Prop :=
  (code.extract offset (offset + bytes.length)).map Byte.upper = bytes

instance (code : Bytes) (offset : Nat) : Decidable (StandsAt code offset) :=
  inferInstanceAs (Decidable (_ = _))

/-- The code holds no placeholder. -/
def Free (code : Bytes) : Prop := ∀ offset < code.length, ¬ StandsAt code offset

instance (code : Bytes) : Decidable (Free code) :=
  inferInstanceAs (Decidable (∀ offset < code.length, ¬ StandsAt code offset))

/-- The placeholder is written in capitals. -/
theorem map_upper_bytes : bytes.map Byte.upper = bytes := by decide

/-- The parenthesis at the beginning of a placeholder does not come again. -/
theorem getElem?_bytes_ne : ∀ index < bytes.length, 0 < index →
    bytes[index]? ≠ some Byte.openParen := by decide

theorem getElem?_bytes_zero : bytes[0]? = some Byte.openParen := by decide

variable {code : Bytes}

/-- A placeholder is made of known bytes. -/
theorem StandsAt.byte {offset : Nat} (stands : StandsAt code offset) (index : Nat)
    (within : index < bytes.length) : (code[offset + index]?).map Byte.upper = bytes[index]? := by
  have shown := congrArg (·[index]?) stands
  simp only [List.getElem?_map, List.extract_eq_take_drop] at shown
  rwa [List.getElem?_take_of_lt (by omega), List.getElem?_drop] at shown

/-- A placeholder begins with an opening parenthesis. -/
theorem StandsAt.opens {offset : Nat} (stands : StandsAt code offset) :
    code[offset]? = some Byte.openParen := by
  have shown := stands.byte 0 (by decide)
  rw [getElem?_bytes_zero, Option.map_eq_some_iff] at shown
  obtain ⟨byte, isByte, isParenthesis⟩ := shown
  rcases Byte.eq_or_eq_of_upper_eq isParenthesis with rfl | rfl
  · exact isByte
  · exact absurd isParenthesis (by decide)

/-- A placeholder lies inside the code. -/
theorem StandsAt.within {offset : Nat} (stands : StandsAt code offset) :
    offset + bytes.length ≤ code.length := by
  have lengths := congrArg List.length stands
  rw [List.length_map, List.extract_eq_take_drop, List.length_take, List.length_drop] at lengths
  have positive : 0 < bytes.length := by decide
  omega

/-- Two placeholders do not overlap. -/
theorem StandsAt.apart {first second : Nat} (before : StandsAt code first)
    (behind : StandsAt code second) (inOrder : first < second) :
    first + bytes.length ≤ second := by
  by_contra overlap
  have shown := before.byte (second - first) (by omega)
  rw [Nat.add_sub_cancel' (Nat.le_of_lt inOrder), behind.opens] at shown
  exact getElem?_bytes_ne (second - first) (by omega) (by omega) shown.symm

/-- Code without an opening parenthesis holds no placeholder. -/
theorem free_of_not_mem (absent : Byte.openParen ∉ code) : Free code := by
  intro offset _ stands
  exact absent (List.mem_of_getElem? stands.opens)

/-- A placeholder in code without any cannot be. -/
theorem Free.not_standsAt (free : Free code) (offset : Nat) : ¬ StandsAt code offset := by
  intro stands
  have within := stands.within
  have positive : 0 < bytes.length := by decide
  exact free offset (by omega) stands

/-- What stands in a piece of code stands in the whole. -/
theorem standsAt_append_left {front : Bytes} {offset : Nat} :
    StandsAt (front ++ code) (front.length + offset) ↔ StandsAt code offset := by
  have piece : (front ++ code).extract (front.length + offset)
      (front.length + offset + bytes.length) = code.extract offset (offset + bytes.length) := by
    rw [List.extract_eq_take_drop, List.extract_eq_take_drop, List.drop_append,
      List.drop_of_length_le (Nat.le_add_right _ _), List.nil_append, Nat.add_sub_cancel_left,
      Nat.add_sub_cancel_left, Nat.add_sub_cancel_left]
  rw [StandsAt, StandsAt, piece]

theorem standsAt_append_right {back : Bytes} {offset : Nat}
    (within : offset + bytes.length ≤ code.length) :
    StandsAt (code ++ back) offset ↔ StandsAt code offset := by
  have piece : (code ++ back).extract offset (offset + bytes.length) =
      code.extract offset (offset + bytes.length) := by
    have window := Window.extract_window [] code back offset within
    simpa only [List.nil_append, List.length_nil, Nat.zero_add] using window
  rw [StandsAt, StandsAt, piece]

/-- What stands in the front of the code stands in the whole. -/
theorem StandsAt.of_take {stop offset : Nat} (stands : StandsAt (code.take stop) offset) :
    StandsAt code offset := by
  have inWhole : StandsAt (code.take stop ++ code.drop stop) offset :=
    (standsAt_append_right stands.within).mpr stands
  rwa [List.take_append_drop] at inWhole

/-- What stands in the back of the code stands in the whole. -/
theorem standsAt_drop {start offset : Nat} :
    StandsAt (code.drop start) offset ↔ StandsAt code (start + offset) := by
  have piece : (code.drop start).extract offset (offset + bytes.length) =
      code.extract (start + offset) (start + offset + bytes.length) := by
    rw [List.extract_eq_take_drop, List.extract_eq_take_drop, List.drop_drop,
      Nat.add_sub_cancel_left, Nat.add_sub_cancel_left]
  rw [StandsAt, StandsAt, piece]

theorem standsAt_cons {byte : UInt8} {offset : Nat} :
    StandsAt (byte :: code) (offset + 1) ↔ StandsAt code offset := by
  have moved : StandsAt ([byte] ++ code) ([byte].length + offset) ↔ StandsAt code offset :=
    standsAt_append_left
  rwa [List.length_singleton, Nat.add_comm] at moved

theorem count_cons (byte : UInt8) (rest : Bytes) :
    count (byte :: rest) = (if bytes.isPrefixOf (byte :: rest) then 1 else 0) + count rest := rfl

/-- Bytes that spell the placeholder in any case are one. -/
theorem standsAt_of_spelled {spelling : Bytes} (spelled : spelling.map Byte.upper = bytes)
    (back : Bytes) : StandsAt (spelling ++ back) 0 := by
  have length : spelling.length = bytes.length := by
    rw [← spelled, List.length_map]
  rw [StandsAt, Nat.zero_add, Window.extract_zero, ← length, List.take_left, spelled]

/-- A copy that is counted is a placeholder. -/
theorem standsAt_of_isPrefixOf (copied : bytes.isPrefixOf code = true) : StandsAt code 0 := by
  obtain ⟨back, rfl⟩ := List.isPrefixOf_iff_prefix.mp copied
  exact standsAt_of_spelled map_upper_bytes back

/-- Code without placeholders has none to count. -/
theorem count_eq_zero (free : Free code) : count code = 0 := by
  induction code with
  | nil => rfl
  | cons byte rest inductionHypothesis =>
    have notHere : bytes.isPrefixOf (byte :: rest) = false := by
      rw [Bool.eq_false_iff]
      intro copied
      exact free.not_standsAt 0 (standsAt_of_isPrefixOf copied)
    have restFree : Free rest := by
      intro offset _ stands
      exact free.not_standsAt _ (standsAt_cons.mpr stands)
    rw [count_cons, notHere, inductionHypothesis restFree]
    rfl

/-- The placeholders of two pieces are those of each, unless one reaches from the first into the
second. -/
theorem count_append {first second : Bytes} (apart : ∀ offset < first.length,
    first.length < offset + bytes.length → ¬ StandsAt (first ++ second) offset) :
    count (first ++ second) = count first + count second := by
  induction first with
  | nil =>
    rw [List.nil_append, show count [] = 0 from rfl, Nat.zero_add]
  | cons byte rest inductionHypothesis =>
    have sameHere : bytes.isPrefixOf (byte :: (rest ++ second)) =
        bytes.isPrefixOf (byte :: rest) := by
      rw [Bool.eq_iff_iff, List.isPrefixOf_iff_prefix, List.isPrefixOf_iff_prefix,
        ← List.cons_append]
      constructor
      · intro copied
        refine List.prefix_of_prefix_length_le copied (List.prefix_append _ _) ?_
        by_contra short
        refine apart 0 (Nat.zero_lt_succ _) (by omega) (standsAt_of_isPrefixOf ?_)
        rwa [List.isPrefixOf_iff_prefix]
      · intro copied
        exact copied.trans (List.prefix_append _ _)
    have restApart : ∀ offset < rest.length, rest.length < offset + bytes.length →
        ¬ StandsAt (rest ++ second) offset := by
      intro offset before reaches stands
      refine apart (offset + 1) ?_ ?_ (standsAt_cons.mpr stands)
      · rw [List.length_cons]
        omega
      · rw [List.length_cons]
        omega
    rw [List.cons_append, count_cons, count_cons, sameHere, inductionHypothesis restApart,
      Nat.add_assoc]

/-- A placeholder that was put in stands there. -/
theorem standsAt_inserted (front back : Bytes) :
    StandsAt (front ++ (bytes ++ back)) front.length := by
  exact standsAt_append_left.mpr (standsAt_of_spelled map_upper_bytes back)

/-- A placeholder that was put in behind code without any is the first to count. -/
theorem count_inserted {front : Bytes} (free : Free front) (back : Bytes) :
    count (front ++ (bytes ++ back)) = count back + 1 := by
  have frontApart : ∀ offset < front.length, front.length < offset + bytes.length →
      ¬ StandsAt (front ++ (bytes ++ back)) offset := by
    intro offset before reaches stands
    have apart := stands.apart (standsAt_inserted front back) before
    omega
  have backApart : ∀ offset < bytes.length, bytes.length < offset + bytes.length →
      ¬ StandsAt (bytes ++ back) offset := by
    intro offset before reaches stands
    have apart := (standsAt_inserted [] back).apart stands (by simp only [List.length_nil]; omega)
    simp only [List.length_nil] at apart
    omega
  have single : count bytes = 1 := by decide
  rw [count_append frontApart, count_append backApart, count_eq_zero free, single]
  omega

/-- In code that has one placeholder put into it, behind a piece without any, another one stands behind
that one. -/
theorem Free.eq_or_behind {front back : Bytes} (free : Free front) {offset : Nat}
    (stands : StandsAt (front ++ (bytes ++ back)) offset) :
    offset = front.length ∨
      ∃ further, offset = front.length + (bytes.length + further) ∧ StandsAt back further := by
  have inserted := standsAt_inserted front back
  rcases Nat.lt_trichotomy offset front.length with before | isHere | behind
  · -- it would stand in the piece itself
    have fits := stands.apart inserted before
    exact absurd ((standsAt_append_right fits).mp stands) (free.not_standsAt offset)
  · exact .inl isHere
  · obtain ⟨further, rfl⟩ := Nat.exists_eq_add_of_le (inserted.apart stands behind)
    rw [Nat.add_assoc] at stands ⊢
    rw [standsAt_append_left, standsAt_append_left] at stands
    exact .inr ⟨further, rfl, stands⟩

/-- A piece of code without placeholders has none. -/
theorem Free.extract (free : Free code) (start stop : Nat) : Free (code.extract start stop) := by
  intro offset _ stands
  rw [List.extract_eq_take_drop] at stands
  exact free.not_standsAt _ (standsAt_drop.mp stands.of_take)

end QueryScope.Placeholder

namespace QueryScope.Masked

open Placeholder

/-- The offset in the query of what stands at an offset of its masked code, when masking began at
`cursor` and the children that come ahead have the given spans. All bytes of a placeholder come from
the beginning of its child. -/
def originFrom (cursor offset : Nat) : List Span → Nat
  | [] => cursor + offset
  | span :: others =>
    if span.start < cursor then
      originFrom cursor offset others
    else if offset < span.start - cursor then
      cursor + offset
    else if offset < span.start - cursor + bytes.length then
      span.start
    else
      originFrom span.stop (offset - (span.start - cursor + bytes.length)) others

/-- A placeholder of masked code belongs to a child: the number of those before it is the child's
position, and the child begins at its origin. What comes behind the placeholder was masked from the
end of the child on. -/
theorem exists_child_of_standsAt {text code : Bytes} (free : Free code) (stop : Nat) {cursor : Nat}
    {children : List (Span × Nat)} (within : ∀ child ∈ children, child.1.start ≤ code.length)
    {offset : Nat} (stands : StandsAt (maskFrom text code stop cursor children).value.code offset) :
    ∃ child ∈ children,
      (maskFrom text code stop cursor children).value.children[count
        ((maskFrom text code stop cursor children).value.code.take offset)]? = some child.2 ∧
      originFrom cursor offset (children.map (·.1)) = child.1.start ∧
      ∃ others ⊆ children, (maskFrom text code stop cursor children).value.code.drop
        (offset + bytes.length) = (maskFrom text code stop child.1.stop others).value.code := by
  induction children generalizing cursor offset with
  | nil => exact absurd stands ((free.extract cursor stop).not_standsAt offset)
  | cons child others inductionHypothesis =>
    have othersWithin : ∀ other ∈ others, other.1.start ≤ code.length :=
      fun other member => within other (List.mem_cons_of_mem _ member)
    rcases Nat.lt_or_ge child.1.start cursor with overlaps | ahead
    · rw [maskFrom_cons_of_lt text code stop cursor others overlaps] at stands ⊢
      obtain ⟨found, member, remembered, origin, further, among, behind⟩ :=
        inductionHypothesis othersWithin stands
      refine ⟨found, List.mem_cons_of_mem _ member, remembered, ?_, further,
        List.subset_cons_of_subset _ among, behind⟩
      rw [List.map_cons, originFrom, if_pos overlaps, origin]
    · rw [value_maskFrom_cons text code stop cursor others ahead] at stands ⊢
      simp only [List.append_assoc] at stands ⊢
      have pieceLength := Window.length_extract code cursor (within child List.mem_cons_self)
      have pieceFree := free.extract cursor child.1.start
      rw [List.map_cons, originFrom, if_neg (Nat.not_lt.mpr ahead)]
      rw [← pieceLength]
      generalize code.extract cursor child.1.start = piece at *
      rcases pieceFree.eq_or_behind stands with rfl | ⟨further, rfl, standsBehind⟩
      · refine ⟨child, List.mem_cons_self, ?_, ?_, others, List.subset_cons_self _ _, ?_⟩
        · rw [List.take_left, count_eq_zero pieceFree, List.getElem?_cons_zero]
        · rw [if_neg (Nat.lt_irrefl _), if_pos (Nat.lt_add_of_pos_right (by decide))]
        · rw [List.drop_length_add_append, List.drop_left]
      · obtain ⟨found, member, remembered, origin, more, among, behind⟩ :=
          inductionHypothesis othersWithin standsBehind
        refine ⟨found, List.mem_cons_of_mem _ member, ?_, ?_, more,
          List.subset_cons_of_subset _ among, ?_⟩
        · rw [List.take_length_add_append, List.take_length_add_append, count_inserted pieceFree,
            List.getElem?_cons_succ, remembered]
        · rw [← Nat.add_assoc, if_neg (by omega), if_neg (by omega), Nat.add_sub_cancel_left, origin]
        · rw [Nat.add_assoc, Nat.add_assoc, List.drop_length_add_append, List.drop_length_add_append,
            behind]

/-- A child that may be replaced: it begins and ends at seams of the code. -/
structure Replaceable (code : Bytes) (stop : Nat) (span : Span) : Prop where
  inOrder : span.start ≤ span.stop
  within : span.stop ≤ stop
  start : Quotes.Seam code span.start
  stop : Quotes.Seam code span.stop

/-- Masked code is legible. -/
theorem legible_maskFrom {text code : Bytes} (legible : Quotes.Legible code) {stop cursor : Nat}
    (begins : Quotes.Seam code cursor) (ends : Bytes.CutAt code stop) (inOrder : cursor ≤ stop)
    {children : List (Span × Nat)}
    (replaceable : ∀ child ∈ children, Replaceable code stop child.1) :
    Quotes.Legible (maskFrom text code stop cursor children).value.code := by
  induction children generalizing cursor with
  | nil => exact legible.extract begins ends inOrder
  | cons child others inductionHypothesis =>
    have othersReplaceable : ∀ other ∈ others, Replaceable code stop other.1 :=
      fun other member => replaceable other (List.mem_cons_of_mem _ member)
    rcases Nat.lt_or_ge child.1.start cursor with overlaps | ahead
    · rw [maskFrom_cons_of_lt text code stop cursor others overlaps]
      exact inductionHypothesis begins inOrder othersReplaceable
    · rw [value_maskFrom_cons text code stop cursor others ahead]
      simp only [List.append_assoc]
      have replaced := replaceable child List.mem_cons_self
      have plain : ∀ byte ∈ bytes, byte < 0x80 ∧ Quotes.isQuote byte = false := by
        have all : bytes.all (fun byte => byte < 0x80 && !Quotes.isQuote byte) = true := by
          decide
        intro byte member
        simpa using List.all_eq_true.mp all byte member
      have placeholder : Quotes.Legible bytes :=
        ⟨Bytes.isText_of_ascii fun byte member => (plain byte member).1,
          Quotes.hollow_of_plain fun byte member => (plain byte member).2⟩
      apply Quotes.Legible.append
      · exact legible.extract begins replaced.start.cut ahead
      · exact begins.outside.openBehind_extract replaced.start.outside ahead
      · apply Quotes.Legible.append placeholder
        · exact Quotes.openBehind_of_plain fun byte member => (plain byte member).2
        · exact inductionHypothesis replaced.stop replaced.within othersReplaceable

end QueryScope.Masked
