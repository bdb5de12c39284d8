import QueryScope.Text.Caret
import QueryScope.CommandLine.Program
import QueryScope.Proofs.EntryShapes

/-!
# Carets in characters and in bytes

An editor gives a caret as the number of characters in front of it, a sample query as a bar between
them. Either way the caret is the number of bytes in front of it, and the bytes of the query can be cut
there. One character more always makes it larger, until the text ends.
-/

namespace QueryScope.Caret

open EntryShape

/-- The characters of a text take as many bytes as its UTF-8 form has. -/
theorem width_toList (text : String) : Bytes.width text.toList = text.utf8ByteSize := by
  rw [← length_encoded, ← String.size_toByteArray]
  conv_rhs => rw [← String.ofList_toList (s := text)]
  rw [String.toByteArray_ofList, List.utf8Encode, List.size_toByteArray]

/-- A character begins behind the bytes of those before it, and where there is no such character all
of them end. -/
theorem getD_offsets (offset : Nat) (characters : List Char) (index : Nat) :
    (offsets offset characters)[index]?.getD (offset + Bytes.width characters) =
      offset + Bytes.width (characters.take index) := by
  induction characters generalizing offset index with
  | nil => rw [List.take_nil]; rfl
  | cons character others inductionHypothesis =>
    cases index with
    | zero => rfl
    | succ previous =>
      rw [offsets, List.getElem?_cons_succ, List.take_succ_cons, Bytes.width,
        Bytes.width, ← Nat.add_assoc, ← Nat.add_assoc]
      exact inductionHypothesis (offset + character.utf8Size) previous

/-- The walk over the characters counts the bytes in front of the caret. -/
theorem ofCharacterIndex_eq_width (text : String) (index : Nat) :
    ofCharacterIndex text index = Bytes.width (text.toList.take index) := by
  have walked := getD_offsets 0 text.toList index
  rwa [Nat.zero_add, Nat.zero_add, width_toList] at walked

/-- The caret behind a first part of the text. -/
theorem ofCharacterIndex_append (front back : String) :
    ofCharacterIndex (front ++ back) front.length = front.utf8ByteSize := by
  rw [ofCharacterIndex_eq_width, String.toList_append, ← String.length_toList, List.take_left,
    width_toList]

/-- A caret further on, inside the text. -/
theorem ofCharacterIndex_lt {text : String} {index next : Nat} (before : index < next)
    (within : next ≤ text.length) : ofCharacterIndex text index < ofCharacterIndex text next := by
  obtain ⟨distance, rfl⟩ := Nat.exists_eq_add_of_lt before
  have something : (text.toList.drop index).take (distance + 1) ≠ [] := by
    apply List.ne_nil_of_length_pos
    rw [List.length_take, List.length_drop, String.length_toList]
    omega
  rw [ofCharacterIndex_eq_width, ofCharacterIndex_eq_width, Nat.add_assoc, List.take_add,
    width_append]
  exact Nat.lt_add_of_pos_right (width_pos something)

/-- A caret at the end of the text or past it. -/
theorem ofCharacterIndex_of_length_le {text : String} {index : Nat} (past : text.length ≤ index) :
    ofCharacterIndex text index = text.utf8ByteSize := by
  rw [← String.length_toList] at past
  rw [ofCharacterIndex_eq_width, List.take_of_length_le past, width_toList]

/-- The bytes of a text can be cut behind its first part. -/
theorem take_ofString_append (front back : String) :
    (Bytes.ofString (front ++ back)).take front.utf8ByteSize = Bytes.ofString front := by
  rw [Bytes.ofString, String.toList_append, List.flatMap_append]
  apply List.take_left'
  rw [← width_toList, ← length_encoded, encoded]

/-- The first marker of a marked query is the caret. -/
theorem split_marked {front : String} (unmarked : marker ∉ front.toList) (back : String) :
    split (front ++ String.singleton marker ++ back) = some (front ++ back, front.utf8ByteSize) := by
  have passed : ∀ character ∈ front.toList, (character != marker) = true := by
    intro character member
    rw [bne_iff_ne]
    rintro rfl
    exact unmarked member
  have characters : (front ++ String.singleton marker ++ back).toList =
      front.toList ++ marker :: back.toList := by
    rw [String.toList_append, String.toList_append, String.toList_singleton, List.append_assoc,
      List.singleton_append]
  have before : (front.toList ++ marker :: back.toList).takeWhile (· != marker) = front.toList := by
    rw [List.takeWhile_append_of_pos passed, List.takeWhile_cons_of_neg (by simp), List.append_nil]
  have after : (front.toList ++ marker :: back.toList).dropWhile (· != marker) =
      marker :: back.toList := by
    rw [List.dropWhile_append_of_pos passed, List.dropWhile_cons_of_neg (by simp)]
  simp only [split, characters, before, after, width_toList, String.ofList_append,
    String.ofList_toList]

/-- A caret between two parts of a text is the byte length of the first part, whether it is given in
characters or marked, so the command line gets the same offset from an editor. The offsets of the
characters increase up to the end of the text and stay there. -/
theorem carets_agree (front back : String) :
    let text := front ++ back
    ofCharacterIndex text front.length = front.utf8ByteSize ∧
      (Bytes.ofString text).take front.utf8ByteSize = Bytes.ofString front ∧
      (∀ index next, index < next → next ≤ text.length →
        ofCharacterIndex text index < ofCharacterIndex text next) ∧
      (∀ index, text.length ≤ index → ofCharacterIndex text index = text.utf8ByteSize) ∧
      ('|' ∉ front.toList →
        split (front ++ "|" ++ back) = some (text, front.utf8ByteSize) ∧
          ∀ arguments : CommandLine.Arguments, arguments.caret = none →
            arguments.charCaret = some front.length →
            CommandLine.byteCaret? arguments text =
              (split (front ++ "|" ++ back)).map (·.2)) := by
  intro text
  refine ⟨ofCharacterIndex_append front back, take_ofString_append front back,
    fun index next => ofCharacterIndex_lt, fun index => ofCharacterIndex_of_length_le, ?_⟩
  intro unmarked
  have marked : split (front ++ "|" ++ back) = some (text, front.utf8ByteSize) :=
    split_marked unmarked back
  refine ⟨marked, ?_⟩
  intro arguments noCaret isIndex
  rw [CommandLine.byteCaret?, noCaret, isIndex, marked, Option.none_or, Option.map_some,
    Option.map_some, ofCharacterIndex_append]

/-- A bar behind the caret is part of the query, and a letter of two bytes counts twice. -/
theorem carets_agree_accented :
    let text := "SELECT 'é' " ++ "a | b"
    let arguments : CommandLine.Arguments := { charCaret := some 11 }
    '|' ∉ "SELECT 'é' ".toList ∧
      split ("SELECT 'é' " ++ "|" ++ "a | b") = some (text, 12) ∧
      CommandLine.byteCaret? arguments text = some 12 ∧
      ofCharacterIndex text 8 < ofCharacterIndex text 9 ∧
      ofCharacterIndex text 99 = text.utf8ByteSize := by
  have unmarked : '|' ∉ "SELECT 'é' ".toList := by decide
  have size : "SELECT 'é' ".utf8ByteSize = 12 := by decide
  have length : "SELECT 'é' ".length = 11 := by decide
  obtain ⟨_, _, increasing, constant, marked⟩ := carets_agree "SELECT 'é' " "a | b"
  obtain ⟨isSplit, sameCaret⟩ := marked unmarked
  rw [size] at isSplit
  have caret := sameCaret { charCaret := some 11 } rfl (by rw [length])
  rw [isSplit, Option.map_some] at caret
  exact ⟨unmarked, isSplit, caret, increasing 8 9 (by decide) (by decide), constant 99 (by decide)⟩

end QueryScope.Caret
