import Mathlib.Data.List.Basic
import QueryScope.Proofs.EntryShapes

/-!
# Letter case in bytes and in characters

Capitals are made byte by byte in code and character by character in names. The two agree, because
only the letters of ASCII have their case changed, and each of these is one byte. So two names are
the same up to case exactly if their bytes are. No class of bytes tells the two cases apart.
-/

namespace QueryScope

namespace Byte

/-- What holds of the bytes from 0 to 255 holds of every byte. -/
theorem forall_of_all (holds : UInt8 → Bool)
    (checked : (List.range 256).all (fun value => holds (UInt8.ofNat value)) = true)
    (byte : UInt8) : holds byte = true := by
  have member : byte.toNat ∈ List.range 256 := List.mem_range.mpr byte.toNat_lt
  have one := List.all_eq_true.mp checked _ member
  rwa [UInt8.ofNat_toNat] at one

/-- The classes of a byte that a scan tells bytes apart by and that do not depend on its case. -/
structure SameClasses (first second : UInt8) : Prop where
  letter : isLetter first = isLetter second
  blank : isBlank first = isBlank second
  word : isWordByte first = isWordByte second
  beginning : startsWord first = startsWord second
  parenthesis : isParenthesis first = isParenthesis second

/-- A capital is of the same classes as its letter. -/
theorem sameClasses_upper (byte : UInt8) : SameClasses (upper byte) byte := by
  have checked := forall_of_all (fun byte =>
    isLetter (upper byte) == isLetter byte && isBlank (upper byte) == isBlank byte
      && isWordByte (upper byte) == isWordByte byte && startsWord (upper byte) == startsWord byte
      && isParenthesis (upper byte) == isParenthesis byte) (by decide +kernel) byte
  simp only [Bool.and_eq_true, beq_iff_eq] at checked
  obtain ⟨⟨⟨⟨letter, blank⟩, word⟩, beginning⟩, parenthesis⟩ := checked
  exact ⟨letter, blank, word, beginning, parenthesis⟩

end Byte

/-- Wide bytes have no other case. -/
theorem Byte.upper_of_wide {byte : UInt8} (wide : 0x80 ≤ byte) : upper byte = byte := by
  have checked := forall_of_all (fun byte => !isWide byte || upper byte == byte)
    (by decide +kernel) byte
  simpa [isWide, wide] using checked

namespace EntryShape

/-- A character outside ASCII has no other case. -/
theorem toUpper_of_wide {character : Char} (wide : ¬character.toNat < 128) :
    character.toUpper = character := by
  delta Char.toUpper
  rw [dif_neg]
  rintro ⟨_, small⟩
  have bound := UInt32.le_iff_toNat_le.mp small
  exact wide (Nat.lt_of_le_of_lt bound (by decide))

/-- Capitals of characters are capitals of their bytes. -/
theorem map_upper_utf8 (character : Char) :
    (String.utf8EncodeChar character).map Byte.upper = String.utf8EncodeChar character.toUpper := by
  by_cases ascii : character.toNat < 128
  · exact map_upper_utf8EncodeChar ascii
  · -- Outside ASCII neither the character nor any of its bytes has another case.
    have sameBytes : (String.utf8EncodeChar character).map Byte.upper =
        String.utf8EncodeChar character := by
      conv_rhs => rw [← List.map_id (String.utf8EncodeChar character)]
      apply List.map_congr_left
      intro byte member
      apply Byte.upper_of_wide
      rw [← UInt8.not_lt]
      intro small
      have each : ∀ point < 128, (Char.ofNat point).toNat < 128 := by decide +kernel
      apply ascii
      rw [eq_of_mem_utf8EncodeChar small member]
      exact each _ (UInt8.lt_iff_toNat_lt.mp small)
    rw [toUpper_of_wide ascii, sameBytes]

/-- Capitals of a text are capitals of its bytes. -/
theorem map_upper_encoded_eq (characters : List Char) :
    (encoded characters).map Byte.upper = encoded (characters.map Char.toUpper) := by
  rw [encoded, encoded, List.map_flatMap, List.flatMap_map]
  exact List.flatMap_congr fun character _ => map_upper_utf8 character

/-- Different characters have different bytes. -/
theorem encoded_inj {first second : List Char} (same : encoded first = encoded second) :
    first = second :=
  calc first
    _ = Bytes.decode (encoded first) := (Bytes.decode_encoded first).symm
    _ = Bytes.decode (encoded second) := congrArg Bytes.decode same
    _ = second := Bytes.decode_encoded second

end EntryShape

/-- The bytes of a text in capitals. -/
theorem Bytes.ofString_upper (text : String) :
    ofString (Text.upper text) = (ofString text).map Byte.upper := by
  rw [ofString, Text.upper, String.toList_ofList]
  exact (EntryShape.map_upper_encoded_eq text.toList).symm

/-- Names are the same up to case exactly if their bytes are. -/
theorem Bytes.sameIgnoringCase_ofString (first second : String) :
    sameIgnoringCase (ofString first) (ofString second) = Text.sameName first second := by
  rw [sameIgnoringCase, Text.sameName, ← ofString_upper, ← ofString_upper, Bool.eq_iff_iff,
    beq_iff_eq, beq_iff_eq]
  constructor
  · intro same
    exact String.toList_inj.mp (EntryShape.encoded_inj same)
  · intro same
    rw [same]

end QueryScope
