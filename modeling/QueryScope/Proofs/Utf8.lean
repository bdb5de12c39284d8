import Mathlib.Data.List.Basic
import QueryScope.Text.Checked

/-!
# Bytes that spell a text

A query is handed in as a text, and everything is cut out of its bytes. This module shows that
decoding undoes encoding, and that bytes may be cut wherever no byte in the middle of a
character comes next: the two pieces then spell texts of their own. An ASCII byte never is in
the middle of a character, so the bytes on either side of a parenthesis can be read as texts.
-/

namespace QueryScope

/-- A byte is its own capital form or the small letter of it. -/
theorem Byte.eq_or_eq_of_upper_eq {byte capital : UInt8} (same : Byte.upper byte = capital) :
    byte = capital ∨ byte = capital + 0x20 := by
  simp only [Byte.upper] at same
  split at same
  · right
    rw [← same, UInt8.sub_add_cancel]
  · exact .inl same

/-- A byte that differs from one of ASCII at most in case is of ASCII. -/
theorem Byte.ascii_of_upper_eq {byte other : UInt8} (same : Byte.upper byte = Byte.upper other)
    (ascii : other < 0x80) : byte < 0x80 := by
  simp only [Byte.upper] at same
  split at same
  · rename_i small
    exact UInt8.lt_of_le_of_lt small.2 (by decide)
  · split at same
    · rename_i small
      rw [same]
      simp only [UInt8.le_iff_toNat_le, UInt8.lt_iff_toNat_lt, UInt8.reduceToNat] at small ascii ⊢
      rw [UInt8.toNat_sub_of_le _ _ (UInt8.le_iff_toNat_le.mpr (by
        simp only [UInt8.reduceToNat]; omega))]
      omega
    · rwa [same]

namespace Bytes

/-- Bytes that spell a text. -/
def IsText (bytes : Bytes) : Prop := ∃ text : String, bytes = ofString text

/-- A number below 256 is what the byte made of it stands for. -/
theorem toNat_ofNat_of_lt {value : Nat} (small : value < 256) :
    (UInt8.ofNat value).toNat = value := by
  rw [UInt8.toNat_ofNat', Nat.mod_eq_of_lt small]

/-- A byte of ASCII is a character by itself. -/
theorem decode_ascii {first : UInt8} (ascii : first < 0x80) (rest : Bytes) :
    decode (first :: rest) = Char.ofNat first.toNat :: decode rest := by
  rw [decode.eq_def]
  simp only [ascii, if_true]

/-- Decoding reads one encoded character and goes on behind it. The first byte of the character
tells how many follow, and the bits of all of them together are its number again. -/
theorem decode_utf8EncodeChar_append (character : Char) (rest : Bytes) :
    decode (String.utf8EncodeChar character ++ rest) = character :: decode rest := by
  have valid : character.val.toNat < 0x110000 := by
    have range := character.valid
    simp only [UInt32.isValidChar, Nat.isValidChar] at range
    omega
  have restored : Char.ofNat character.val.toNat = character := Char.ofNat_toNat character
  unfold String.utf8EncodeChar
  dsimp only
  generalize character.val.toNat = point at valid restored
  split
  · have value : (UInt8.ofNat point).toNat = point := toNat_ofNat_of_lt (by omega)
    have first : UInt8.ofNat point < 0x80 := by
      simp only [UInt8.lt_iff_toNat_lt, value, UInt8.reduceToNat]
      omega
    rw [List.singleton_append, decode_ascii first, value, restored]
  · have lead (low : Nat) (bound : Nat) (fits : low + bound ≤ 256) (positive : 0 < bound)
        (part : Nat) : (UInt8.ofNat (part % bound + low)).toNat = part % bound + low := by
      have small := Nat.mod_lt part positive
      exact toNat_ofNat_of_lt (by omega)
    split
    · have first := lead 0xC0 0x20 (by omega) (by omega) (point / 64)
      have second := lead 0x80 0x40 (by omega) (by omega) point
      have notAscii : ¬ UInt8.ofNat (point / 64 % 0x20 + 0xC0) < 0x80 := by
        simp only [UInt8.lt_iff_toNat_lt, first, UInt8.reduceToNat]
        omega
      have two : UInt8.ofNat (point / 64 % 0x20 + 0xC0) < 0xE0 := by
        simp only [UInt8.lt_iff_toNat_lt, first, UInt8.reduceToNat]
        omega
      have number : (point / 64 % 0x20 + 0xC0) % 32 * 64 + (point % 0x40 + 0x80) % 64 = point := by
        omega
      rw [List.cons_append, List.singleton_append, decode.eq_def]
      simp only [notAscii, two, if_true, if_false, first, second, number, restored]
    · split
      · have first := lead 0xE0 0x10 (by omega) (by omega) (point / 4096)
        have second := lead 0x80 0x40 (by omega) (by omega) (point / 64)
        have third := lead 0x80 0x40 (by omega) (by omega) point
        have notAscii : ¬ UInt8.ofNat (point / 4096 % 0x10 + 0xE0) < 0x80 := by
          simp only [UInt8.lt_iff_toNat_lt, first, UInt8.reduceToNat]
          omega
        have notTwo : ¬ UInt8.ofNat (point / 4096 % 0x10 + 0xE0) < 0xE0 := by
          simp only [UInt8.lt_iff_toNat_lt, first, UInt8.reduceToNat]
          omega
        have three : UInt8.ofNat (point / 4096 % 0x10 + 0xE0) < 0xF0 := by
          simp only [UInt8.lt_iff_toNat_lt, first, UInt8.reduceToNat]
          omega
        have number : (point / 4096 % 0x10 + 0xE0) % 16 * 4096
            + (point / 64 % 0x40 + 0x80) % 64 * 64 + (point % 0x40 + 0x80) % 64 = point := by
          omega
        rw [List.cons_append, List.cons_append, List.singleton_append, decode.eq_def]
        simp only [notAscii, notTwo, three, if_true, if_false, first, second, third, number,
          restored]
      · have first := lead 0xF0 0x08 (by omega) (by omega) (point / 262144)
        have second := lead 0x80 0x40 (by omega) (by omega) (point / 4096)
        have third := lead 0x80 0x40 (by omega) (by omega) (point / 64)
        have fourth := lead 0x80 0x40 (by omega) (by omega) point
        have large (limit : UInt8) (below : limit.toNat ≤ 0xF0) :
            ¬ UInt8.ofNat (point / 262144 % 0x08 + 0xF0) < limit := by
          rw [UInt8.lt_iff_toNat_lt, first]
          omega
        have number : (point / 262144 % 0x08 + 0xF0) % 8 * 262144
            + (point / 4096 % 0x40 + 0x80) % 64 * 4096
            + (point / 64 % 0x40 + 0x80) % 64 * 64 + (point % 0x40 + 0x80) % 64 = point := by
          omega
        rw [List.cons_append, List.cons_append, List.cons_append, List.singleton_append,
          decode.eq_def]
        simp only [large 0x80 (by decide), large 0xE0 (by decide), large 0xF0 (by decide),
          if_false, first, second, third, fourth, number, restored]

/-- Decoding the bytes of characters, with any bytes behind them, gives the characters and what the
bytes behind them spell. -/
theorem decode_encoded_append (characters : List Char) (rest : Bytes) :
    decode (characters.flatMap String.utf8EncodeChar ++ rest) = characters ++ decode rest := by
  induction characters with
  | nil => rfl
  | cons character others inductionHypothesis =>
    rw [List.flatMap_cons, List.append_assoc, decode_utf8EncodeChar_append, inductionHypothesis,
      List.cons_append]

/-- The bytes of characters spell the characters. -/
theorem decode_encoded (characters : List Char) :
    decode (characters.flatMap String.utf8EncodeChar) = characters := by
  have decoded := decode_encoded_append characters []
  rwa [List.append_nil, decode, List.append_nil] at decoded

/-- Decoding undoes encoding. -/
theorem decode_ofString (text : String) : decode (ofString text) = text.toList := by
  rw [ofString, decode_encoded]

/-- Bytes that spell a text are the bytes of the text that they spell. -/
theorem IsText.ofString_text {bytes : Bytes} (spells : IsText bytes) :
    ofString (text bytes) = bytes := by
  obtain ⟨original, rfl⟩ := spells
  rw [text, decode_ofString, String.ofList_toList]

/-- Behind bytes that spell a text, decoding starts afresh. -/
theorem IsText.decode_append {bytes : Bytes} (spells : IsText bytes) (rest : Bytes) :
    decode (bytes ++ rest) = decode bytes ++ decode rest := by
  obtain ⟨original, rfl⟩ := spells
  rw [decode_ofString, ofString, decode_encoded_append]

/-- The bytes of characters spell a text. -/
theorem isText_encoded (characters : List Char) :
    IsText (characters.flatMap String.utf8EncodeChar) :=
  ⟨String.ofList characters, by rw [ofString, String.toList_ofList]⟩

/-- What follows a text inside a text is a text. -/
theorem IsText.of_append {first second : Bytes} (left : IsText first)
    (whole : IsText (first ++ second)) : IsText second := by
  refine ⟨text second, ?_⟩
  have restored := whole.ofString_text
  rw [text, left.decode_append, ofString, String.toList_ofList, List.flatMap_append] at restored
  have same := left.ofString_text
  rw [text, ofString, String.toList_ofList] at same
  rw [same, List.append_cancel_left_eq] at restored
  rw [text, ofString, String.toList_ofList, restored]

/-- Two texts in a row are a text. -/
theorem IsText.append {first second : Bytes} (left : IsText first) (right : IsText second) :
    IsText (first ++ second) := by
  obtain ⟨leftText, rfl⟩ := left
  obtain ⟨rightText, rfl⟩ := right
  rw [ofString, ofString, ← List.flatMap_append]
  exact isText_encoded _

/-- A character is encoded by one byte of ASCII, or by bytes that are all outside ASCII. -/
theorem utf8EncodeChar_ascii_or_wide (character : Char) :
    (∃ byte, String.utf8EncodeChar character = [byte] ∧ byte < 0x80) ∨
      ∀ byte ∈ String.utf8EncodeChar character, 0x80 ≤ byte := by
  have wide (part bound low : Nat) (fits : low + bound ≤ 256) (positive : 0 < bound)
      (high : 0x80 ≤ low) : 0x80 ≤ UInt8.ofNat (part % bound + low) := by
    have small := Nat.mod_lt part positive
    have value : (UInt8.ofNat (part % bound + low)).toNat = part % bound + low :=
      toNat_ofNat_of_lt (by omega)
    rw [UInt8.le_iff_toNat_le, value]
    simp only [UInt8.reduceToNat]
    omega
  unfold String.utf8EncodeChar
  dsimp only
  split
  · refine .inl ⟨_, rfl, ?_⟩
    rw [UInt8.lt_iff_toNat_lt, toNat_ofNat_of_lt (by omega)]
    simp only [UInt8.reduceToNat]
    omega
  · right
    intro byte member
    split at member
    · simp only [List.mem_cons, List.not_mem_nil, or_false] at member
      rcases member with rfl | rfl <;> exact wide _ _ _ (by omega) (by omega) (by omega)
    · split at member
      · simp only [List.mem_cons, List.not_mem_nil, or_false] at member
        rcases member with rfl | rfl | rfl <;> exact wide _ _ _ (by omega) (by omega) (by omega)
      · simp only [List.mem_cons, List.not_mem_nil, or_false] at member
        rcases member with rfl | rfl | rfl | rfl <;>
          exact wide _ _ _ (by omega) (by omega) (by omega)

/-- Bytes of ASCII spell a text. -/
theorem isText_of_ascii {bytes : Bytes} (ascii : ∀ byte ∈ bytes, byte < 0x80) : IsText bytes := by
  induction bytes with
  | nil => exact isText_encoded []
  | cons byte rest inductionHypothesis =>
    have small : byte.toNat < 0x80 := by
      have first := ascii byte List.mem_cons_self
      rwa [UInt8.lt_iff_toNat_lt] at first
    have single : String.utf8EncodeChar (Char.ofNat byte.toNat) = [byte] := by
      have valid : byte.toNat.isValidChar := Or.inl (by omega)
      have point : (Char.ofNat byte.toNat).val.toNat = byte.toNat := by
        rw [Char.ofNat, dif_pos valid]
        rfl
      unfold String.utf8EncodeChar
      simp only [point]
      rw [if_pos (by omega), UInt8.ofNat_toNat]
    have front : IsText [byte] := by
      rw [← single, ← List.append_nil (String.utf8EncodeChar _)]
      exact isText_encoded [Char.ofNat byte.toNat]
    exact front.append (inductionHypothesis fun other member =>
      ascii other (List.mem_cons_of_mem _ member))

/-- So does a single one. -/
theorem isText_singleton {byte : UInt8} (ascii : byte < 0x80) : IsText [byte] := by
  apply isText_of_ascii
  intro other member
  rwa [List.mem_singleton.mp member]

/-- Every byte of an encoded character but the first continues it. -/
theorem continuesCharacter_of_utf8EncodeChar {character : Char} {first byte : UInt8}
    {front back : Bytes} (encoded : String.utf8EncodeChar character = first :: front ++ byte :: back) :
    Byte.continuesCharacter byte = true := by
  have continuing (part : Nat) :
      Byte.continuesCharacter (UInt8.ofNat (part % 0x40 + 0x80)) = true := by
    have value : (UInt8.ofNat (part % 0x40 + 0x80)).toNat = part % 0x40 + 0x80 :=
      toNat_ofNat_of_lt (by omega)
    simp only [Byte.continuesCharacter, UInt8.le_iff_toNat_le, UInt8.lt_iff_toNat_lt, value,
      UInt8.reduceToNat, decide_eq_true_eq]
    omega
  have member : byte ∈ (String.utf8EncodeChar character).tail := by simp [encoded]
  unfold String.utf8EncodeChar at member
  dsimp only at member
  split at member
  · cases member
  · split at member
    · simp only [List.tail_cons, List.mem_singleton] at member
      exact member ▸ continuing _
    · split at member
      · simp only [List.tail_cons, List.mem_cons, List.not_mem_nil, or_false] at member
        rcases member with rfl | rfl <;> exact continuing _
      · simp only [List.tail_cons, List.mem_cons, List.not_mem_nil, or_false] at member
        rcases member with rfl | rfl | rfl <;> exact continuing _

/-- A text can be cut in front of any byte that does not continue a character. The characters are
taken one after the other from the piece in front of the cut; none of them can reach across it. -/
theorem IsText.split {first second : Bytes} (spells : IsText (first ++ second))
    (boundary : ∀ byte ∈ second.head?, Byte.continuesCharacter byte = false) :
    IsText first ∧ IsText second := by
  obtain ⟨text, whole⟩ := spells
  rw [ofString] at whole
  generalize text.toList = characters at whole
  induction characters generalizing first with
  | nil =>
    obtain ⟨rfl, rfl⟩ := List.append_eq_nil_iff.mp whole
    exact ⟨isText_encoded [], isText_encoded []⟩
  | cons character others inductionHypothesis =>
    cases first with
    | nil =>
      rw [List.nil_append] at whole
      exact ⟨isText_encoded [], whole ▸ isText_encoded _⟩
    | cons byte front =>
      rw [List.flatMap_cons] at whole
      rcases List.append_eq_append_iff.mp whole with ⟨reach, encoded, rest⟩ | ⟨reach, taken, rest⟩
      · cases reach with
        | nil =>
          rw [List.append_nil] at encoded
          rw [List.nil_append] at rest
          refine ⟨?_, rest ▸ isText_encoded _⟩
          rw [← encoded, ← List.append_nil (String.utf8EncodeChar character),
            ← List.flatMap_nil, ← List.flatMap_cons]
          exact isText_encoded [character]
        | cons next beyond =>
          have continues := continuesCharacter_of_utf8EncodeChar encoded
          have notContinues := boundary next (by simp [rest])
          rw [continues] at notContinues
          cases notContinues
      · obtain ⟨frontSpells, secondSpells⟩ := inductionHypothesis rest.symm
        refine ⟨?_, secondSpells⟩
        rw [taken, ← List.append_nil (String.utf8EncodeChar character)]
        exact (isText_encoded [character]).append frontSpells

/-- A text can be cut out on either side of a byte of ASCII. -/
theorem IsText.split_ascii {first second : Bytes} {byte : UInt8}
    (spells : IsText (first ++ byte :: second)) (ascii : byte < 0x80) :
    IsText first ∧ IsText second := by
  have notContinuing : Byte.continuesCharacter byte = false := by
    rw [Byte.continuesCharacter, decide_eq_false_iff_not]
    rintro ⟨high, _⟩
    exact absurd ascii (UInt8.not_lt.mpr high)
  obtain ⟨firstSpells, restSpells⟩ := spells.split (by simpa using notContinuing)
  refine ⟨firstSpells, ?_⟩
  obtain ⟨text, whole⟩ := restSpells
  rw [ofString] at whole
  cases characters : text.toList with
  | nil =>
    rw [characters] at whole
    cases whole
  | cons character others =>
    rw [characters, List.flatMap_cons] at whole
    rcases utf8EncodeChar_ascii_or_wide character with ⟨single, encoded, _⟩ | wide
    · rw [encoded, List.singleton_append, List.cons.injEq] at whole
      exact whole.2 ▸ isText_encoded others
    · cases encoded : String.utf8EncodeChar character with
      | nil => exact absurd encoded String.utf8EncodeChar_ne_nil
      | cons lead front =>
        rw [encoded, List.cons_append, List.cons.injEq] at whole
        have high := wide lead (by simp [encoded])
        rw [← whole.1] at high
        exact absurd ascii (UInt8.not_lt.mpr high)

/-- The bytes of a text are as many as its size says. -/
theorem length_ofString (text : String) : (ofString text).length = text.utf8ByteSize := by
  conv_rhs => rw [← String.ofList_toList (s := text)]
  exact List.size_toByteArray.symm

end Bytes

end QueryScope
