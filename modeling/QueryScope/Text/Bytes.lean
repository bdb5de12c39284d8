/-!
# Texts as bytes

Offsets into a query count the bytes of its UTF-8 form, so everything that looks for
structure works on a list of bytes. This module encodes a text, decodes it again, and names
the few bytes and byte classes that matter to the query language. All classes and the case
map are those of ASCII: a byte of a longer character is never a letter, and it is always
part of a word.
-/

namespace QueryScope

/-- The UTF-8 form of a text. -/
abbrev Bytes := List UInt8

namespace Byte

/-- The byte of `(`. -/
def openParen : UInt8 := 0x28

/-- The byte of `)`. -/
def closeParen : UInt8 := 0x29

/-- The byte of a space. -/
def space : UInt8 := 0x20

/-- The byte that ends a line. -/
def lineFeed : UInt8 := 0x0A

/-- The byte of a single quote. -/
def singleQuote : UInt8 := 0x27

/-- The byte of a double quote. -/
def doubleQuote : UInt8 := 0x22

/-- The byte of a hyphen. -/
def hyphen : UInt8 := 0x2D

/-- The byte of a slash. -/
def slash : UInt8 := 0x2F

/-- The byte of an asterisk. -/
def asterisk : UInt8 := 0x2A

/-- The byte of a comma. -/
def comma : UInt8 := 0x2C

/-- The byte of a full stop. -/
def dot : UInt8 := 0x2E

/-- ASCII letters in either case. -/
def isLetter (byte : UInt8) : Bool :=
  decide (0x41 ≤ byte ∧ byte ≤ 0x5A) || decide (0x61 ≤ byte ∧ byte ≤ 0x7A)

/-- ASCII digits. -/
def isDigit (byte : UInt8) : Bool := decide (0x30 ≤ byte ∧ byte ≤ 0x39)

/-- The blanks that separate words: space, tab, line feed, form feed and carriage return. -/
def isBlank (byte : UInt8) : Bool :=
  byte == 0x20 || byte == 0x09 || byte == 0x0A || byte == 0x0C || byte == 0x0D

/-- Bytes of characters outside ASCII. -/
def isWide (byte : UInt8) : Bool := decide (0x80 ≤ byte)

/-- Bytes that continue a character and so never start one. -/
def continuesCharacter (byte : UInt8) : Bool := decide (0x80 ≤ byte ∧ byte < 0xC0)

/-- Bytes of a word: letters, digits, the underscore, `$`, `#`, `@` and every wide byte. -/
def isWordByte (byte : UInt8) : Bool :=
  isLetter byte || isDigit byte || byte == 0x5F || byte == 0x24 || byte == 0x23 || byte == 0x40
    || isWide byte

/-- Bytes that may begin a word: letters, the underscore and every wide byte. -/
def startsWord (byte : UInt8) : Bool := isLetter byte || byte == 0x5F || isWide byte

/-- ASCII capital form; every other byte is left alone. -/
def upper (byte : UInt8) : UInt8 :=
  if 0x61 ≤ byte ∧ byte ≤ 0x7A then byte - 0x20 else byte

end Byte

namespace Bytes

/-- The bytes of a text, character after character. -/
def ofString (text : String) : Bytes := text.toList.flatMap String.utf8EncodeChar

/-- The character that stands where bytes do not form one. -/
def replacement : Char := Char.ofNat 0xFFFD

/-- The characters that bytes spell. The first byte of a character tells how many follow, and
each of those adds six bits. On the bytes of a text this gives back the text's characters;
a character cut short at the end is read as the replacement character. -/
def decode : Bytes → List Char
  | [] => []
  | first :: rest =>
    if first < 0x80 then
      Char.ofNat first.toNat :: decode rest
    else match rest with
      | [] => [replacement]
      | second :: rest =>
        if first < 0xE0 then
          Char.ofNat (first.toNat % 32 * 64 + second.toNat % 64) :: decode rest
        else match rest with
          | [] => [replacement]
          | third :: rest =>
            if first < 0xF0 then
              Char.ofNat (first.toNat % 16 * 4096 + second.toNat % 64 * 64 + third.toNat % 64)
                :: decode rest
            else match rest with
              | [] => [replacement]
              | fourth :: rest =>
                Char.ofNat (first.toNat % 8 * 262144 + second.toNat % 64 * 4096
                  + third.toNat % 64 * 64 + fourth.toNat % 64) :: decode rest

/-- The text that bytes spell. -/
def text (bytes : Bytes) : String := String.ofList (decode bytes)

/-- The number of bytes that characters take. -/
def width : List Char → Nat
  | [] => 0
  | character :: rest => character.utf8Size + width rest

/-- Equality that does not tell the two cases of an ASCII letter apart. -/
def sameIgnoringCase (left right : Bytes) : Bool := left.map Byte.upper == right.map Byte.upper

/-- Whether `offset` falls between two characters, before the first or after the last. -/
def isBoundary (bytes : Bytes) (offset : Nat) : Bool :=
  match bytes[offset]? with
  | some byte => !Byte.continuesCharacter byte
  | none => offset == bytes.length

/-- How often `needle` occurs, counted at every place where a copy begins. -/
def occurrences (needle : Bytes) : Bytes → Nat
  | [] => 0
  | byte :: rest =>
    (if needle.isPrefixOf (byte :: rest) then 1 else 0) + occurrences needle rest

end Bytes

end QueryScope
