/-!
# Reading JSON

A document is read strictly: it is one value with blanks around it, and nothing else. The reader
keeps what a record's reader has to know about: members in order, also when a name repeats, and
whether a number is written as a natural number. A text that names half of a surrogate pair has
correct syntax but spells nothing, and is kept as such.
-/

namespace QueryScope.Json

/-- A document as it is written. -/
inductive Document where
  | null
  | boolean (value : Bool)
  /-- A number; its value is known when it is written with digits alone. -/
  | number (natural : Option Nat)
  /-- A text, or nothing if its escapes do not spell one. -/
  | text (value : Option String)
  | list (elements : List Document)
  | record (members : List (Option String × Document))
deriving Repr, Inhabited

namespace Document

/-- The blanks between the parts of a document. -/
def isBlank (character : Char) : Bool :=
  character == ' ' || character == '\t' || character == '\n' || character == '\r'

/-- Characters without the blanks in front. -/
def skipBlanks (characters : List Char) : List Char := characters.dropWhile isBlank

/-- The value of a digit to base sixteen. -/
def hexDigit? (character : Char) : Option Nat :=
  if character.isDigit then some (character.toNat - '0'.toNat)
  else if 'a' ≤ character ∧ character ≤ 'f' then some (character.toNat - 'a'.toNat + 10)
  else if 'A' ≤ character ∧ character ≤ 'F' then some (character.toNat - 'A'.toNat + 10)
  else none

/-- The value of four digits to base sixteen. -/
def hexCode? (first second third fourth : Char) : Option Nat := do
  let first ← hexDigit? first
  let second ← hexDigit? second
  let third ← hexDigit? third
  let fourth ← hexDigit? fourth
  return ((first * 16 + second) * 16 + third) * 16 + fourth

/-- What a backslash and one character stand for. -/
def simpleEscape? : Char → Option Nat
  | '"' => some 0x22
  | '\\' => some 0x5C
  | '/' => some 0x2F
  | 'b' => some 0x08
  | 'f' => some 0x0C
  | 'n' => some 0x0A
  | 'r' => some 0x0D
  | 't' => some 0x09
  | _ => none

/-- The code points of a text up to its closing quote, halves of surrogate pairs still apart, and
what follows the quote. -/
def readText? : List Char → Option (List Nat × List Char)
  | [] => none
  | '"' :: rest => some ([], rest)
  | '\\' :: 'u' :: first :: second :: third :: fourth :: rest =>
    match hexCode? first second third fourth, readText? rest with
    | some point, some (points, after) => some (point :: points, after)
    | _, _ => none
  | '\\' :: escaped :: rest =>
    match simpleEscape? escaped, readText? rest with
    | some point, some (points, after) => some (point :: points, after)
    | _, _ => none
  | character :: rest =>
    if character.toNat < 0x20 ∨ character = '\\' then none
    else (readText? rest).map fun (points, after) => (character.toNat :: points, after)

/-- Whether a number is the first half of a surrogate pair. -/
def isHighSurrogate (point : Nat) : Bool := decide (0xD800 ≤ point ∧ point < 0xDC00)

/-- Whether a number is the second half of a surrogate pair. -/
def isLowSurrogate (point : Nat) : Bool := decide (0xDC00 ≤ point ∧ point < 0xE000)

/-- The characters that code points spell, with the halves of surrogate pairs put together. -/
def spell? : List Nat → Option (List Char)
  | [] => some []
  | [point] =>
    if isHighSurrogate point || isLowSurrogate point then none else some [Char.ofNat point]
  | point :: next :: rest =>
    if isHighSurrogate point then
      if isLowSurrogate next then
        (spell? rest).map (Char.ofNat (0x10000 + (point - 0xD800) * 0x400 + (next - 0xDC00)) :: ·)
      else
        none
    else if isLowSurrogate point then
      none
    else
      (spell? (next :: rest)).map (Char.ofNat point :: ·)

/-- The digits that the characters begin with, at least one, and what follows. -/
def readDigits? (characters : List Char) : Option (List Char × List Char) :=
  match characters.takeWhile Char.isDigit with
  | [] => none
  | digits => some (digits, characters.dropWhile Char.isDigit)

/-- What follows the fraction that the characters may begin with. -/
def skipFraction? : List Char → Option (List Char)
  | '.' :: rest => (readDigits? rest).map (·.2)
  | characters => some characters

/-- What follows the exponent that the characters may begin with. -/
def skipExponent? : List Char → Option (List Char)
  | mark :: rest =>
    if mark = 'e' ∨ mark = 'E' then
      match rest with
      | sign :: digits =>
        if sign = '+' ∨ sign = '-' then (readDigits? digits).map (·.2)
        else (readDigits? rest).map (·.2)
      | [] => none
    else
      some (mark :: rest)
  | [] => some []

/-- The number that the characters begin with, and what follows. Only zero begins with a zero. -/
def readNumber? (characters : List Char) : Option (Option Nat × List Char) := do
  let unsigned := match characters with
    | '-' :: rest => rest
    | _ => characters
  let (digits, behindDigits) ← readDigits? unsigned
  if digits.head? == some '0' && digits.length != 1 then none
  else
    let behindFraction ← skipFraction? behindDigits
    let behindExponent ← skipExponent? behindFraction
    let isNatural := unsigned.length == characters.length
      && behindExponent.length == behindDigits.length
    let value := digits.foldl (fun value digit => value * 10 + (digit.toNat - '0'.toNat)) 0
    return (if isNatural then some value else none, behindExponent)

mutual

/-- The value that the characters begin with, blanks skipped, and what follows. Every nested value
takes up characters, so their number bounds the nesting. -/
def readValue? : Nat → List Char → Option (Document × List Char)
  | 0, _ => none
  | bound + 1, characters =>
    match skipBlanks characters with
    | '"' :: rest => (readText? rest).map fun (points, after) =>
        (.text ((spell? points).map String.ofList), after)
    | '[' :: rest =>
      match skipBlanks rest with
      | ']' :: after => some (.list [], after)
      | _ => (readElements? bound rest).map fun (elements, after) => (.list elements, after)
    | '\x7b' :: rest =>
      match skipBlanks rest with
      | '\x7d' :: after => some (.record [], after)
      | _ => (readMembers? bound rest).map fun (members, after) => (.record members, after)
    | 't' :: 'r' :: 'u' :: 'e' :: after => some (.boolean true, after)
    | 'f' :: 'a' :: 'l' :: 's' :: 'e' :: after => some (.boolean false, after)
    | 'n' :: 'u' :: 'l' :: 'l' :: after => some (.null, after)
    | other => (readNumber? other).map fun (natural, after) => (.number natural, after)

/-- The elements up to the end of a list, and what follows it. -/
def readElements? : Nat → List Char → Option (List Document × List Char)
  | 0, _ => none
  | bound + 1, characters =>
    match readValue? bound characters with
    | none => none
    | some (element, behind) =>
      match skipBlanks behind with
      | ',' :: rest => (readElements? bound rest).map fun (elements, after) =>
          (element :: elements, after)
      | ']' :: after => some ([element], after)
      | _ => none

/-- The members up to the end of a record, and what follows it. -/
def readMembers? : Nat → List Char → Option (List (Option String × Document) × List Char)
  | 0, _ => none
  | bound + 1, characters =>
    match skipBlanks characters with
    | '"' :: rest =>
      match readText? rest with
      | none => none
      | some (points, behindName) =>
        match skipBlanks behindName with
        | ':' :: valueText =>
          match readValue? bound valueText with
          | none => none
          | some (value, behind) =>
            let member := ((spell? points).map String.ofList, value)
            match skipBlanks behind with
            | ',' :: more => (readMembers? bound more).map fun (members, after) =>
                (member :: members, after)
            | '\x7d' :: after => some ([member], after)
            | _ => none
        | _ => none
    | _ => none

end

/-- The document that a text holds. -/
def parse? (text : String) : Option Document :=
  match readValue? (text.toList.length + 1) text.toList with
  | some (document, rest) => if (skipBlanks rest).isEmpty then some document else none
  | none => none

end Document

end QueryScope.Json
