import Mathlib.Data.List.Basic
import QueryScope.Proofs.Alignment
import QueryScope.Proofs.AliasPlaces

/-!
# Two readers of one alias

The alias behind a subquery is read twice: as a word of the code, and as an identifier among the
characters of an entry. Words and identifiers differ. A word needs no blank in front of it, and
every character outside ASCII belongs to one; an identifier needs a blank and has few letters. So
the reader of entries finds the alias that stands in the code exactly if a blank comes first and the
word is an identifier. What it reads between quotes is no alias of the subquery: a word in front of
a quote is never read as one.
-/

namespace QueryScope

open Bytes EntryShape BareName

namespace Identifier

/-- Whether characters are `AS` when case is disregarded. Besides `AS` itself, these are the two
spellings with a long s, which are not reserved. -/
def spellsAs : List Char → Bool
  | [first, second] => Letters.foldsTo 'A' first && Letters.foldsTo 'S' second
  | _ => false

/-- A letter that equals `S` goes on with a name. -/
theorem continuesName_of_foldsTo {character : Char} (folds : Letters.foldsTo 'S' character = true) :
    continuesName .folded character = true := by
  simp only [Letters.foldsTo, Bool.or_eq_true, Bool.and_eq_true, beq_iff_eq] at folds
  rcases folds with (same | ⟨_, rfl⟩) | ⟨isKelvin, _⟩
  · have capital : continuesName .folded character.toUpper = true := by
      rw [same]
      rfl
    rwa [← Function.comp_apply (f := continuesName .folded), continuesName_comp_toUpper] at capital
  · decide
  · exact absurd isKelvin (by decide)

/-- A whole name is read from its beginning up to the first character that does not go on with it. -/
theorem read?_append {letters : Letters} {name more : List Char} (noQuote : '"' ∉ name)
    (whole : isWhole letters name = true)
    (ended : more.head?.any (continuesName letters) = false) :
    read? letters (name ++ more) = some (name, more) := by
  have bare := bare_of_isWhole noQuote whole
  cases name with
  | nil => exact absurd rfl bare.nonempty
  | cons first others =>
    have notQuoted : (first == '"') = false := by
      rw [beq_eq_false_iff_ne]
      rintro rfl
      exact noQuote List.mem_cons_self
    have starts : startsName letters first = true := by
      by_contra notStarts
      simp [isWhole, read?, notQuoted, notStarts] at whole
    have continues : ∀ character ∈ others, continuesName letters character = true :=
      fun character member => bare.continues character (List.mem_cons_of_mem _ member)
    have stops : more.takeWhile (continuesName letters) = [] ∧
        more.dropWhile (continuesName letters) = more := by
      cases more with
      | nil => exact ⟨rfl, rfl⟩
      | cons next rest =>
        rw [List.head?_cons, Option.any_some] at ended
        rw [List.takeWhile_cons, List.dropWhile_cons, ended]
        exact ⟨rfl, rfl⟩
    simp only [List.cons_append, read?, notQuoted, starts, Bool.false_eq_true, if_false, if_true]
    rw [List.takeWhile_append_of_pos continues, List.dropWhile_append_of_pos continues, stops.1,
      stops.2, List.append_nil]

/-- A name other than `AS` is not passed over as `AS`. -/
theorem afterAs?_append {name more : List Char} (bare : Bare .folded name)
    (notAs : spellsAs name = false) (ended : more.head?.any (continuesName .folded) = false) :
    afterAs? (name ++ more) = none := by
  match name, bare with
  | [], bare => exact absurd rfl bare.nonempty
  | [first], _ =>
    cases more with
    | nil => rfl
    | cons second rest =>
      have notS : Letters.foldsTo 'S' second = false := by
        rw [Bool.eq_false_iff]
        intro folds
        rw [List.head?_cons, Option.any_some, continuesName_of_foldsTo folds] at ended
        cases ended
      simp [afterAs?, notS]
  | [first, second], _ =>
    rw [spellsAs] at notAs
    simp [afterAs?, notAs]
  | first :: second :: third :: others, bare =>
    have solid := not_isBlank_of_continuesName (bare.continues third (by simp))
    simp [afterAs?, solid]

/-- What is read from characters that do not begin with a quote is a whole bare name. -/
theorem isWhole_of_read? {letters : Letters} {characters name rest : List Char}
    (notQuoted : characters.head? ≠ some '"')
    (reading : read? letters characters = some (name, rest)) :
    isWhole letters name = true ∧ Bare letters name ∧ name.head? ≠ some '"' := by
  obtain ⟨_, bare⟩ := bare_of_read? notQuoted reading
  cases characters with
  | nil => cases reading
  | cons first others =>
    have isBare : (first == '"') = false := by simpa using notQuoted
    simp only [read?, isBare, Bool.false_eq_true, if_false] at reading
    split at reading
    · rename_i starts
      cases reading
      refine ⟨?_, bare, notQuoted⟩
      have nothing : (others.takeWhile (continuesName letters)).dropWhile
          (continuesName letters) = [] :=
        List.dropWhile_eq_nil_iff.mpr fun character member => List.mem_takeWhile_imp member
      simp only [isWhole, read?, isBare, starts, Bool.false_eq_true, if_false, if_true, nothing]
    · cases reading

/-- A bare name stands for itself. -/
theorem unquote_of_head? {name : List Char} (notQuoted : name.head? ≠ some '"') :
    unquote (String.ofList name) = String.ofList name := by
  rw [unquote, String.toList_ofList]
  split
  · exact absurd rfl notQuoted
  · rfl

end Identifier

/-- Whether a character may stand between a name and its alias: a blank or a letter of `AS`. -/
def mayPass (character : Char) : Bool :=
  Text.isBlank character || Letters.foldsTo 'A' character || Letters.foldsTo 'S' character

namespace BareName.PassedOver

variable {used rest name after : List Char}

/-- Only such characters are passed over. -/
theorem mayPass (passed : PassedOver used) : ∀ character ∈ used, mayPass character = true := by
  intro character member
  cases passed with
  | bare blank => simp [QueryScope.mayPass, blank character member]
  | explicit blankBefore isA isS blankBehind _ =>
    rw [List.mem_append, List.mem_cons, List.mem_cons] at member
    rcases member with inFront | rfl | rfl | inBack
    · simp [QueryScope.mayPass, blankBefore character inFront]
    · simp [QueryScope.mayPass, isA]
    · simp [QueryScope.mayPass, isS]
    · simp [QueryScope.mayPass, blankBehind character inBack]

/-- An identifier behind what is passed over is read as an alias. -/
theorem readAlias? (passed : PassedOver used) (begins : used.head?.any Text.isBlank = true)
    (reading : Identifier.read? .folded rest = some (name, after))
    (notAs : Identifier.afterAs? rest = none) (offset : Nat) :
    FromEntry.readAlias? offset (used ++ rest) = some ⟨offset + width used, name⟩ := by
  have beginsBlank : (used ++ rest).head?.any Text.isBlank = true := by
    cases used with
    | nil => cases begins
    | cons first others => exact begins
  have place : width (used ++ rest) - width rest = width used := by
    rw [width_append, Nat.add_sub_cancel]
  have skips {blanks : List Char}
      (blank : ∀ character ∈ blanks, Text.isBlank character = true) :
      (blanks ++ rest).dropWhile Text.isBlank = rest := by
    obtain ⟨rfl, solid⟩ := Identifier.append_of_read? reading
    rw [List.dropWhile_append_of_pos blank]
    obtain ⟨first, others, rfl, isSolid⟩ := solid.first
    rw [List.cons_append, List.dropWhile_cons, isSolid]
    rfl
  simp only [FromEntry.readAlias?, beginsBlank, if_true]
  cases passed with
  | bare blank => simp only [skips blank, notAs, Option.bind_none, Option.none_or, reading,
      Option.map_some, place]
  | @explicit before behind first second blankBefore isA isS blankBehind apart =>
    have solid := not_isBlank_of_foldsTo (by decide) isA
    have ahead : ((before ++ first :: second :: behind) ++ rest).dropWhile Text.isBlank =
        first :: second :: (behind ++ rest) := by
      rw [List.append_assoc, List.dropWhile_append_of_pos blankBefore, List.cons_append,
        List.cons_append, List.dropWhile_cons, solid]
      rfl
    have blankFirst : (behind ++ rest).head?.any Text.isBlank = true := by
      obtain ⟨blank, others, rfl⟩ := List.exists_cons_of_ne_nil apart
      exact blankBehind blank List.mem_cons_self
    have skipped : Identifier.afterAs? (first :: second :: (behind ++ rest)) = some rest := by
      simp only [Identifier.afterAs?, isA, isS, blankFirst, Bool.and_true, if_true, skips blankBehind]
    simp only [ahead, skipped, Option.bind_some, reading, Option.map_some, place, Option.some_or]

end BareName.PassedOver

/-- Blank bytes are blank characters. -/
theorem isBlank_of_mem_decode {blanks : Bytes} (blank : ∀ byte ∈ blanks, Byte.isBlank byte = true) :
    ∀ character ∈ decode blanks, Text.isBlank character = true := by
  induction blanks with
  | nil =>
    intro character member
    cases member
  | cons byte rest inductionHypothesis =>
    have isBlank := blank byte List.mem_cons_self
    rw [decode_ascii (Byte.ascii_of_blank isBlank)]
    intro character member
    rcases List.mem_cons.mp member with rfl | further
    · rcases Byte.blank_eq isBlank with rfl | rfl | rfl | rfl | rfl <;> decide
    · exact inductionHypothesis (fun other later => blank other (List.mem_cons_of_mem _ later))
        character further

/-- All bytes of a character that goes on with a name belong to a word. -/
theorem isWordByte_of_continuesName {character : Char}
    (continues : Identifier.continuesName .folded character = true) :
    ∀ byte ∈ String.utf8EncodeChar character, Byte.isWordByte byte = true := by
  have checked := Byte.forall_of_all (fun byte => Byte.isWordByte byte ||
    !Identifier.continuesName .folded (Char.ofNat byte.toNat)) (by decide +kernel)
  intro byte member
  by_cases ascii : byte < 0x80
  · have isCharacter := eq_of_mem_utf8EncodeChar ascii member
    have here := checked byte
    rwa [← isCharacter, continues, Bool.not_true, Bool.or_false] at here
  · have wide : Byte.isWide byte = true := decide_eq_true (UInt8.not_lt.mp ascii)
    rw [Byte.isWordByte, wide, Bool.or_true]

/-- So where no word goes on, no name does. -/
theorem not_continuesName_of_head? {bytes : Bytes} (spells : IsText bytes)
    (noWord : bytes.head?.any Byte.isWordByte = false) :
    (decode bytes).head?.any (Identifier.continuesName .folded) = false := by
  have isBytes := EntryPlace.encoded_decode spells
  cases isDecoded : decode bytes with
  | nil => rfl
  | cons character rest =>
    rw [isDecoded, encoded_cons] at isBytes
    obtain ⟨byte, others, isEncoded⟩ :=
      List.exists_cons_of_ne_nil (String.utf8EncodeChar_ne_nil (c := character))
    rw [List.head?_cons, Option.any_some, Bool.eq_false_iff]
    intro continues
    have isWord := isWordByte_of_continuesName continues byte (by simp [isEncoded])
    rw [← isBytes, isEncoded, List.cons_append, List.head?_cons, Option.any_some, isWord] at noWord
    cases noWord

namespace Introduces

variable {gap : Bytes}

/-- The bytes of `AS` are two letters. -/
theorem exists_of_isAs {keyword : Bytes} (isAs : sameIgnoringCase keyword (ofString "AS") = true) :
    ∃ first second, keyword = [first, second] ∧ (first = 0x41 ∨ first = 0x61) ∧
      (second = 0x53 ∨ second = 0x73) := by
  have capitals : keyword.map Byte.upper = [0x41, 0x53] := by
    rw [sameIgnoringCase, beq_iff_eq] at isAs
    rw [isAs]
    decide
  obtain ⟨first, others, rfl, isA, rest⟩ := List.map_eq_cons_iff.mp capitals
  obtain ⟨second, others, rfl, isS, rest⟩ := List.map_eq_cons_iff.mp rest
  obtain rfl := List.map_eq_nil_iff.mp rest
  exact ⟨first, second, rfl, Byte.eq_or_eq_of_upper_eq isA, Byte.eq_or_eq_of_upper_eq isS⟩

/-- An introduction is made of ASCII. -/
theorem ascii (introduced : Introduces gap) : ∀ byte ∈ gap, byte < 0x80 := by
  cases introduced with
  | bare blank => exact fun byte member => Byte.ascii_of_blank (blank byte member)
  | explicit blankBefore isAs blankBehind _ =>
    obtain ⟨first, second, rfl, isA, isS⟩ := exists_of_isAs isAs
    intro byte member
    simp only [List.mem_append, List.mem_cons, List.not_mem_nil, or_false] at member
    rcases member with inFront | (rfl | rfl) | inBack
    · exact Byte.ascii_of_blank (blankBefore byte inFront)
    · rcases isA with rfl | rfl <;> decide
    · rcases isS with rfl | rfl <;> decide
    · exact Byte.ascii_of_blank (blankBehind byte inBack)

/-- What introduces an alias in the code is passed over by the reader of entries. -/
theorem passedOver (introduced : Introduces gap) : PassedOver (decode gap) := by
  cases introduced with
  | bare blank => exact .bare (isBlank_of_mem_decode blank)
  | @explicit before keyword behind blankBefore isAs blankBehind apart =>
    obtain ⟨first, second, rfl, isA, isS⟩ := exists_of_isAs isAs
    have front : IsText before :=
      isText_of_ascii fun byte member => Byte.ascii_of_blank (blankBefore byte member)
    have firstAscii : first < 0x80 := by rcases isA with rfl | rfl <;> decide
    have secondAscii : second < 0x80 := by rcases isS with rfl | rfl <;> decide
    rw [front.decode_append, List.cons_append, List.singleton_append, decode_ascii firstAscii,
      decode_ascii secondAscii]
    refine .explicit (isBlank_of_mem_decode blankBefore) ?_ ?_ (isBlank_of_mem_decode blankBehind) ?_
    · rcases isA with rfl | rfl <;> decide
    · rcases isS with rfl | rfl <;> decide
    · obtain ⟨blank, others, rfl⟩ := List.exists_cons_of_ne_nil apart
      rw [decode_ascii (Byte.ascii_of_blank (blankBehind blank List.mem_cons_self))]
      exact List.cons_ne_nil _ _

end Introduces

namespace AliasAt

variable {code gap : Bytes} {offset : Nat} {name : String}

/-- A word has no quotes. -/
theorem noQuote (aliasAt : AliasAt code offset gap name) : '"' ∉ name.toList := by
  intro member
  have isByte : Byte.doubleQuote ∈ ofString name :=
    List.mem_flatMap.mpr ⟨'"', member, by decide⟩
  exact absurd (aliasAt.isWord _ isByte) (by decide)

/-- The characters of an alias and what is on either side of it. -/
theorem exists_decode (aliasAt : AliasAt code offset gap name) :
    ∃ back, code.drop offset = gap ++ (ofString name ++ back) ∧
      decode (code.drop offset) = decode gap ++ (name.toList ++ decode back) ∧
      back.head?.any Byte.isWordByte = false := by
  obtain ⟨back, ahead, ended⟩ := aliasAt.here
  have gapText := isText_of_ascii aliasAt.introduced.ascii
  have nameText : IsText (ofString name) := ⟨name, rfl⟩
  refine ⟨back, ahead, ?_, ended⟩
  rw [ahead, gapText.decode_append, nameText.decode_append, decode_ofString]

/-- What comes first, the code and the characters tell alike whether it is a blank. -/
theorem isBlank_head?_decode (aliasAt : AliasAt code offset gap name)
    (whole : Identifier.isWhole .folded name.toList = true) :
    (decode (code.drop offset)).head?.any Text.isBlank = code[offset]?.any Byte.isBlank := by
  obtain ⟨back, ahead, split, _⟩ := aliasAt.exists_decode
  rw [split, ← List.head?_drop, ahead]
  cases gap with
  | nil =>
    have bare := bare_of_isWhole aliasAt.noQuote whole
    obtain ⟨character, characters, isName⟩ := List.exists_cons_of_ne_nil bare.nonempty
    obtain ⟨byte, bytes, isBytes⟩ := List.exists_cons_of_ne_nil aliasAt.nonempty
    have solid : Text.isBlank character = false :=
      not_isBlank_of_continuesName (bare.continues character (by simp [isName]))
    have solidByte := aliasAt.solid byte (by simp [isBytes])
    rw [isName, isBytes]
    exact solid.trans solidByte.symm
  | cons byte others =>
    have checked := Byte.forall_of_all (fun byte => !(Byte.isBlank byte || Byte.isWordByte byte) ||
      decide (0x80 ≤ byte) || Text.isBlank (Char.ofNat byte.toNat) == Byte.isBlank byte)
      (by decide +kernel) byte
    have ascii := aliasAt.introduced.ascii byte List.mem_cons_self
    have isKnown := aliasAt.introduced.blank_or_word byte List.mem_cons_self
    rw [← Bool.or_eq_true] at isKnown
    rw [isKnown, decide_eq_false (UInt8.not_le.mpr ascii), Bool.not_true, Bool.false_or,
      Bool.false_or, beq_iff_eq] at checked
    rw [decode_ascii ascii]
    exact checked

/-- Behind a blank, an alias that is an identifier is read from the characters of an entry. -/
theorem readAlias?_eq_some (aliasAt : AliasAt code offset gap name)
    (spells : IsText (code.drop offset))
    (whole : Identifier.isWhole .folded name.toList = true)
    (notAs : Identifier.spellsAs name.toList = false)
    (blank : code[offset]?.any Byte.isBlank = true) (place : Nat) :
    FromEntry.readAlias? place (decode (code.drop offset)) =
      some ⟨place + width (decode gap), name.toList⟩ := by
  have begins := aliasAt.isBlank_head?_decode whole
  obtain ⟨back, ahead, split, noWord⟩ := aliasAt.exists_decode
  have bare := bare_of_isWhole aliasAt.noQuote whole
  have ended : (decode back).head?.any (Identifier.continuesName .folded) = false := by
    rw [ahead] at spells
    have afterGap := (isText_of_ascii aliasAt.introduced.ascii).of_append spells
    exact not_continuesName_of_head? (IsText.of_append ⟨name, rfl⟩ afterGap) noWord
  rw [split, blank] at begins
  rw [split]
  apply aliasAt.introduced.passedOver.readAlias?
  · cases isGap : decode gap with
    | nil =>
      obtain ⟨character, characters, isName⟩ := List.exists_cons_of_ne_nil bare.nonempty
      have solid := not_isBlank_of_continuesName (bare.continues character (by simp [isName]))
      rw [isGap, isName, List.nil_append, List.cons_append, List.head?_cons, Option.any_some,
        solid] at begins
      cases begins
    | cons character characters =>
      rw [isGap] at begins
      exact begins
  · exact Identifier.read?_append aliasAt.noQuote whole ended
  · exact Identifier.afterAs?_append bare notAs ended

/-- No alias is read where no blank comes first. -/
theorem readAlias?_eq_none (aliasAt : AliasAt code offset gap name)
    (whole : Identifier.isWhole .folded name.toList = true)
    (glued : code[offset]?.any Byte.isBlank = false) {after : List Char} {rest : Bytes}
    (split : code.drop offset = encoded after ++ rest) (place : Nat) :
    FromEntry.readAlias? place after = none := by
  have begins := aliasAt.isBlank_head?_decode whole
  rw [glued, split, encoded, decode_encoded_append] at begins
  have solid : after.head?.any Text.isBlank = false := by
    cases after with
    | nil => rfl
    | cons first others => exact begins
  simp only [FromEntry.readAlias?, solid, Bool.false_eq_true, if_false]

end AliasAt

namespace Subquery

/-- Behind blanks and letters of `AS` comes a quote. -/
def QuoteAhead (ahead : Bytes) : Prop :=
  ∃ used back, ahead = encoded used ++ Byte.doubleQuote :: back ∧
    ∀ character ∈ used, mayPass character = true

/-- A front without a mark ends before the mark does. -/
theorem exists_more_of_not_mem {front behind used back : Bytes} {mark : UInt8}
    (same : front ++ behind = used ++ mark :: back) (absent : mark ∉ front) :
    ∃ more, used = front ++ more ∧ behind = more ++ mark :: back := by
  rcases List.append_eq_append_iff.mp same with ⟨more, isUsed, isBehind⟩ | ⟨more, isFront, isBack⟩
  · exact ⟨more, isUsed, isBehind⟩
  · cases more with
    | nil => exact ⟨[], by rw [isFront, List.append_nil, List.append_nil], isBack.symm⟩
    | cons first others =>
      cases isBack
      exact absurd (isFront ▸ List.mem_append_right _ List.mem_cons_self) absent

/-- A word that is met in front of the quote leaves the quote ahead, and all letters of the word are
those of `AS`. -/
theorem QuoteAhead.of_next? {code : Bytes} (spells : IsText code) {offset : Nat}
    (quote : QuoteAhead (code.drop offset)) {word : Word}
    (met : Word.next? code offset = some word) :
    QuoteAhead (code.drop word.span.stop) ∧
      ∀ byte ∈ word.spelling, Byte.isLetter byte = true →
        Byte.upper byte = 0x41 ∨ Byte.upper byte = 0x53 := by
  obtain ⟨used, back, isAhead, passes⟩ := quote
  obtain ⟨blanks, behind, ahead, blank, isWord, _, ended, place⟩ := Word.split_of_next?_eq_some met
  have isBehind := Word.drop_stop ahead place
  have noQuote : Byte.doubleQuote ∉ blanks ++ word.spelling := by
    intro member
    rcases List.mem_append.mp member with inBlanks | inWord
    · exact absurd (blank _ inBlanks) (by decide)
    · exact absurd (isWord _ inWord) (by decide)
  obtain ⟨more, isUsed, isRest⟩ : ∃ more, encoded used = (blanks ++ word.spelling) ++ more ∧
      behind = more ++ Byte.doubleQuote :: back := by
    rw [isAhead, ← List.append_assoc] at ahead
    exact exists_more_of_not_mem ahead.symm noQuote
  have text := Window.isText_drop_of_next? spells met
  rw [isBehind, isRest] at text
  have moreText := (text.split_ascii (by decide)).1
  have frontText : IsText (blanks ++ word.spelling) := by
    have whole := isText_encoded used
    change IsText (encoded used) at whole
    rw [isUsed] at whole
    exact (whole.split moreText.not_continues_head).1
  have characters : used = decode (blanks ++ word.spelling) ++ decode more := by
    rw [← frontText.decode_append, ← isUsed, decode_encoded]
  refine ⟨⟨decode more, back, ?_, ?_⟩, ?_⟩
  · rw [isBehind, isRest, EntryPlace.encoded_decode moreText]
  · intro character member
    apply passes
    rw [characters]
    exact List.mem_append_right _ member
  · have checked := Byte.forall_of_all (fun byte => !(Byte.isLetter byte &&
      mayPass (Char.ofNat byte.toNat)) || Byte.upper byte == 0x41 || Byte.upper byte == 0x53)
      (by decide +kernel)
    intro byte member letter
    have isUsedByte : byte ∈ encoded used := by
      rw [isUsed]
      exact List.mem_append_left _ (List.mem_append_right _ member)
    have ascii : byte < 0x80 := by
      have small := Byte.forall_of_all (fun byte => !Byte.isLetter byte || decide (byte < 0x80))
        (by decide +kernel) byte
      rwa [letter, Bool.not_true, Bool.false_or, decide_eq_true_eq] at small
    have passed := passes _ (mem_of_mem_encoded ascii isUsedByte)
    have here := checked byte
    rw [letter, passed] at here
    simpa using here

/-- An alias may not end in front of such a quote. -/
theorem QuoteAhead.aliasMayEnd {code : Bytes} (spells : IsText code) {offset : Nat}
    (quote : QuoteAhead (code.drop offset)) : aliasMayEnd code offset = false := by
  have noFollower : (Word.next? code offset).any (fun word => aliasFollowers.any word.is) = false := by
    have letters : aliasFollowers.all
        (fun follower => (ofString follower).all Byte.isLetter) = true := by decide +kernel
    have others : aliasFollowers.all (fun follower => !((ofString follower).map Byte.upper).all
        (fun byte => byte == 0x41 || byte == 0x53)) = true := by decide +kernel
    cases met : Word.next? code offset with
    | none => rfl
    | some word =>
      have spelled := (quote.of_next? spells met).2
      rw [Option.any_some, Bool.eq_false_iff]
      intro follows
      obtain ⟨follower, isFollower, same⟩ := List.any_eq_true.mp follows
      rw [Word.is, sameIgnoringCase, beq_iff_eq] at same
      have onlyLetters := Keyword.isLetter_of_mem_spelled same
        (List.all_eq_true.mp (List.all_eq_true.mp letters follower isFollower))
      have onlyThese : ((ofString follower).map Byte.upper).all
          (fun byte => byte == 0x41 || byte == 0x53) = true := by
        rw [← same, List.all_map, List.all_eq_true]
        intro byte member
        simpa using spelled byte member (onlyLetters byte member)
      have another := List.all_eq_true.mp others follower isFollower
      rw [onlyThese] at another
      cases another
  obtain ⟨used, back, isAhead, passes⟩ := quote
  have characters : decode (code.drop offset) = used ++ '"' :: decode back := by
    rw [isAhead, encoded, decode_encoded_append, decode_ascii (by decide)]
    rfl
  have solid (used : List Char) (passes : ∀ character ∈ used, mayPass character = true) :
      ∃ next rest, Text.dropLeadingBlanks (used ++ '"' :: decode back) = next :: rest ∧
        (next == ',' || next == ')' || next == ';') = false := by
    induction used with
    | nil => exact ⟨'"', decode back, rfl, rfl⟩
    | cons character others inductionHypothesis =>
      rw [Text.dropLeadingBlanks, List.cons_append, List.dropWhile_cons]
      split
      · exact inductionHypothesis fun other member => passes other (List.mem_cons_of_mem _ member)
      · refine ⟨character, _, rfl, ?_⟩
        have passed := passes character List.mem_cons_self
        rw [Bool.eq_false_iff]
        intro isMark
        simp only [Bool.or_eq_true, beq_iff_eq] at isMark
        rcases isMark with (rfl | rfl) | rfl <;> exact absurd passed (by decide)
  obtain ⟨next, rest, isNext, noMark⟩ := solid used passes
  rw [← characters] at isNext
  rw [Subquery.aliasMayEnd_of_cons isNext, noMark, noFollower, Bool.or_false]

/-- No alias is read in front of such a quote, neither the first word nor the second one. -/
theorem QuoteAhead.aliasAt? {code : Bytes} (spells : IsText code) {offset : Nat}
    (quote : QuoteAhead (code.drop offset)) : aliasAt? code offset = none := by
  rw [Option.eq_none_iff_forall_ne_some]
  intro name found
  obtain ⟨first, word, met, either, _, mayEnd, _⟩ := exists_words_of_aliasAt? found
  have behindFirst := (quote.of_next? spells met).1
  have behind : QuoteAhead (code.drop word.span.stop) := by
    rcases either with ⟨_, isSecond⟩ | rfl
    · exact (behindFirst.of_next? spells isSecond).1
    · exact behindFirst
  rw [behind.aliasMayEnd spells] at mayEnd
  cases mayEnd

end Subquery

end QueryScope
