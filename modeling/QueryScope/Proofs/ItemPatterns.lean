import Mathlib.Data.List.Basic
import QueryScope.Proofs.IdentifierPatterns
import QueryScope.Proofs.SelectLists

/-!
# The patterns of an item

An item of a select list is searched for the first blanks behind which it ends with an identifier,
with or without `AS` in front. If that is no alias, the item may be a path or a single identifier.
Each of the three is a pattern that reaches to the end of the item. So an identifier can neither be
cut short nor followed by anything, and the readers of items find what the patterns find.
-/

namespace QueryScope

open Identifier (continuesName)

namespace Pattern

/-- What ends an item like an alias: blanks, then `AS` as group 1 or not, then an identifier as
group 2, and then the item ends. -/
def trailingAlias : Pattern :=
  seq someBlanks (seq (optional (group 1 asWord)) (seq (group 2 (identifier .folded)) stop))

/-- An item that is a path of at least two identifiers. The last one is group 1. -/
def qualifiedName : Pattern :=
  seq (seq (identifier .plain) dot) (seq (dotted .plain) (seq (group 1 (identifier .plain)) stop))

/-- An item that is one identifier and nothing else. The identifier is group 1. -/
def simpleName : Pattern := seq (group 1 (identifier .plain)) stop

/-! ## Identifiers at the end -/

variable {β : Type} {follow : Place → Option β}

/-- An identifier that has to end the characters is all of them. A bare name that is cut short
leaves a character, and the end rejects it. -/
theorem first_wholeIdentifier (letters : Letters) (number : Nat) (place : Place) :
    (seq (group number (identifier letters)) stop).first follow place =
      if Identifier.isWhole letters place.ahead then
        follow (place.capture number (place.skip []))
      else
        none := by
  have settled : Rejects (continuesName letters) fun later =>
      stop.first follow (place.capture number later) := by
    intro later continues
    have more : (place.capture number later).ahead ≠ [] := by
      rintro none
      rw [show later.ahead = [] from none] at continues
      cases continues
    simp only [first_stop, if_neg more]
  rw [first_seq, first_group, first_identifier (.inl settled), Identifier.isWhole]
  rcases Identifier.read? letters place.ahead with _ | ⟨name, _ | ⟨next, rest⟩⟩
  · rfl
  · rw [Option.bind_some, first_stop]
    rfl
  · rw [Option.bind_some, first_stop]
    rfl

/-- The group of such an identifier captures all the characters that were ahead. -/
theorem characters_wholeIdentifier (place : Place) (number : Nat) :
    ((place.capture number (place.skip [])).group? number).map (·.characters) =
      some place.ahead := by
  have captured := congrArg (Option.map (·.characters))
    (Place.fragment_group?_capture (List.append_nil place.ahead).symm number)
  rwa [Option.map_map] at captured

/-- An identifier at the end does not begin with a blank, so the blanks in front of it are all
taken. -/
theorem shuns_wholeIdentifier (letters : Letters) (number : Nat) :
    Shuns Text.isBlank (seq (group number (identifier letters)) stop) :=
  .seq (.group number (shuns_identifier letters)) stop

end Pattern

namespace SelectItem

open Pattern

/-! ## The alias at the end of an item -/

/-- What stands at the end of an item, as the groups of a match tell it: where the match begins,
whether `AS` is there, and the identifier. -/
def TrailingAlias.ofPlace (place : Place) : Option TrailingAlias :=
  (place.group? 0).bind fun whole =>
    (place.group? 2).map fun name =>
      ⟨whole.span.start, (place.group? 1).isSome, name.characters⟩

/-- What ends the item like an alias, if the blanks in front of it begin the characters. The reading
with `AS` comes first; where it fails, the word may be the identifier itself. -/
def aliasHere? (offset : Nat) (characters : List Char) : Option TrailingAlias :=
  if characters.head?.any Text.isBlank then
    let ahead := characters.dropWhile Text.isBlank
    (((Identifier.afterAs? ahead).filter (Identifier.isWhole .folded)).map (⟨offset, true, ·⟩)).or
      (if Identifier.isWhole .folded ahead then some ⟨offset, false, ahead⟩ else none)
  else
    none

/-- The alias is looked for at the next character, and else further on. This is one step of the
search, with the question it asks at each place by itself. -/
theorem trailingAlias?_cons (offset : Nat) (character : Char) (rest : List Char) :
    trailingAlias? offset (character :: rest) =
      (aliasHere? offset (character :: rest)).or
        (trailingAlias? (offset + character.utf8Size) rest) := by
  rw [trailingAlias?, aliasHere?, List.head?_cons, Option.any_some]
  by_cases blank : Text.isBlank character = true
  · rw [if_pos blank, if_pos blank, List.dropWhile_cons_of_pos blank]
    simp only
    cases (Identifier.afterAs? (rest.dropWhile Text.isBlank)).filter
      (Identifier.isWhole .folded) with
    | some name => rfl
    | none =>
      rw [Option.map_none, Option.none_or]
      cases Identifier.isWhole .folded (rest.dropWhile Text.isBlank) <;> rfl
  · rw [if_neg blank, if_neg blank, Option.none_or]

/-- The alias of a match that ends with an identifier: it begins where the match does, and `AS` is
there if group 1 is. -/
theorem ofPlace_wholeIdentifier (start place : Place) :
    TrailingAlias.ofPlace (start.capture 0 (place.capture 2 (place.skip []))) =
      some ⟨start.offset, (place.group? 1).isSome, place.ahead⟩ := by
  have begins := Place.span_group?_capture start (place.capture 2 (place.skip [])) 0
  have ends := characters_wholeIdentifier place 2
  obtain ⟨whole, isWhole, span⟩ := Option.map_eq_some_iff.mp begins
  obtain ⟨name, isName, characters⟩ := Option.map_eq_some_iff.mp ends
  rw [TrailingAlias.ofPlace, isWhole, Place.group?_capture_of_ne _ _ (by decide),
    Place.group?_capture_of_ne _ _ (by decide), Place.group?_capture_of_ne _ _ (by decide), isName,
    Option.bind_some, Option.map_some, span, characters]
  rfl

/-- The pattern finds an alias here where the reader does. Both take all blanks, then `AS` if that
can be, and then an identifier that reaches to the end. -/
theorem first_trailingAlias (offset : Nat) (characters : List Char) :
    (group 0 Pattern.trailingAlias).first (some ∘ TrailingAlias.ofPlace) ⟨offset, characters, []⟩ =
      (aliasHere? offset characters).map some := by
  have nameSolid := shuns_wholeIdentifier .folded 2
  have wordSolid : Shuns Text.isBlank (group 1 asWord) :=
    .group 1 (.seq (shuns_folded (by decide)) someBlanks)
  rw [first_group, Pattern.trailingAlias, first_seq,
    first_someBlanks ((wordSolid.optional_seq nameSolid).rejects _), aliasHere?]
  split
  · rw [first_seq, first_optional, first_group, first_asWord fun later blank =>
      nameSolid.rejects _ (Place.capture _ 1 later) blank]
    simp only [first_wholeIdentifier, Function.comp_apply, ofPlace_wholeIdentifier,
      Place.ahead_skip]
    rw [Option.map_or]
    congr 1
    · cases Identifier.afterAs? (characters.dropWhile Text.isBlank) with
      | none => rfl
      | some rest =>
        change (if Identifier.isWhole .folded rest then _ else _) = _
        rw [Option.filter_some]
        cases Identifier.isWhole .folded rest <;> rfl
    · cases Identifier.isWhole .folded (characters.dropWhile Text.isBlank) <;> rfl
  · rfl

/-- Searching an item for an alias gives the first match of the pattern of an alias at the end. By
induction on the characters, as both searches try one place after the other. -/
theorem trailingAlias?_eq_search (offset : Nat) (characters : List Char) :
    trailingAlias? offset characters =
      (Pattern.trailingAlias.search? offset characters).bind TrailingAlias.ofPlace := by
  rw [bind_eq_join_map]
  induction characters generalizing offset with
  | nil =>
    rw [search?, head?_places, Option.or_none, map_first, first_trailingAlias]
    rfl
  | cons character rest inductionHypothesis =>
    rw [search?, head?_places, Option.map_or, map_first, first_trailingAlias,
      trailingAlias?_cons, inductionHypothesis]
    cases aliasHere? offset (character :: rest) <;> rfl

/-! ## Items that are paths -/

/-- The name that a match has captured as group 1. -/
def nameOf (place : Place) : Option (List Char) := (place.group? 1).map (·.characters)

/-- The last identifier of a path, when the path is the whole item and nothing is left. -/
def lastOfPath? : List Fragment × List Char → Option (List Char)
  | (path, []) => path.getLast?.map (·.characters)
  | (_, _ :: _) => none

/-- An identifier that is all of the item is its name. -/
theorem first_itemName (start place : Place) :
    (seq (group 1 (identifier .plain)) stop).first
        (fun later => (some ∘ nameOf) (start.capture 0 later)) place =
      if Identifier.isWhole .plain place.ahead then some (some place.ahead) else none := by
  rw [first_wholeIdentifier, Function.comp_apply, nameOf,
    Place.group?_capture_of_ne _ _ (by decide), characters_wholeIdentifier]

/-- Behind any identifiers with dots, the name is the last identifier of the path. The induction is
that of the reader of paths; a path that leaves something behind matches nowhere. -/
theorem first_dottedName (start place : Place) :
    (dotted .plain).first ((seq (group 1 (identifier .plain)) stop).first
        fun later => (some ∘ nameOf) (start.capture 0 later)) place =
      (lastOfPath? (Identifier.readPath .plain place.offset place.ahead)).map some := by
  have rejects := (shuns_wholeIdentifier .plain 1).rejects
    fun later => (some ∘ nameOf) (start.capture 0 later)
  obtain ⟨offset, characters, captures⟩ := place
  simp only
  fun_induction Identifier.readPath .plain offset characters with
  | case1 offset characters unread =>
    rw [first_dotted rejects, first_itemName, Identifier.isWhole, unread]
    cases characters <;> rfl
  | case2 offset characters name rest reading undotted =>
    rw [first_dotted rejects, first_itemName, Identifier.isWhole, reading]
    simp only [Option.bind_some, undotted, Option.bind_none, Option.none_or]
    cases rest with
    | nil =>
      obtain ⟨isName, _⟩ := Identifier.append_of_read? reading
      rw [List.append_nil] at isName
      rw [isName]
      rfl
    | cons character others => rfl
  | case3 offset characters name rest reading ahead skipped skippedWidth behind unread
      inductionHypothesis =>
    rw [unread] at inductionHypothesis
    rw [first_dotted rejects, first_itemName, Identifier.isWhole, reading]
    simp only [Option.bind_some, skipped]
    refine (congrArg (Option.or · _) inductionHypothesis).trans ?_
    cases rest with
    | nil => cases skipped
    | cons character others => cases behind <;> rfl
  | case4 offset characters name rest reading ahead skipped skippedWidth next others after readOn
      inductionHypothesis =>
    rw [readOn] at inductionHypothesis
    rw [first_dotted rejects, first_itemName, Identifier.isWhole, reading]
    simp only [Option.bind_some, skipped]
    refine (congrArg (Option.or · _) inductionHypothesis).trans ?_
    cases rest with
    | nil => cases skipped
    | cons character more =>
      cases after with
      | nil =>
        rw [lastOfPath?, lastOfPath?, List.getLast?_cons_cons]
        exact Option.or_none
      | cons unread further => rfl

/-- The pattern of a path wants one identifier with a dot before the others. Behind it the rest is a
path by itself. -/
theorem first_qualifiedName (code : List Char) :
    (group 0 qualifiedName).first (some ∘ nameOf) ⟨0, code, []⟩ =
      (Identifier.read? .plain code).bind fun reading =>
        (Identifier.afterDot? reading.2).bind fun ahead =>
          (lastOfPath? (Identifier.readPath .plain
            (0 + (Bytes.width code - Bytes.width ahead)) ahead)).map some := by
  have rejects := rejects_dotted .plain ((shuns_wholeIdentifier .plain 1).rejects
    fun later => (some ∘ nameOf) (Place.capture ⟨0, code, []⟩ 0 later))
  rw [first_group, qualifiedName, first_seq, first_seq, first_seq,
    first_identifier (.inl (rejects_dot .plain rejects))]
  cases reading : Identifier.read? .plain code with
  | none => rfl
  | some found =>
    obtain ⟨isCode, _⟩ := Identifier.append_of_read? reading
    rw [Option.bind_some, Option.bind_some, first_dot rejects, Place.ahead_skip]
    cases skipped : Identifier.afterDot? found.2 with
    | none => rfl
    | some ahead =>
      obtain ⟨gap, isRest, _⟩ := EntryShape.exists_gap_of_afterDot? skipped
      rw [Option.bind_some, Option.bind_some,
        Place.skip_skip ⟨found.1, isCode.symm⟩ ⟨gap, isRest.symm⟩, first_dottedName]
      rfl

/-- The identifier at the end of an item without an alias is the one that the pattern of a path
captures, or else the one that the pattern of an identifier captures. -/
theorem lastName?_eq_match (code : List Char) :
    lastName? code =
      ((qualifiedName.match? code).bind nameOf).or
        (((simpleName.match? code).bind nameOf).filter mayName) := by
  rw [bind_eq_join_map, bind_eq_join_map, match?, match?, head?_places, head?_places, map_first,
    map_first, first_qualifiedName, simpleName, first_group, first_itemName, lastName?]
  have whole : (if Identifier.isWhole .plain code && mayName code then some code else none) =
      (if Identifier.isWhole .plain code then some (some code) else none).join.filter
        mayName := by
    cases Identifier.isWhole .plain code with
    | false => rfl
    | true => rw [Bool.true_and, if_pos rfl, Option.join_some, Option.filter_some]
  fun_cases Identifier.readPath .plain 0 code with
  | case1 unread =>
    rw [unread]
    exact whole
  | case2 name rest reading undotted =>
    simp only [reading, Option.bind_some, undotted]
    exact whole
  | case3 name rest reading ahead skipped skippedWidth behind unread =>
    have noPath : lastOfPath? (Identifier.readPath .plain
        (0 + (Bytes.width code - Bytes.width ahead)) ahead) = none := by
      rw [show Identifier.readPath .plain _ ahead = ([], behind) from unread]
      cases behind <;> rfl
    simp only [reading, Option.bind_some, skipped, noPath]
    exact whole
  | case4 name rest reading ahead skipped skippedWidth next others after readOn =>
    have isPath : lastOfPath? (Identifier.readPath .plain
        (0 + (Bytes.width code - Bytes.width ahead)) ahead) =
          lastOfPath? (next :: others, after) :=
      congrArg lastOfPath? readOn
    simp only [reading, Option.bind_some, skipped, isPath]
    cases after with
    | nil =>
      simp only [lastOfPath?, List.getLast?_cons]
      rfl
    | cons character more => exact whole

/-- The name of an item's column, by the three patterns. The alias at the end comes first, if it is
accepted; then the last identifier of a path; then the item itself, unless it is reserved. -/
theorem visibleName?_eq_match (characters : List Char) :
    visibleName? characters =
      if namesNothing characters then none
      else
        ((((Pattern.trailingAlias.search? 0 characters).bind TrailingAlias.ofPlace).filter
          fun trailing => trailing.isAccepted (charactersBefore characters trailing.start)).map
            (·.name)).or
          (((qualifiedName.match? characters).bind nameOf).or
            (((simpleName.match? characters).bind nameOf).filter mayName)) := by
  rw [visibleName?, acceptedAlias?, trailingAlias?_eq_search, ← lastName?_eq_match]
  congr 1
  cases ((Pattern.trailingAlias.search? 0 characters).bind TrailingAlias.ofPlace).filter
    fun trailing => trailing.isAccepted (charactersBefore characters trailing.start) <;> rfl

end SelectItem

end QueryScope
