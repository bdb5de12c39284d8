import Mathlib.Data.List.Basic
import QueryScope.Proofs.IdentifierPatterns

/-!
# The pattern of an entry

An entry of a FROM clause is a name, perhaps with a path and a dot in front of it, and perhaps with
an alias behind it. As a pattern it first tries to have a path: identifiers with dots as far as they
go, then one identifier fewer, and so on, until a name follows. The reader of entries takes the
longest path and then decides where its last identifier belongs. Both come to the same parts.
-/

namespace QueryScope

open Identifier (continuesName)

namespace Pattern

/-- What may follow the name of an entry: blanks and an alias, with or without `AS`. The alias is
group 3. -/
def entryAlias : Pattern :=
  optional (seq someBlanks (seq (optional asWord) (group 3 (identifier .folded))))

/-- The name of an entry: an identifier, or the placeholder of a derived table. It is group 2. -/
def entryName : Pattern :=
  group 2 (either (identifier .folded) (folded Placeholder.text.toList))

/-- An entry of a FROM clause: a name, in front of it perhaps a path and a dot, and behind it
perhaps an alias. The path is group 1. -/
def tableEntry : Pattern :=
  seq (optional (seq (group 1 (seq (dotted .folded) (identifier .folded))) dot))
    (seq entryName entryAlias)

/-! ## The name and the alias -/

/-- What the groups of an entry have matched: the path, the name and the alias. Of the path only its
span is used. -/
abbrev EntryParts : Type := Option Span × Option Fragment × Option Fragment

/-- The parts that have been matched at a place. Where a group has not matched its part
is absent. -/
def entryParts (place : Place) : EntryParts :=
  ((place.group? 1).map (·.span), (place.group? 2).map (·.fragment),
    (place.group? 3).map (·.fragment))

/-- The alias is the identifier that is read, at the place itself. What follows accepts every place,
so a bare name is not cut short. -/
theorem first_aliasName (place : Place) :
    (group 3 (identifier .folded)).first (some ∘ entryParts) place =
      (Identifier.read? .folded place.ahead).map fun reading =>
        ((place.group? 1).map (·.span), (place.group? 2).map (·.fragment),
          some ⟨place.offset, reading.1⟩) := by
  have settled : Settled (continuesName .folded) fun later =>
      (some ∘ entryParts) (place.capture 3 later) := .inr fun _ => rfl
  rw [first_group, first_identifier settled]
  cases reading : Identifier.read? .folded place.ahead with
  | none => rfl
  | some found =>
    obtain ⟨isAhead, _⟩ := Identifier.append_of_read? reading
    rw [Option.bind_some, Option.map_some, Function.comp_apply, entryParts,
      Place.fragment_group?_capture isAhead, Place.group?_capture_of_ne _ _ (by decide),
      Place.group?_capture_of_ne _ _ (by decide)]
    rfl

/-- The alias behind a name is the one that the reader of aliases finds. The pattern tries `AS`
first and else takes the identifier that stands there, and so does the reader; without an alias it
still matches. -/
theorem first_entryAlias {place : Place} (unnamed : place.group? 3 = none) :
    entryAlias.first (some ∘ entryParts) place =
      some ((place.group? 1).map (·.span), (place.group? 2).map (·.fragment),
        FromEntry.readAlias? place.offset place.ahead) := by
  have notBlank : Shuns Text.isBlank (group 3 (identifier .folded)) :=
    .group 3 (shuns_identifier .folded)
  have asNotBlank : Shuns Text.isBlank asWord := .seq (shuns_folded (by decide)) _
  have found : (seq someBlanks (seq (optional asWord) (group 3 (identifier .folded)))).first
      (some ∘ entryParts) place = (FromEntry.readAlias? place.offset place.ahead).map fun name =>
        ((place.group? 1).map (·.span), (place.group? 2).map (·.fragment), some name) := by
    rw [first_seq, first_someBlanks ((asNotBlank.optional_seq notBlank).rejects _),
      FromEntry.readAlias?]
    split
    · rw [first_seq, first_optional, first_asWord (notBlank.rejects _), first_aliasName,
        Place.ahead_skip, Option.map_or]
      congr 1
      · cases skipped : Identifier.afterAs? (place.ahead.dropWhile Text.isBlank) with
        | none => rfl
        | some rest =>
          obtain ⟨used, isAhead⟩ := BareName.exists_append_of_afterAs? skipped
          rw [Option.bind_some, Option.bind_some, first_aliasName,
            Place.skip_skip (List.dropWhile_suffix _) ⟨used, isAhead.symm⟩, Option.map_map]
          rfl
      · rw [Option.map_map]
        rfl
    · rfl
  rw [entryAlias, first_optional, found]
  cases FromEntry.readAlias? place.offset place.ahead with
  | some name => rfl
  | none =>
    rw [Option.map_none, Option.none_or, Function.comp_apply, entryParts, unnamed]
    rfl

/-- The parts of an entry whose name and alias are read at an offset, behind a given path. The name
is an identifier or else a placeholder. -/
def namedParts (path : Option Span) (offset : Nat) (ahead : List Char) : Option EntryParts :=
  ((Identifier.read? .folded ahead).or (Placeholder.read? ahead)).map fun reading =>
    (path, some ⟨offset, reading.1⟩,
      FromEntry.readAlias? (Fragment.stop ⟨offset, reading.1⟩) reading.2)

/-- An entry goes on behind every name, if only with nothing. So a name is never cut short. -/
theorem settled_entryAlias {accepts : Char → Bool} (place : Place) :
    Settled accepts fun later =>
      entryAlias.first (some ∘ entryParts) (place.capture 2 later) := by
  refine .inr ?_
  intro later
  simp only [entryAlias, first_optional, Option.isSome_or]
  exact Bool.or_true _

/-- Behind a name that has just been captured the alias is read, from the end of the name on. -/
theorem first_entryAlias_capture {place : Place} (unnamed : place.group? 3 = none)
    {name rest : List Char} (isAhead : place.ahead = name ++ rest) :
    entryAlias.first (some ∘ entryParts) (place.capture 2 (place.skip rest)) =
      some ((place.group? 1).map (·.span), some ⟨place.offset, name⟩,
        FromEntry.readAlias? (Fragment.stop ⟨place.offset, name⟩) rest) := by
  have stillUnnamed : (place.capture 2 (place.skip rest)).group? 3 = none :=
    (Place.group?_capture_of_ne _ _ (by decide)).trans unnamed
  have offset : (place.capture 2 (place.skip rest)).offset = Fragment.stop ⟨place.offset, name⟩ :=
    Place.offset_skip isAhead
  rw [first_entryAlias stillUnnamed, Place.group?_capture_of_ne _ _ (by decide),
    Place.fragment_group?_capture isAhead, offset]
  rfl

/-- The name and the alias are read one after the other, and the path is the one that was captured
before. -/
theorem first_entryName {place : Place} (unnamed : place.group? 3 = none) :
    (seq entryName entryAlias).first (some ∘ entryParts) place =
      namedParts ((place.group? 1).map (·.span)) place.offset place.ahead := by
  rw [first_seq, entryName, first_group, first_either, first_identifier (settled_entryAlias place),
    first_placeholder, namedParts]
  cases reading : Identifier.read? .folded place.ahead with
  | some found =>
    rw [Option.bind_some, first_entryAlias_capture unnamed (Identifier.append_of_read? reading).1]
    rfl
  | none =>
    rw [Option.bind_none, Option.none_or, Option.none_or]
    cases reading : Placeholder.read? place.ahead with
    | some found =>
      rw [Option.bind_some, first_entryAlias_capture unnamed (EntryShape.append_of_read? reading)]
      rfl
    | none => rfl

/-- A name does not begin with a blank, so the blanks behind a dot are all taken. -/
theorem shuns_entryName : Shuns Text.isBlank (seq entryName entryAlias) :=
  .seq (.group 2 (.either (shuns_identifier .folded) (shuns_folded (by decide)))) _

/-! ## The path in front of the name -/

/-- The placeholder behind a dot: the characters from where it begins, the placeholder itself, and
what follows. -/
def placeholderBehind? (rest : List Char) : Option (List Char × List Char × List Char) :=
  (Identifier.afterDot? rest).bind fun ahead => (Placeholder.read? ahead).map (ahead, ·)

/-- The parts of an entry with a path in front of its name, from the path that was read and what is
left. The path begins at `start`, and `place` is somewhere in front of what is left. -/
def pathParts (start : Nat) (place : Place) (path : List Fragment) (rest : List Char) :
    Option EntryParts :=
  path.getLast?.bind fun last =>
    match placeholderBehind? rest with
    | some (ahead, placeholder, after) =>
      let name : Fragment := ⟨(place.skip ahead).offset, placeholder⟩
      some (some ⟨start, last.stop⟩, some name, FromEntry.readAlias? name.stop after)
    | none =>
      path.dropLast.getLast?.map fun before =>
        (some ⟨start, before.stop⟩, some last, FromEntry.readAlias? last.stop rest)

/-- The parts are the same from a place further on, as long as it is in front of what is left. They
use the place only to tell the offset of the placeholder. -/
theorem pathParts_skip (start : Nat) {place : Place} (path : List Fragment) {ahead rest : List Char}
    (later : ahead <:+ place.ahead) (latest : rest <:+ ahead) :
    pathParts start (place.skip ahead) path rest = pathParts start place path rest := by
  have further (found : List Char × List Char × List Char)
      (isFound : placeholderBehind? rest = some found) :
      (place.skip ahead).skip found.1 = place.skip found.1 := by
    obtain ⟨behind, skipped, read⟩ := Option.bind_eq_some_iff.mp isFound
    obtain ⟨reading, _, rfl⟩ := Option.map_eq_some_iff.mp read
    obtain ⟨gap, isRest, _⟩ := EntryShape.exists_gap_of_afterDot? skipped
    exact Place.skip_skip later ((List.IsSuffix.trans ⟨gap, isRest.symm⟩) latest)
  rw [pathParts, pathParts]
  cases isFound : placeholderBehind? rest with
  | none => rfl
  | some found => simp only [further found isFound]

/-- With one more identifier in front, a path of one identifier becomes a path in front of a name,
and any other path has the same last identifiers as before. -/
theorem pathParts_cons {start : Nat} {place : Place} {initial next : Fragment}
    {others : List Fragment} {rest behind : List Char} (alone : others = [] → behind = rest) :
    (pathParts start place (next :: others) rest).or
        (some (some ⟨start, initial.stop⟩, some next, FromEntry.readAlias? next.stop behind)) =
      pathParts start place (initial :: next :: others) rest := by
  rw [pathParts, pathParts, List.getLast?_cons_cons, List.getLast?_cons]
  cases placeholderBehind? rest with
  | some found => rfl
  | none =>
    cases others with
    | nil =>
      rw [alone rfl]
      rfl
    | cons third others =>
      simp only [List.dropLast_cons_cons, List.getLast?_cons, Option.bind_some, Option.map_some,
        Option.some_or, Option.getD_some]

/-- The last identifier of the path, the dot behind it and the name, as what follows the identifiers
in front. The capture of the path begins at `start`, which may be further back. -/
def pathEnd (start : Place) : Place → Option EntryParts :=
  (identifier .folded).first fun later =>
    dot.first ((seq entryName entryAlias).first (some ∘ entryParts)) (start.capture 1 later)

/-- The end of a path does not begin with a blank. -/
theorem rejects_pathEnd (start : Place) : Rejects Text.isBlank (pathEnd start) :=
  (shuns_identifier .folded).rejects _

/-- The end of a path is read piece by piece: an identifier, a dot, and then the name and the alias.
The path that is captured reaches to the end of the identifier. -/
theorem pathEnd_eq (start : Place) {place : Place} (unnamed : place.group? 3 = none) :
    pathEnd start place =
      (Identifier.read? .folded place.ahead).bind fun reading =>
        (Identifier.afterDot? reading.2).bind fun ahead =>
          namedParts (some ⟨start.offset, (place.skip reading.2).offset⟩)
            (place.skip ahead).offset ahead := by
  have notBlank := shuns_entryName.rejects (some ∘ entryParts)
  have settled : Rejects (continuesName .folded) fun later =>
      dot.first ((seq entryName entryAlias).first (some ∘ entryParts)) (start.capture 1 later) :=
    fun later continues => rejects_dot .folded notBlank (start.capture 1 later) continues
  rw [pathEnd, first_identifier (.inl settled)]
  cases reading : Identifier.read? .folded place.ahead with
  | none => rfl
  | some found =>
    obtain ⟨isAhead, _⟩ := Identifier.append_of_read? reading
    rw [Option.bind_some, Option.bind_some, first_dot notBlank]
    change (Identifier.afterDot? found.2).bind _ = _
    cases skipped : Identifier.afterDot? found.2 with
    | none => rfl
    | some ahead =>
      obtain ⟨gap, isRest, _⟩ := EntryShape.exists_gap_of_afterDot? skipped
      have stillUnnamed : ((start.capture 1 (place.skip found.2)).skip ahead).group? 3 = none :=
        (Place.group?_capture_of_ne start (place.skip found.2) (by decide)).trans unnamed
      have further : (place.skip found.2).skip ahead = place.skip ahead :=
        Place.skip_skip ⟨found.1, isAhead.symm⟩ ⟨gap, isRest.symm⟩
      have offset : ((start.capture 1 (place.skip found.2)).skip ahead).offset =
          (place.skip ahead).offset := by
        rw [← further]
        rfl
      rw [Option.bind_some, Option.bind_some, first_entryName stillUnnamed, offset,
        Place.group?_skip, Place.span_group?_capture]
      rfl

section Path

variable (start : Place) {place : Place} (unnamed : place.group? 3 = none)
include unnamed

/-- Without an identifier and a dot there is no path in front of the name. -/
theorem first_path_of_none
    (noDot : ∀ reading, Identifier.read? .folded place.ahead = some reading →
      Identifier.afterDot? reading.2 = none) :
    (dotted .folded).first (pathEnd start) place = none := by
  rw [first_dotted (rejects_pathEnd start), pathEnd_eq start unnamed]
  cases reading : Identifier.read? .folded place.ahead with
  | none => rfl
  | some found =>
    simp only [Option.bind_some, noDot found reading, Option.bind_none]
    rfl

/-- Behind an identifier and a dot the path goes on, or else it ends there and the name follows. -/
theorem first_path_of_dot {name rest ahead : List Char}
    (reading : Identifier.read? .folded place.ahead = some (name, rest))
    (skipped : Identifier.afterDot? rest = some ahead) :
    (dotted .folded).first (pathEnd start) place =
      ((dotted .folded).first (pathEnd start) (place.skip ahead)).or
        (namedParts (some ⟨start.offset, place.offset + Bytes.width name⟩)
          (place.skip ahead).offset ahead) := by
  obtain ⟨isAhead, _⟩ := Identifier.append_of_read? reading
  rw [first_dotted (rejects_pathEnd start), pathEnd_eq start unnamed, reading]
  simp only [Option.bind_some, skipped]
  rw [Place.offset_skip isAhead]

end Path

/-- The path in front of a name is the one that the reader of paths takes, without its last
identifier unless a dot and a placeholder follow. The induction is that of the reader, which goes on
wherever there is an identifier and a dot. -/
theorem first_path (start : Place) {place : Place} (unnamed : place.group? 3 = none) :
    (dotted .folded).first (pathEnd start) place =
      pathParts start.offset place (Identifier.readPath .folded place.offset place.ahead).1
        (Identifier.readPath .folded place.offset place.ahead).2 := by
  obtain ⟨offset, characters, captures⟩ := place
  simp only
  fun_induction Identifier.readPath .folded offset characters with
  | case1 offset characters unread =>
    rw [first_path_of_none start unnamed (by simp [unread])]
    rfl
  | case2 offset characters name rest reading undotted =>
    have noPlaceholder : placeholderBehind? rest = none := by
      rw [placeholderBehind?, undotted, Option.bind_none]
    rw [first_path_of_none start unnamed (by simp [reading, undotted]), pathParts, noPlaceholder]
    rfl
  | case3 offset characters name rest reading ahead skipped skippedWidth behind unread
      inductionHypothesis =>
    have noName : Identifier.read? .folded ahead = none := by
      have initial := head?_readPath .folded (offset + skippedWidth) ahead
      rw [unread] at initial
      exact Option.map_eq_none_iff.mp initial.symm
    have further := inductionHypothesis unnamed
    rw [unread] at further
    rw [first_path_of_dot start unnamed reading skipped, namedParts, noName, Option.none_or]
    refine (congrArg (Option.or · _) further).trans ?_
    simp only [pathParts, placeholderBehind?, skipped, Option.bind_some]
    cases Placeholder.read? ahead <;> rfl
  | case4 offset characters name rest reading ahead skipped skippedWidth next others after readOn
      inductionHypothesis =>
    obtain ⟨second, isSecond, rfl⟩ : ∃ reading, Identifier.read? .folded ahead = some reading ∧
        next = ⟨offset + skippedWidth, reading.1⟩ := by
      have initial := head?_readPath .folded (offset + skippedWidth) ahead
      rw [readOn] at initial
      obtain ⟨reading, isReading, same⟩ := Option.map_eq_some_iff.mp initial.symm
      exact ⟨reading, isReading, same.symm⟩
    have alone : others = [] → second.2 = after := by
      rintro rfl
      have only := read?_of_readPath_eq_singleton readOn
      rw [isSecond] at only
      exact congrArg Prod.snd (Option.some.inj only)
    have further := inductionHypothesis unnamed
    rw [readOn] at further
    rw [first_path_of_dot start unnamed reading skipped, namedParts, isSecond, Option.some_or]
    refine (congrArg (Option.or · _) further).trans ?_
    obtain ⟨isAhead, _⟩ := Identifier.append_of_read? reading
    obtain ⟨used, isUsed, _⟩ := (placedPath_readPath .folded (offset + skippedWidth) ahead).last
    obtain ⟨gap, isRest, _⟩ := EntryShape.exists_gap_of_afterDot? skipped
    rw [readOn] at isUsed
    have later : ahead <:+ (⟨offset, characters, captures⟩ : Place).ahead :=
      List.IsSuffix.trans ⟨gap, isRest.symm⟩ ⟨name, isAhead.symm⟩
    refine Eq.trans ?_ (pathParts_cons alone)
    exact congrArg (Option.or · _) (pathParts_skip start.offset _ later ⟨used, isUsed.symm⟩)

end Pattern

namespace FromEntry.Shape

open Pattern

/-- The shape that the groups of an entry tell. Without a name there is none. -/
def ofPlace (place : Place) : Option Shape :=
  (place.group? 2).map fun name =>
    ⟨(place.group? 1).map (·.span), name.fragment, (place.group? 3).map (·.fragment)⟩

/-- The shape with the given parts: the same as `ofPlace`, once the groups have been looked up. -/
def ofParts (parts : EntryParts) : Option Shape :=
  parts.2.1.map fun name => ⟨parts.1, name, parts.2.2⟩

/-- The parts of an entry are those of its path, or else those of its name alone. The second case is
that of an entry without a dot. -/
theorem first_tableEntry (characters : List Char) :
    tableEntry.first (some ∘ entryParts) ⟨0, characters, []⟩ =
      (pathParts 0 ⟨0, characters, []⟩ (Identifier.readPath .folded 0 characters).1
        (Identifier.readPath .folded 0 characters).2).or (namedParts none 0 characters) := by
  rw [tableEntry, first_seq, first_optional, first_seq, first_group, first_seq, ← pathEnd,
    first_path _ rfl, first_entryName rfl]
  rfl

/-- A path that begins the characters covers them up to the end of its last identifier. This is so
for any number of its identifiers, given that the first is one of them. -/
theorem cover_readPath {offset : Nat} {characters rest : List Char} {initial : Fragment}
    {others : List Fragment}
    (reading : Identifier.readPath .folded offset characters = (initial :: others, rest))
    (path : List Fragment) :
    cover (initial :: path) = some ⟨offset, (path.getLast?.getD initial).stop⟩ := by
  rw [cover, List.head?_cons, List.getLast?_cons, ← offset_of_readPath_eq_cons reading]

/-- Behind a path, the reader of entries looks for a placeholder and takes the last identifier if
there is none. -/
theorem read?_of_readPath_eq_cons {characters rest : List Char} {initial : Fragment}
    {others : List Fragment}
    (reading : Identifier.readPath .folded 0 characters = (initial :: others, rest)) :
    read? characters =
      match placeholderBehind? rest with
      | some (ahead, placeholder, after) =>
        let name : Fragment := ⟨Bytes.width characters - Bytes.width ahead, placeholder⟩
        some ⟨cover (initial :: others), name, readAlias? name.stop after⟩
      | none =>
        (initial :: others).getLast?.map fun name =>
          ⟨cover (initial :: others).dropLast, name, readAlias? name.stop rest⟩ := by
  rw [read?, reading]
  rfl

/-- The reader of entries gives the parts of the path, or else those of the name alone. The cases
are those of the path: none, a single identifier, or several. -/
theorem ofParts_eq_read? (characters : List Char) :
    ((pathParts 0 ⟨0, characters, []⟩ (Identifier.readPath .folded 0 characters).1
      (Identifier.readPath .folded 0 characters).2).or
        (namedParts none 0 characters)).bind ofParts = read? characters := by
  rcases reading : Identifier.readPath .folded 0 characters with ⟨path, rest⟩
  cases path with
  | nil =>
    obtain ⟨unread, rfl⟩ := read?_of_readPath_eq_nil reading
    rw [read?, reading, namedParts, unread]
    simp only [pathParts, List.getLast?_nil, Option.bind_none, Option.none_or, List.isEmpty_nil,
      if_true, Option.bind_some]
    cases Placeholder.read? characters with
    | none => rfl
    | some found =>
      simp only [Option.map_some, Option.bind_some, Nat.sub_self]
      rfl
  | cons initial others =>
    rw [read?_of_readPath_eq_cons reading]
    simp only [pathParts]
    cases placeholderBehind? rest with
    | some found =>
      simp only [cover_readPath reading, List.getLast?_cons, Option.bind_some, Place.skip,
        Nat.zero_add]
      rfl
    | none =>
      cases others with
      | nil =>
        have isInitial : (⟨0, initial.characters⟩ : Fragment) = initial := by
          rw [← offset_of_readPath_eq_cons reading]
        simp only [namedParts, read?_of_readPath_eq_singleton reading, Option.some_or,
          Option.map_some, isInitial]
        rfl
      | cons next others =>
        simp only [List.dropLast_cons_cons, List.getLast?_cons, Option.bind_some, Option.map_some,
          Option.some_or, ofParts, cover_readPath reading]

/-- The reader of entries gives the first match of the pattern of an entry. It never gives up what
it has read, and yet no other match is preferred. -/
theorem read?_eq_match (characters : List Char) :
    read? characters = (tableEntry.match? characters).bind ofPlace := by
  have sameParts : (fun later => (some ∘ entryParts) (Place.capture ⟨0, characters, []⟩ 0 later)) =
      some ∘ entryParts := by
    funext later
    rw [Function.comp_apply, Function.comp_apply, entryParts, entryParts,
      Place.group?_capture_of_ne _ _ (by decide), Place.group?_capture_of_ne _ _ (by decide),
      Place.group?_capture_of_ne _ _ (by decide)]
  have throughParts : ofPlace = fun place => ofParts (entryParts place) := by
    funext place
    rw [ofPlace, ofParts, entryParts]
    cases place.group? 2 <;> rfl
  have composed : (fun place => ofParts (entryParts place)) = ofParts ∘ entryParts := rfl
  rw [throughParts, composed, ← Option.bind_map, match?, head?_places, map_first, first_group,
    sameParts, first_tableEntry, ofParts_eq_read?]

example : (tableEntry.match? "a . b.(__subselect__) AS d".toList).bind ofPlace =
    some ⟨some ⟨0, 5⟩, ⟨6, "(__subselect__)".toList⟩, some ⟨25, ['d']⟩⟩ := by decide +kernel

end FromEntry.Shape

end QueryScope
