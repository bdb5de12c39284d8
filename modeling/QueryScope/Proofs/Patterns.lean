import Mathlib.Data.List.Basic
import QueryScope.Text.Bytes
import QueryScope.Text.Span
import QueryScope.Proofs.EntryShapes

/-!
# Patterns and their matches

A pattern can match the characters at a place in several ways. The ways are listed in order of
preference: the first of two alternatives comes before the second, and more repetitions come before
fewer. What a pattern gives is the first match of the list. When another pattern has to follow, it
is the first match behind which that one matches too, so a match that has gone too far is given up
for the next one.

A reader takes what it reads and never gives it up. So it does the work of a pattern where giving up
cannot help, and the laws of this module say where that is: when what follows rejects every place at
which the repetition could have gone on, or when it accepts every place.
-/

namespace QueryScope

/-- What characters may look like. A pattern is built from classes of characters, and some of its
parts are groups, whose matches are kept. -/
inductive Pattern where
  /-- Nothing, which is found everywhere. -/
  | empty
  /-- One character of a class. -/
  | one (accepts : Char → Bool)
  /-- The end of the characters. -/
  | stop
  | seq (first second : Pattern)
  /-- The first pattern, or else the second. -/
  | either (first second : Pattern)
  /-- The pattern as often as possible, or else less often. -/
  | many (item : Pattern)
  /-- The pattern, with what it has matched kept under a number. -/
  | group (number : Nat) (inner : Pattern)

/-- What a group of a pattern has matched: where it stands, in bytes, and its characters. -/
structure Capture where
  number : Nat
  span : Span
  characters : List Char
deriving DecidableEq, Repr

namespace Capture

/-- The part of the code that was matched, with the offset at which it begins. -/
def fragment (capture : Capture) : Fragment := ⟨capture.span.start, capture.characters⟩

end Capture

/-- How far a match has come: the offset in bytes, the characters ahead, and what the groups have
matched so far, the latest one first. -/
structure Place where
  offset : Nat
  ahead : List Char
  captures : List Capture := []
deriving DecidableEq, Repr

namespace Place

/-- The place further on where only the given characters are left. The offset goes on by the bytes
of those that are passed. -/
def skip (place : Place) (rest : List Char) : Place :=
  { place with
    offset := place.offset + (Bytes.width place.ahead - Bytes.width rest)
    ahead := rest }

/-- The later place, with a capture of what lies between. The characters that were passed are those
that the earlier place has more. -/
def capture (place : Place) (number : Nat) (later : Place) : Place :=
  { later with
    captures := ⟨number, ⟨place.offset, later.offset⟩,
      place.ahead.take (place.ahead.length - later.ahead.length)⟩ :: later.captures }

/-- What a group has matched, if it has. Under repetition the latest match counts. -/
def group? (place : Place) (number : Nat) : Option Capture :=
  place.captures.find? (·.number == number)

/-- The characters that are left are those that were asked for. -/
@[simp] theorem ahead_skip (place : Place) (rest : List Char) :
    (place.skip rest).ahead = rest := rfl

/-- To go on where nothing is passed is to stay. -/
@[simp] theorem skip_ahead (place : Place) : place.skip place.ahead = place := by
  rw [skip, Nat.sub_self, Nat.add_zero]

/-- Going on twice is going on once. The characters must be ends of one another, as widths are
subtracted. -/
theorem skip_skip {place : Place} {middle rest : List Char} (later : middle <:+ place.ahead)
    (latest : rest <:+ middle) : (place.skip middle).skip rest = place.skip rest := by
  obtain ⟨front, isAhead⟩ := later
  obtain ⟨between, rfl⟩ := latest
  simp only [skip, mk.injEq, and_true, ← isAhead, EntryShape.width_append]
  omega

/-- The offset behind some characters is further on by their bytes. -/
theorem offset_skip {place : Place} {used rest : List Char} (isAhead : place.ahead = used ++ rest) :
    (place.skip rest).offset = place.offset + Bytes.width used := by
  rw [skip, isAhead, EntryShape.width_append, Nat.add_sub_cancel]

/-- What a group has matched is not changed by going on. -/
@[simp] theorem group?_skip (place : Place) (rest : List Char) (number : Nat) :
    (place.skip rest).group? number = place.group? number := rfl

/-- A capture does not change what other groups have matched: it is put in front, and the search by
number passes it. -/
theorem group?_capture_of_ne (place later : Place) {number other : Nat}
    (different : number ≠ other) :
    (place.capture number later).group? other = later.group? other := by
  rw [group?, capture, List.find?_cons_of_neg (by simpa using different)]
  rfl

/-- A capture holds the span from its beginning to its end. It is the latest of its number, so the
search finds it. -/
theorem span_group?_capture (place later : Place) (number : Nat) :
    ((place.capture number later).group? number).map (·.span) =
      some ⟨place.offset, later.offset⟩ := by
  rw [group?, capture, List.find?_cons_of_pos (by simp)]
  rfl

/-- A capture holds the characters that were passed, and the offset from which they were passed. -/
theorem fragment_group?_capture {place : Place} {used rest : List Char}
    (isAhead : place.ahead = used ++ rest) (number : Nat) :
    ((place.capture number (place.skip rest)).group? number).map (·.fragment) =
      some ⟨place.offset, used⟩ := by
  have passed : place.ahead.take (place.ahead.length - rest.length) = used := by
    rw [isAhead, List.length_append, Nat.add_sub_cancel, List.take_left]
  rw [group?, capture, List.find?_cons_of_pos (by simp), Option.map_some, Capture.fragment,
    ahead_skip, passed]

end Place

namespace Pattern

/-- The pattern, or else nothing. The match with the pattern is preferred. -/
def optional (pattern : Pattern) : Pattern := either pattern empty

/-- The places that a step leads to when it is taken again and again. Steps that do not lead on are
left out. More steps come before fewer. -/
def repeated (step : Place → List Place) (place : Place) : List Place :=
  ((step place).flatMap fun next =>
    if _shorter : next.ahead.length < place.ahead.length then repeated step next else []) ++ [place]
termination_by place.ahead.length

/-- The places behind the matches of a pattern, the preferred match first. -/
def places : Pattern → Place → List Place
  | empty, place => [place]
  | one accepts, place =>
    match place.ahead with
    | [] => []
    | character :: rest =>
      if accepts character then
        [{ place with offset := place.offset + character.utf8Size, ahead := rest }]
      else
        []
  | stop, place => if place.ahead.isEmpty then [place] else []
  | seq first second, place => (first.places place).flatMap second.places
  | either first second, place => first.places place ++ second.places place
  | many item, place => repeated item.places place
  | group number inner, place => (inner.places place).map (place.capture number)

section Places

variable (place : Place)

/-- The empty pattern stays at its place. -/
theorem places_empty : empty.places place = [place] := rfl

/-- The end is matched where no characters are left. -/
theorem places_stop : stop.places place = if place.ahead.isEmpty then [place] else [] := rfl

/-- Behind each match of the front come the matches of the back. -/
theorem places_seq (front back : Pattern) :
    (seq front back).places place = (front.places place).flatMap back.places := rfl

/-- All matches of the first alternative come before those of the second. -/
theorem places_either (left right : Pattern) :
    (either left right).places place = left.places place ++ right.places place := rfl

/-- A repetition takes the step of its item again and again. -/
theorem places_many (item : Pattern) :
    (many item).places place = repeated item.places place := rfl

/-- Each match of a group is captured. -/
theorem places_group (number : Nat) (inner : Pattern) :
    (group number inner).places place = (inner.places place).map (place.capture number) := rfl

variable {place} {accepts : Char → Bool}

/-- One character is passed if it is of the class. -/
theorem places_one_cons {character : Char} {rest : List Char}
    (isAhead : place.ahead = character :: rest) :
    (one accepts).places place = if accepts character then [place.skip rest] else [] := by
  have width : place.offset + character.utf8Size = (place.skip rest).offset := by
    rw [Place.skip, isAhead, Bytes.width, Nat.add_sub_cancel]
  rw [places, isAhead]
  simp only [width]
  rfl

/-- Where no characters are left there is none of any class. -/
theorem places_one_nil (isAhead : place.ahead = []) : (one accepts).places place = [] := by
  rw [places, isAhead]

end Places

/-- The first match of a pattern at the beginning of the characters. The whole match is kept as
group 0. -/
def match? (pattern : Pattern) (characters : List Char) : Option Place :=
  ((group 0 pattern).places ⟨0, characters, []⟩).head?

/-- The first match of a pattern anywhere in the characters, which stand at `offset`. The match that
begins first is preferred. -/
def search? (pattern : Pattern) (offset : Nat) (characters : List Char) : Option Place :=
  ((group 0 pattern).places ⟨offset, characters, []⟩).head?.or
    (match characters with
    | [] => none
    | character :: rest => search? pattern (offset + character.utf8Size) rest)

/-! ## The first match that can go on -/

variable {β : Type}

/-- What follows the first match that can go on. A match behind which nothing can follow is given up
for the next one in the order of preference. -/
def first (pattern : Pattern) (follow : Place → Option β) (place : Place) : Option β :=
  (pattern.places place).findSome? follow

/-- With nothing asked of what follows, it is the first match. -/
theorem head?_places (pattern : Pattern) (place : Place) :
    (pattern.places place).head? = pattern.first some place := by
  rw [first]
  cases pattern.places place <;> rfl

/-- To search the places behind places is to search behind each of them in turn. This is what lets a
sequence of patterns be followed one by one. -/
theorem findSome?_flatMap (follow : Place → Option β) (further : Place → List Place)
    (reached : List Place) :
    (reached.flatMap further).findSome? follow =
      reached.findSome? fun place => (further place).findSome? follow := by
  induction reached with
  | nil => rfl
  | cons place others inductionHypothesis =>
    rw [List.flatMap_cons, List.findSome?_append, List.findSome?_cons, inductionHypothesis]
    cases (further place).findSome? follow <;> rfl

/-- What is taken from the place at the end can be taken afterwards or by what follows. -/
theorem map_first {γ : Type} (pattern : Pattern) (view : Place → γ) (place : Place) :
    (pattern.first some place).map view = pattern.first (some ∘ view) place := by
  rw [first, List.map_findSome?]
  rfl

/-- What a place may not have is asked of the match, or of what is taken from it. In the second form
`map_first` can be used. -/
theorem bind_eq_join_map {γ : Type} (found : Option Place) (view : Place → Option γ) :
    found.bind view = (found.map view).join := by
  cases found <;> rfl

section Laws

variable (follow : Place → Option β) (place : Place)

/-- Behind the empty pattern what follows stands at the same place. The equation is between
functions, so that it is used under other patterns too. -/
@[simp] theorem first_empty : empty.first follow = follow := by
  funext place
  rw [first, places_empty, List.findSome?_singleton]

/-- A sequence is its front followed by its back. What follows the front is thus the back together
with all that follows. -/
@[simp] theorem first_seq (front back : Pattern) :
    (seq front back).first follow = front.first (back.first follow) := by
  funext place
  rw [first, places_seq, findSome?_flatMap]
  rfl

/-- The second of two patterns counts only if the first has no match that can go on. -/
@[simp] theorem first_either (left right : Pattern) :
    (either left right).first follow place =
      (left.first follow place).or (right.first follow place) := by
  rw [first, places_either, List.findSome?_append]
  rfl

/-- What is optional is left out only if it has no match that can go on. -/
@[simp] theorem first_optional (pattern : Pattern) :
    (optional pattern).first follow place =
      (pattern.first follow place).or (follow place) := by
  rw [optional, first_either, first_empty]

/-- What follows a group sees its capture, which runs from the place where the group began. -/
@[simp] theorem first_group (number : Nat) (inner : Pattern) :
    (group number inner).first follow place =
      inner.first (fun later => follow (place.capture number later)) place := by
  rw [first, places_group, List.findSome?_map]
  rfl

/-- The end of the characters is matched where none are left, and nowhere else. -/
@[simp] theorem first_stop :
    stop.first follow place = if place.ahead = [] then follow place else none := by
  cases isAhead : place.ahead with
  | nil => simp [first, places_stop, isAhead]
  | cons character rest => simp [first, places_stop, isAhead]

/-- One more repetition, or else none. A repetition that passes no character is left out, so that
the equation can be used over and over. -/
theorem first_many (item : Pattern) :
    (many item).first follow place =
      (item.first (fun next =>
        if next.ahead.length < place.ahead.length then (many item).first follow next else none)
          place).or (follow place) := by
  rw [first, places_many, repeated, List.findSome?_append, findSome?_flatMap,
    List.findSome?_singleton]
  congr 1
  rw [first]
  congr 1
  funext next
  split
  · rfl
  · rfl

/-- One character, when it is of the class. What follows stands behind it. -/
theorem first_one_cons {accepts : Char → Bool} {character : Char} {rest : List Char}
    (isAhead : place.ahead = character :: rest) :
    (one accepts).first follow place =
      if accepts character then follow (place.skip rest) else none := by
  rw [first, places_one_cons isAhead]
  split
  · rw [List.findSome?_singleton]
  · rw [List.findSome?_nil]

/-- Where no characters are left there is none of any class. -/
theorem first_one_nil {accepts : Char → Bool} (isAhead : place.ahead = []) :
    (one accepts).first follow place = none := by
  rw [first, places_one_nil isAhead, List.findSome?_nil]

end Laws

/-! ## Where a reader does the work of a pattern -/

/-- What follows rejects every place at which a character of the class comes next. A repetition of
the class that has stopped early is then given up. -/
def Rejects (accepts : Char → Bool) (follow : Place → Option β) : Prop :=
  ∀ place : Place, place.ahead.head?.any accepts = true → follow place = none

/-- What follows leaves a repetition no choice: it rejects the places at which the repetition could
have gone on, or it accepts every place. -/
def Settled (accepts : Char → Bool) (follow : Place → Option β) : Prop :=
  Rejects accepts follow ∨ ∀ place, (follow place).isSome = true

variable {accepts refused : Char → Bool} {follow : Place → Option β}

/-- The pattern has no match at a place where a character of the class comes next. This is a
property of the pattern alone, and gives `Rejects` for all that begins with it. -/
def Shuns (refused : Char → Bool) (pattern : Pattern) : Prop :=
  ∀ place : Place, place.ahead.head?.any refused = true → pattern.places place = []

namespace Shuns

variable {front back : Pattern}

/-- A class shuns another if they have no character in common. -/
theorem one (apart : ∀ character, refused character = true → accepts character = false) :
    Shuns refused (.one accepts) := by
  intro place refusal
  cases isAhead : place.ahead with
  | nil => exact places_one_nil isAhead
  | cons character rest =>
    rw [isAhead, List.head?_cons, Option.any_some] at refusal
    rw [places_one_cons isAhead, if_neg (Bool.eq_false_iff.mp (apart character refusal))]

/-- A sequence shuns what its front shuns, as its matches begin with those of the front. -/
theorem seq (shuns : Shuns refused front) (back : Pattern) : Shuns refused (.seq front back) := by
  intro place refusal
  rw [places_seq, shuns place refusal, List.flatMap_nil]

/-- An alternative shuns what both of its patterns shun. -/
theorem either (shunsLeft : Shuns refused front) (shunsRight : Shuns refused back) :
    Shuns refused (.either front back) := by
  intro place refusal
  rw [places_either, shunsLeft place refusal, shunsRight place refusal, List.append_nil]

/-- A group shuns what is inside it shuns. -/
theorem group (number : Nat) (shuns : Shuns refused front) :
    Shuns refused (.group number front) := by
  intro place refusal
  rw [places_group, shuns place refusal, List.map_nil]

/-- What need not be there, with something behind it, shuns what both of them shun: either of them
may come first. -/
theorem optional_seq (shunsFront : Shuns refused front) (shunsBack : Shuns refused back) :
    Shuns refused (.seq (optional front) back) := by
  intro place refusal
  rw [places_seq, optional, places_either, shunsFront place refusal, List.nil_append, places_empty,
    List.flatMap_singleton, shunsBack place refusal]

/-- What begins with such a pattern rejects the place, whatever follows then. -/
theorem rejects (shuns : Shuns refused front) (follow : Place → Option β) :
    Rejects refused (front.first follow) := by
  intro place refusal
  rw [first, shuns place refusal, List.findSome?_nil]

end Shuns

/-- Characters of a class are taken as far as they go, when what follows is settled. By induction on
the characters ahead: if the longest match cannot go on, neither can a shorter one. -/
theorem first_many_one (settled : Settled accepts follow) (place : Place) :
    (many (one accepts)).first follow place =
      follow (place.skip (place.ahead.dropWhile accepts)) := by
  generalize isAhead : place.ahead = characters
  induction characters generalizing place with
  | nil =>
    rw [first_many, first_one_nil _ _ isAhead, Option.none_or, List.dropWhile_nil, ← isAhead,
      Place.skip_ahead]
  | cons character rest inductionHypothesis =>
    rw [first_many, first_one_cons _ _ isAhead]
    by_cases accepted : accepts character = true
    · have behind := inductionHypothesis (place.skip rest) rfl
      have further : (place.skip rest).skip (rest.dropWhile accepts) =
          place.skip (rest.dropWhile accepts) :=
        Place.skip_skip (isAhead ▸ List.suffix_cons character rest) (List.dropWhile_suffix accepts)
      rw [further] at behind
      rw [if_pos accepted, Place.ahead_skip, isAhead, List.length_cons,
        if_pos (Nat.lt_succ_self _), behind, List.dropWhile_cons_of_pos accepted]
      cases longest : follow (place.skip (rest.dropWhile accepts)) with
      | some answer => rfl
      | none =>
        -- to give up a character helps only if what follows accepts a place before one
        rcases settled with rejects | total
        · rw [Option.none_or]
          exact rejects place (by rw [isAhead, List.head?_cons, Option.any_some, accepted])
        · have isSome := total (place.skip (rest.dropWhile accepts))
          rw [longest] at isSome
          cases isSome
    · rw [if_neg accepted, Option.none_or, List.dropWhile_cons_of_neg accepted, ← isAhead,
        Place.skip_ahead]

end Pattern

end QueryScope
