import Mathlib.Data.List.Basic
import QueryScope.Proofs.Patterns
import QueryScope.Proofs.Alignment

/-!
# Patterns of identifiers and paths

The pieces that the patterns of this language are made of: blanks, words in any case, identifiers,
and identifiers joined by dots. For each of them there is a reader, and what follows the pattern
decides whether the reader does the same. A bare name must not be cut short, and blanks must not be
left over. Neither happens when a dot, an identifier or the end has to come next.
-/

namespace QueryScope

open Identifier (continuesName startsName)

namespace Pattern

/-- Any number of blanks, as many as there are. -/
def blanks : Pattern := many (one Text.isBlank)

/-- At least one blank, and then as many as there are. -/
def someBlanks : Pattern := seq (one Text.isBlank) blanks

/-- The given capitals, in any case. The two foreign letters that fold into ASCII count as the
letters that they fold to. -/
def folded : List Char → Pattern
  | [] => empty
  | capital :: others => seq (one (Letters.foldsTo capital)) (folded others)

/-- A name of letters, digits and signs, which begins with a letter or an underscore. Which
characters are letters depends on whether the pattern is blind to case. -/
def bareName (letters : Letters) : Pattern :=
  seq (one (startsName letters)) (many (one (continuesName letters)))

/-- Any characters between double quotes, but for the quote itself. -/
def quotedName : Pattern := seq (one (· == '"')) (seq (many (one (· != '"'))) (one (· == '"')))

/-- A bare name or a quoted one. No characters can be both, so the order does not matter. -/
def identifier (letters : Letters) : Pattern := either (bareName letters) quotedName

/-- A dot with blanks around it, or none. -/
def dot : Pattern := seq blanks (seq (one (· == '.')) blanks)

/-- The word `AS` in any case and the blanks behind it, of which there is at least one. -/
def asWord : Pattern := seq (folded ['A', 'S']) someBlanks

/-- An identifier and a dot, any number of times: the front of a path. -/
def dotted (letters : Letters) : Pattern := many (seq (identifier letters) dot)

variable {β : Type} {follow : Place → Option β}

/-- Blanks are taken as far as they go, if what follows cannot begin with one. -/
theorem first_blanks (rejects : Rejects Text.isBlank follow) (place : Place) :
    blanks.first follow place = follow (place.skip (place.ahead.dropWhile Text.isBlank)) :=
  first_many_one (.inl rejects) place

/-- Where a blank comes next, blanks are taken as far as they go; elsewhere there is no match. -/
theorem first_someBlanks (rejects : Rejects Text.isBlank follow) (place : Place) :
    someBlanks.first follow place =
      if place.ahead.head?.any Text.isBlank then
        follow (place.skip (place.ahead.dropWhile Text.isBlank))
      else
        none := by
  rw [someBlanks, first_seq]
  cases isAhead : place.ahead with
  | nil => exact first_one_nil _ _ isAhead
  | cons character rest =>
    rw [first_one_cons _ _ isAhead, List.head?_cons, Option.any_some]
    by_cases blank : Text.isBlank character = true
    · rw [if_pos blank, if_pos blank, first_blanks rejects, Place.ahead_skip,
        Place.skip_skip (isAhead ▸ List.suffix_cons character rest) (List.dropWhile_suffix _),
        List.dropWhile_cons_of_pos blank]
    · rw [if_neg blank, if_neg blank]

/-- A bare name is taken as far as it goes, unless what follows could do with less of it. -/
theorem first_bareName_cons {letters : Letters} (settled : Settled (continuesName letters) follow)
    {place : Place} {character : Char} {rest : List Char}
    (isAhead : place.ahead = character :: rest) :
    (bareName letters).first follow place =
      if startsName letters character then
        follow (place.skip (rest.dropWhile (continuesName letters)))
      else
        none := by
  rw [bareName, first_seq, first_one_cons _ _ isAhead, first_many_one settled, Place.ahead_skip,
    Place.skip_skip (isAhead ▸ List.suffix_cons character rest) (List.dropWhile_suffix _)]

/-- A quoted name ends at the next quote, whatever follows: inside there is none, so the repetition
has no choice. Without a closing quote there is no match. -/
theorem first_quotedName_cons {place : Place} {character : Char} {rest : List Char}
    (isAhead : place.ahead = character :: rest) :
    quotedName.first follow place =
      if character == '"' then
        match rest.dropWhile (· != '"') with
        | [] => none
        | _ :: after => follow (place.skip after)
      else
        none := by
  have isSuffix : rest <:+ place.ahead := isAhead ▸ List.suffix_cons character rest
  have closed : Shuns (· != '"') (one (· == '"')) := .one fun other different => by
    simpa using different
  rw [quotedName, first_seq, first_one_cons _ _ isAhead, first_seq,
    first_many_one (.inl (closed.rejects follow)),
    Place.ahead_skip, Place.skip_skip isSuffix (List.dropWhile_suffix _)]
  cases remains : rest.dropWhile (· != '"') with
  | nil => rw [first_one_nil _ _ rfl]
  | cons quote after =>
    have isQuote : (quote == '"') = true := by
      have found := List.head?_dropWhile_not (fun other : Char => other != '"') rest
      rw [remains] at found
      simpa using found
    have later : quote :: after <:+ place.ahead :=
      (remains ▸ List.dropWhile_suffix _).trans isSuffix
    rw [first_one_cons _ _ rfl, if_pos isQuote,
      Place.skip_skip later (List.suffix_cons quote after)]

/-- An identifier is what the reader of identifiers takes. What follows must be settled for a bare
name; a quoted one ends by itself. -/
theorem first_identifier {letters : Letters} (settled : Settled (continuesName letters) follow)
    (place : Place) :
    (identifier letters).first follow place =
      (Identifier.read? letters place.ahead).bind fun reading => follow (place.skip reading.2) := by
  rw [identifier, first_either]
  cases isAhead : place.ahead with
  | nil =>
    rw [bareName, quotedName, first_seq, first_seq, first_one_nil _ _ isAhead,
      first_one_nil _ _ isAhead]
    rfl
  | cons character rest =>
    rw [first_bareName_cons settled isAhead, first_quotedName_cons isAhead, Identifier.read?]
    by_cases quoted : (character == '"') = true
    · have notBare : ¬ startsName letters character = true := by
        rw [beq_iff_eq.mp quoted]
        cases letters <;> decide
      rw [if_neg notBare, if_pos quoted, if_pos quoted, Option.none_or]
      cases rest.dropWhile (· != '"') <;> rfl
    · rw [if_neg quoted, if_neg quoted, Option.or_none]
      split <;> rfl

/-- An identifier does not begin with a blank, bare or quoted. -/
theorem shuns_identifier (letters : Letters) : Shuns Text.isBlank (identifier letters) := by
  refine .either (.seq (.one ?_) _) (.seq (.one ?_) _)
  · intro character blank
    rw [Bool.eq_false_iff]
    intro starts
    have continues : continuesName letters character = true := by
      rw [continuesName, starts]
      rfl
    rw [BareName.not_isBlank_of_continuesName continues] at blank
    cases blank
  · intro character blank
    exact beq_false_of_ne (EntryShape.plain_of_isBlank blank).2.1

/-- Neither a blank nor a letter of a bare name is a dot. Both are said to separate nothing, which
is all that is asked of the class. -/
theorem shuns_dot_of {refused : Char → Bool}
    (apart : ∀ character, refused character = true → BareName.separatesNothing character = true) :
    Shuns refused (one (· == '.')) := by
  refine .one ?_
  intro character refusal
  have separates := apart character refusal
  simp only [BareName.separatesNothing, Bool.and_eq_true, bne_iff_ne] at separates
  exact beq_false_of_ne separates.1.1

/-- A dot is passed with the blanks around it, up to where the reader of dots comes. Those in front
end at the dot, and those behind end where what follows begins. -/
theorem first_dot (rejects : Rejects Text.isBlank follow) (place : Place) :
    dot.first follow place =
      (Identifier.afterDot? place.ahead).bind fun rest => follow (place.skip rest) := by
  have notBlank : Shuns Text.isBlank (seq (one (· == '.')) blanks) :=
    .seq (shuns_dot_of fun _ => BareName.separatesNothing_of_isBlank) _
  have isSuffix := List.dropWhile_suffix Text.isBlank (l := place.ahead)
  rw [dot, first_seq, first_blanks (notBlank.rejects follow), first_seq, Identifier.afterDot?]
  cases remains : place.ahead.dropWhile Text.isBlank with
  | nil => rw [first_one_nil _ _ rfl]; rfl
  | cons character rest =>
    rw [remains] at isSuffix
    have later : rest <:+ place.ahead := (List.suffix_cons character rest).trans isSuffix
    rw [first_one_cons _ _ rfl, Place.skip_skip isSuffix (List.suffix_cons character rest)]
    by_cases isDot : character = '.'
    · subst isDot
      rw [if_pos (beq_self_eq_true _), first_blanks rejects, Place.ahead_skip,
        Place.skip_skip later (List.dropWhile_suffix _)]
      rfl
    · rw [if_neg (by simpa using isDot)]
      split
      · rename_i same
        exact absurd (List.cons.inj same).1 isDot
      · rfl

/-- A dot does not begin with a letter of a bare name. So a bare name in front of a dot is not cut
short. -/
theorem rejects_dot (letters : Letters) (rejects : Rejects Text.isBlank follow) :
    Rejects (continuesName letters) (dot.first follow) := by
  intro place continues
  rw [first_dot rejects, Identifier.afterDot?]
  cases isAhead : place.ahead with
  | nil => rfl
  | cons character rest =>
    rw [isAhead, List.head?_cons, Option.any_some] at continues
    have separates := BareName.separatesNothing_of_continuesName continues
    simp only [BareName.separatesNothing, Bool.and_eq_true, bne_iff_ne] at separates
    rw [List.dropWhile_cons_of_neg (by
      rw [BareName.not_isBlank_of_continuesName continues]; decide)]
    split
    · rename_i same
      exact absurd (List.cons.inj same).1 separates.1.1
    · rfl

/-- Given capitals are found in any case, if there are as many characters and each folds to its
capital. The induction is on the capitals. -/
theorem first_folded (capitals : List Char) (place : Place) :
    (folded capitals).first follow place =
      if (place.ahead.take capitals.length).length == capitals.length &&
          (capitals.zip (place.ahead.take capitals.length)).all fun pair =>
            Letters.foldsTo pair.1 pair.2 then
        follow (place.skip (place.ahead.drop capitals.length))
      else
        none := by
  induction capitals generalizing place with
  | nil => simp [folded]
  | cons capital others inductionHypothesis =>
    rw [folded, first_seq]
    cases isAhead : place.ahead with
    | nil => rw [first_one_nil _ _ isAhead]; rfl
    | cons character rest =>
      rw [first_one_cons _ _ isAhead, inductionHypothesis, Place.ahead_skip,
        Place.skip_skip (isAhead ▸ List.suffix_cons character rest) (List.drop_suffix _ _)]
      have counted : ((rest.take others.length).length + 1 == others.length + 1) =
          ((rest.take others.length).length == others.length) := by
        rw [Bool.eq_iff_iff, beq_iff_eq, beq_iff_eq, Nat.add_right_cancel_iff]
      rw [List.length_cons, List.take_succ_cons, List.zip_cons_cons, List.all_cons,
        List.drop_succ_cons, List.length_cons, counted]
      cases Letters.foldsTo capital character with
      | true => rw [if_pos rfl, Bool.true_and]
      | false => rw [Bool.false_and, Bool.and_false]; rfl

/-- A word does not begin with a blank if its capitals do not: no blank folds to anything else. -/
theorem shuns_folded {capitals : List Char}
    (solid : capitals.head?.any (!Text.isBlank ·) = true) :
    Shuns Text.isBlank (folded capitals) := by
  cases capitals with
  | nil => cases solid
  | cons capital others =>
    refine .seq (.one ?_) _
    intro character blank
    rw [Bool.eq_false_iff]
    intro folds
    rw [List.head?_cons, Option.any_some, Bool.not_eq_true'] at solid
    rw [not_isBlank_of_foldsTo solid folds] at blank
    cases blank

/-- A placeholder is what the reader of placeholders takes, whatever follows, as its length is
fixed. -/
theorem first_placeholder (place : Place) :
    (folded Placeholder.text.toList).first follow place =
      (Placeholder.read? place.ahead).bind fun reading => follow (place.skip reading.2) := by
  rw [first_folded, Placeholder.read?]
  simp only
  split <;> rfl

/-- The word `AS` is passed with the blanks behind it, up to where its reader comes. The two letters
and the first blank are looked at one by one, as the reader does. -/
theorem first_asWord (rejects : Rejects Text.isBlank follow) (place : Place) :
    asWord.first follow place =
      (Identifier.afterAs? place.ahead).bind fun rest => follow (place.skip rest) := by
  simp only [asWord, folded, first_seq, first_empty]
  match isAhead : place.ahead with
  | [] => exact first_one_nil _ _ isAhead
  | [only] =>
    rw [first_one_cons _ _ isAhead, first_one_nil _ _ rfl, ite_self]
    rfl
  | initial :: next :: rest =>
    have isSuffix : rest <:+ place.ahead := isAhead ▸ ⟨[initial, next], rfl⟩
    rw [first_one_cons _ _ isAhead, first_one_cons _ _ rfl,
      Place.skip_skip (isAhead ▸ List.suffix_cons _ _) (List.suffix_cons next rest),
      first_someBlanks rejects, Place.ahead_skip,
      Place.skip_skip isSuffix (List.dropWhile_suffix _), Identifier.afterAs?]
    cases Letters.foldsTo 'A' initial with
    | false => rfl
    | true =>
      cases Letters.foldsTo 'S' next with
      | false => rfl
      | true => cases rest.head?.any Text.isBlank <;> rfl

/-! ## Paths -/

/-- Identifiers with dots behind them do not begin with a blank, when what follows does not. There
may be none of them, and then what follows comes first. -/
theorem rejects_dotted (letters : Letters) (rejects : Rejects Text.isBlank follow) :
    Rejects Text.isBlank ((dotted letters).first follow) := by
  intro place blank
  have notBlank : Shuns Text.isBlank (seq (identifier letters) dot) :=
    .seq (shuns_identifier letters) dot
  rw [dotted, first_many, notBlank.rejects _ place blank, rejects place blank]
  rfl

/-- One more identifier with its dot, or else what follows. The readers of identifiers and of dots
take the same, and both pass characters, so no repetition is left out. -/
theorem first_dotted {letters : Letters} (rejects : Rejects Text.isBlank follow) (place : Place) :
    (dotted letters).first follow place =
      ((Identifier.read? letters place.ahead).bind fun reading =>
        (Identifier.afterDot? reading.2).bind fun ahead =>
          (dotted letters).first follow (place.skip ahead)).or (follow place) := by
  have further : Rejects Text.isBlank fun next =>
      if next.ahead.length < place.ahead.length then
        (dotted letters).first follow next
      else
        none := by
    intro next blank
    simp only [rejects_dotted letters rejects next blank, ite_self]
  rw [dotted, first_many, ← dotted, first_seq,
    first_identifier (.inl (rejects_dot letters further))]
  congr 1
  cases reading : Identifier.read? letters place.ahead with
  | none => rfl
  | some found =>
    obtain ⟨isAhead, _⟩ := Identifier.append_of_read? reading
    rw [Option.bind_some, Option.bind_some, first_dot further, Place.ahead_skip]
    cases skipped : Identifier.afterDot? found.2 with
    | none => rfl
    | some ahead =>
      obtain ⟨gap, isRest, _⟩ := EntryShape.exists_gap_of_afterDot? skipped
      have shorter := (Identifier.length_of_afterDot?_eq_some skipped).trans
        (Identifier.length_of_read?_eq_some reading)
      rw [Option.bind_some, Option.bind_some, Place.skip_skip ⟨found.1, isAhead.symm⟩
        ⟨gap, isRest.symm⟩, Place.ahead_skip, if_pos shorter]

/-- The reader of paths begins with the identifier that the characters begin with, in all four ways
in which it can end. -/
theorem head?_readPath (letters : Letters) (offset : Nat) (characters : List Char) :
    (Identifier.readPath letters offset characters).1.head? =
      (Identifier.read? letters characters).map fun reading => ⟨offset, reading.1⟩ := by
  fun_cases Identifier.readPath letters offset characters with
  | case1 unread => rw [unread]; rfl
  | case2 name rest reading => rw [reading]; rfl
  | case3 name rest reading => rw [reading]; rfl
  | case4 name rest reading => rw [reading]; rfl

/-- So the first identifier of a path stands where the characters begin. -/
theorem offset_of_readPath_eq_cons {letters : Letters} {offset : Nat} {characters rest : List Char}
    {initial : Fragment} {others : List Fragment}
    (reading : Identifier.readPath letters offset characters = (initial :: others, rest)) :
    initial.offset = offset := by
  have first := head?_readPath letters offset characters
  rw [reading, List.head?_cons] at first
  obtain ⟨_, _, isInitial⟩ := Option.map_eq_some_iff.mp first.symm
  rw [← isInitial]

/-- Where there is no path there is no identifier, and everything is left. -/
theorem read?_of_readPath_eq_nil {letters : Letters} {offset : Nat} {characters rest : List Char} :
    Identifier.readPath letters offset characters = ([], rest) →
      Identifier.read? letters characters = none ∧ characters = rest := by
  fun_cases Identifier.readPath letters offset characters with
  | case1 unread =>
    intro same
    cases same
    exact ⟨unread, rfl⟩
  | case2 | case3 | case4 =>
    intro same
    cases same

/-- A path of one identifier leaves what follows it, whether no dot follows or a dot with no
identifier behind it. -/
theorem read?_of_readPath_eq_singleton {letters : Letters} {offset : Nat}
    {characters rest : List Char} {only : Fragment} :
    Identifier.readPath letters offset characters = ([only], rest) →
      Identifier.read? letters characters = some (only.characters, rest) := by
  fun_cases Identifier.readPath letters offset characters with
  | case1 =>
    intro same
    cases same
  | case2 name behind reading =>
    intro same
    cases same
    exact reading
  | case3 name behind reading =>
    intro same
    cases same
    exact reading
  | case4 =>
    intro same
    cases same

end Pattern

end QueryScope
