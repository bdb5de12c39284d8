import Mathlib.Data.List.Chain
import QueryScope.Proofs.FromEntries
import QueryScope.Proofs.Shown

/-!
# Names without quotes

In code without double quotes every identifier is a bare name, and all its characters are plain. The
readers of paths, aliases and entries report where each identifier stands, so it is cut out of the
text as the code has it. The path in front of a table's name is different: it is cut out as a whole,
and between its identifiers there may be blanks in the code and anything in the text. Only a path
that is a single identifier, or that has no blanks around its dots, is plain throughout.
-/

namespace QueryScope.BareName

open EntryShape

/-- The characters of a bare name. -/
structure Bare (letters : Letters) (name : List Char) : Prop where
  nonempty : name ≠ []
  continues : ∀ character ∈ name, Identifier.continuesName letters character = true

/-- A letter of a bare name is none of the characters that never go on with a bare name. -/
theorem ne_of_continuesName {letters : Letters} {character other : Char}
    (continues : Identifier.continuesName letters character = true)
    (foreign : ∀ letters, Identifier.continuesName letters other = false) : character ≠ other := by
  rintro rfl
  rw [foreign] at continues
  cases continues

/-- A letter of a bare name is plain. -/
theorem isPlain_of_continuesName {letters : Letters} {character : Char}
    (continues : Identifier.continuesName letters character = true) : isPlain character = true := by
  simp only [isPlain, Bool.and_eq_true, bne_iff_ne, and_assoc]
  refine ⟨?_, ?_, ?_, ?_⟩
  all_goals
    apply ne_of_continuesName continues
    intro letters
    cases letters <;> rfl

/-- Neither a letter of a bare name nor a blank is a parenthesis or a dot. -/
def separatesNothing (character : Char) : Bool :=
  character != '.' && character != '(' && character != ')'

theorem separatesNothing_of_continuesName {letters : Letters} {character : Char}
    (continues : Identifier.continuesName letters character = true) :
    separatesNothing character = true := by
  simp only [separatesNothing, Bool.and_eq_true, bne_iff_ne, and_assoc]
  refine ⟨?_, ?_, ?_⟩
  all_goals
    apply ne_of_continuesName continues
    intro letters
    cases letters <;> rfl

theorem separatesNothing_of_isBlank {character : Char} (blank : Text.isBlank character = true) :
    separatesNothing character = true := by
  simp only [separatesNothing, Bool.and_eq_true, bne_iff_ne, and_assoc]
  refine ⟨?_, ?_, ?_⟩
  all_goals
    rintro rfl
    cases blank

/-- A blank is no letter of a bare name. -/
theorem not_isBlank_of_continuesName {letters : Letters} {character : Char}
    (continues : Identifier.continuesName letters character = true) :
    Text.isBlank character = false := by
  rw [Bool.eq_false_iff]
  intro blank
  have point : character.toNat ∈ List.range' 0x9 5 ++ [0x20, 0x85, 0xA0, 0x1680] ++
      List.range' 0x2000 11 ++ [0x2028, 0x2029, 0x202F, 0x205F, 0x3000] := by
    simp only [Text.isBlank, Bool.or_eq_true, decide_eq_true_eq, beq_iff_eq] at blank
    simp only [List.mem_append, List.mem_range'_1, List.mem_cons, List.not_mem_nil, or_false]
    omega
  have foreign : (List.range' 0x9 5 ++ [0x20, 0x85, 0xA0, 0x1680] ++ List.range' 0x2000 11 ++
      [0x2028, 0x2029, 0x202F, 0x205F, 0x3000]).all (fun point =>
        !Identifier.continuesName .folded (Char.ofNat point) &&
          !Identifier.continuesName .plain (Char.ofNat point)) = true := by decide
  have differs := List.all_eq_true.mp foreign _ point
  rw [Char.ofNat_toNat, Bool.and_eq_true, Bool.not_eq_true', Bool.not_eq_true'] at differs
  cases letters with
  | plain => exact absurd (continues.symm.trans differs.2) (by decide)
  | folded => exact absurd (continues.symm.trans differs.1) (by decide)

/-- Bare names are plain. -/
theorem Bare.plain {letters : Letters} {name : List Char} (bare : Bare letters name) :
    ∀ character ∈ name, isPlain character = true :=
  fun character member => isPlain_of_continuesName (bare.continues character member)

/-- An identifier that does not begin with a double quote is a bare name. -/
theorem bare_of_read? {letters : Letters} {characters name rest : List Char}
    (notQuoted : characters.head? ≠ some '"')
    (reading : Identifier.read? letters characters = some (name, rest)) :
    characters = name ++ rest ∧ Bare letters name := by
  cases characters with
  | nil => cases reading
  | cons first others =>
    have isBare : (first == '"') = false := by simpa using notQuoted
    simp only [Identifier.read?, isBare, Bool.false_eq_true, if_false] at reading
    split at reading
    · rename_i starts
      cases reading
      refine ⟨by simp, List.cons_ne_nil _ _, ?_⟩
      intro character member
      rcases List.mem_cons.mp member with rfl | further
      · rw [Identifier.continuesName, starts]
        rfl
      · exact List.mem_takeWhile_imp further
    · cases reading

/-- Without double quotes an identifier is a bare name. -/
theorem read?_bare {letters : Letters} {characters name rest : List Char}
    (noQuote : '"' ∉ characters)
    (reading : Identifier.read? letters characters = some (name, rest)) :
    characters = name ++ rest ∧ Bare letters name :=
  bare_of_read? (fun quoted => noQuote (List.mem_of_head? quoted)) reading

/-- Characters that are one identifier are a bare name. -/
theorem bare_of_isWhole {letters : Letters} {characters : List Char} (noQuote : '"' ∉ characters)
    (whole : Identifier.isWhole letters characters = true) : Bare letters characters := by
  simp only [Identifier.isWhole] at whole
  split at whole
  · rename_i name reading
    obtain ⟨same, bare⟩ := read?_bare noQuote reading
    rw [List.append_nil] at same
    rwa [same]
  · cases whole

/-- The characters spell the identifiers of a path that stands at the given offset: bare names with
dots and blanks between them. -/
inductive Spelled (letters : Letters) : Nat → List Fragment → List Char → Prop
  | nil (offset : Nat) : Spelled letters offset [] []
  | single {offset : Nat} {name : List Char} (bare : Bare letters name) :
      Spelled letters offset [⟨offset, name⟩] name
  | cons {offset : Nat} {name gap used : List Char} {next : Fragment} {others : List Fragment}
      (bare : Bare letters name) (isGap : Gap gap)
      (further : Spelled letters (offset + Bytes.width (name ++ gap)) (next :: others) used) :
      Spelled letters offset (⟨offset, name⟩ :: next :: others) ((name ++ gap) ++ used)

/-- The reader of paths takes characters that spell the path. -/
theorem readPath_spelled (letters : Letters) (offset : Nat) {characters : List Char}
    (noQuote : '"' ∉ characters) :
    ∃ used, characters = used ++ (Identifier.readPath letters offset characters).2 ∧
      Spelled letters offset (Identifier.readPath letters offset characters).1 used := by
  fun_induction Identifier.readPath letters offset characters with
  | case1 offset characters => exact ⟨[], rfl, .nil offset⟩
  | case2 offset characters name rest reading =>
    obtain ⟨whole, bare⟩ := read?_bare noQuote reading
    exact ⟨name, whole, .single bare⟩
  | case3 offset characters name rest reading =>
    obtain ⟨whole, bare⟩ := read?_bare noQuote reading
    exact ⟨name, whole, .single bare⟩
  | case4 offset characters name rest reading ahead dotted skippedWidth next others after further
      inductionHypothesis =>
    obtain ⟨rfl, bare⟩ := read?_bare noQuote reading
    obtain ⟨gap, rfl, isGap⟩ := exists_gap_of_afterDot? dotted
    rw [← List.append_assoc] at noQuote
    have skipped : skippedWidth = Bytes.width (name ++ gap) := by
      simp only [skippedWidth]
      rw [← List.append_assoc, width_append (name ++ gap), Nat.add_sub_cancel]
    obtain ⟨used, isUsed, spelled⟩ :=
      inductionHypothesis fun member => noQuote (List.mem_append_right _ member)
    rw [further] at isUsed spelled
    rw [skipped] at spelled
    refine ⟨(name ++ gap) ++ used, ?_, .cons bare isGap spelled⟩
    rw [isUsed]
    simp only [List.append_assoc]

/-- Two neighbours of which none is a blank next to a dot. -/
def Close (left right : Char) : Prop :=
  (left = '.' → Text.isBlank right = false) ∧ (right = '.' → Text.isBlank left = false)

instance : DecidableRel Close := fun _ _ => inferInstanceAs (Decidable (_ ∧ _))

/-- Characters in which no blank stands next to a dot. -/
def CloseDots (characters : List Char) : Prop := characters.IsChain Close

instance (characters : List Char) : Decidable (CloseDots characters) :=
  inferInstanceAs (Decidable (characters.IsChain Close))

/-- A piece of such characters. -/
theorem CloseDots.piece {whole piece : List Char} (close : CloseDots whole)
    (isPiece : piece <:+: whole) : CloseDots piece :=
  List.IsChain.infix close isPiece

/-- Where no blank stands next to a dot, identifiers are separated by the dot alone. -/
theorem eq_dot_of_closeDots {gap : List Char} (isGap : Gap gap) (close : CloseDots gap) :
    gap = ['.'] := by
  obtain ⟨before, behind, rfl, blankBefore, blankBehind⟩ := isGap.parts
  obtain ⟨_, closeBehind, closeBefore⟩ := List.isChain_append.mp close
  have nothingBefore : before = [] := by
    rw [← List.getLast?_eq_none_iff, Option.eq_none_iff_forall_not_mem]
    intro character isLast
    have solid := (closeBefore character isLast '.' rfl).2 rfl
    rw [blankBefore character (List.mem_of_getLast? isLast)] at solid
    cases solid
  have nothingBehind : behind = [] := by
    cases behind with
    | nil => rfl
    | cons character others =>
      have solid := (List.isChain_cons_cons.mp closeBehind).1.1 rfl
      rw [blankBehind character List.mem_cons_self] at solid
      cases solid
  rw [nothingBefore, nothingBehind, List.nil_append]

namespace Spelled

variable {letters : Letters} {offset : Nat} {path : List Fragment} {used : List Char}

/-- The last identifier of a path ends what spells the path. -/
theorem last (spelled : Spelled letters offset path used) {fragment : Fragment}
    (isLast : path.getLast? = some fragment) :
    ∃ front, used = front ++ fragment.characters ∧
      fragment.offset = offset + Bytes.width front ∧ Bare letters fragment.characters := by
  induction spelled with
  | nil => cases isLast
  | single bare =>
    cases isLast
    exact ⟨[], rfl, rfl, bare⟩
  | @cons offset name gap used next others bare isGap further inductionHypothesis =>
    rw [List.getLast?_cons_cons] at isLast
    obtain ⟨front, rfl, place, isBare⟩ := inductionHypothesis isLast
    refine ⟨(name ++ gap) ++ front, by simp only [List.append_assoc], ?_, isBare⟩
    rw [place, width_append (name ++ gap), Nat.add_assoc]

/-- Without its last identifier a path is spelled by fewer characters. -/
theorem dropLast (spelled : Spelled letters offset path used) :
    ∃ shorter behind, used = shorter ++ behind ∧ Spelled letters offset path.dropLast shorter := by
  induction spelled with
  | nil offset => exact ⟨[], [], rfl, .nil offset⟩
  | @single offset name bare => exact ⟨[], name, rfl, .nil offset⟩
  | @cons offset name gap used next others bare isGap further inductionHypothesis =>
    obtain ⟨shorter, behind, rfl, spelled⟩ := inductionHypothesis
    cases others with
    | nil => exact ⟨name, gap ++ (shorter ++ behind), by rw [List.append_assoc], .single bare⟩
    | cons third others =>
      refine ⟨(name ++ gap) ++ shorter, behind, by simp only [List.append_assoc], ?_⟩
      exact .cons bare isGap spelled

/-- A path covers what spells it. -/
theorem cover_eq (spelled : Spelled letters offset path used) (something : path ≠ []) :
    FromEntry.cover path = some ⟨offset, offset + Bytes.width used⟩ := by
  obtain ⟨first, isFirst, begins⟩ : ∃ first, path.head? = some first ∧ first.offset = offset := by
    cases spelled with
    | nil => exact absurd rfl something
    | single => exact ⟨_, rfl, rfl⟩
    | cons => exact ⟨_, rfl, rfl⟩
  have isLast := List.getLast?_eq_some_getLast something
  obtain ⟨front, rfl, place, _⟩ := spelled.last isLast
  rw [FromEntry.cover, isFirst, isLast]
  simp only [begins, Fragment.stop, place, width_append, Nat.add_assoc]

/-- What spells a path is plain unless there are several identifiers. -/
theorem plain_or_several (spelled : Spelled letters offset path used) :
    (∀ character ∈ used, isPlain character = true) ∨ 2 ≤ path.length := by
  cases spelled with
  | nil => exact .inl fun _ member => absurd member List.not_mem_nil
  | single bare => exact .inl bare.plain
  | cons => exact .inr (Nat.le_add_left 2 _)

/-- Where no blank stands next to a dot, what spells a path is plain. -/
theorem plain_of_closeDots (spelled : Spelled letters offset path used) (close : CloseDots used) :
    ∀ character ∈ used, isPlain character = true := by
  induction spelled with
  | nil => exact fun _ member => absurd member List.not_mem_nil
  | single bare => exact bare.plain
  | cons bare isGap further inductionHypothesis =>
    obtain ⟨front, behind, _⟩ := List.isChain_append.mp close
    obtain ⟨_, atGap, _⟩ := List.isChain_append.mp front
    obtain rfl := eq_dot_of_closeDots isGap atGap
    intro character member
    simp only [List.mem_append, List.mem_singleton] at member
    rcases member with (isName | rfl) | isFurther
    · exact bare.plain character isName
    · decide
    · exact inductionHypothesis behind character isFurther

end Spelled

/-- Where a fragment of plain characters stands; the characters stand at `offset`. -/
structure Stands (offset : Nat) (characters : List Char) (fragment : Fragment) : Prop where
  split : ∃ front behind, characters = front ++ (fragment.characters ++ behind) ∧
    fragment.offset = offset + Bytes.width front
  plain : ∀ character ∈ fragment.characters, isPlain character = true

namespace Stands

/-- A fragment of the characters behind others. -/
theorem behind {offset : Nat} {used rest : List Char} {fragment : Fragment}
    (stands : Stands (offset + Bytes.width used) rest fragment) :
    Stands offset (used ++ rest) fragment := by
  obtain ⟨front, behind, rfl, place⟩ := stands.split
  refine ⟨⟨used ++ front, behind, by simp only [List.append_assoc], ?_⟩, stands.plain⟩
  rw [place, width_append, Nat.add_assoc]

/-- A fragment is cut out of every text as the code has it. -/
theorem extract_eq {characters : List Char} {fragment : Fragment}
    (stands : Stands 0 characters fragment) {text : Bytes}
    (shows : Shows (encoded characters) text) :
    text.extract fragment.span.start fragment.span.stop = encoded fragment.characters := by
  obtain ⟨front, behind, rfl, place⟩ := stands.split
  rw [Nat.zero_add] at place
  simp only [Fragment.span, Fragment.stop, place]
  exact shows.extract_eq stands.plain

end Stands

/-- An identifier that is read behind other characters. -/
theorem stands_of_read? {letters : Letters} (offset : Nat) (used : List Char)
    {rest name after : List Char} (noQuote : '"' ∉ rest)
    (reading : Identifier.read? letters rest = some (name, after)) :
    Stands offset (used ++ rest)
      ⟨offset + (Bytes.width (used ++ rest) - Bytes.width rest), name⟩ := by
  obtain ⟨rfl, bare⟩ := read?_bare noQuote reading
  refine ⟨⟨used, after, rfl, ?_⟩, bare.plain⟩
  rw [width_append used, Nat.add_sub_cancel]

/-- What is skipped as `AS`: two letters and the blanks behind them. -/
theorem exists_of_afterAs? {characters rest : List Char}
    (skipped : Identifier.afterAs? characters = some rest) :
    ∃ first second blanks, characters = first :: second :: (blanks ++ rest) ∧
      Letters.foldsTo 'A' first = true ∧ Letters.foldsTo 'S' second = true ∧
      (∀ character ∈ blanks, Text.isBlank character = true) ∧ blanks ≠ [] := by
  match characters, skipped with
  | first :: second :: others, skipped =>
    simp only [Identifier.afterAs?, Option.ite_none_right_eq_some, Option.some.injEq,
      Bool.and_eq_true] at skipped
    obtain ⟨⟨⟨isA, isS⟩, apart⟩, rfl⟩ := skipped
    refine ⟨first, second, others.takeWhile Text.isBlank, ?_, isA, isS,
      fun _ member => List.mem_takeWhile_imp member, ?_⟩
    · rw [List.takeWhile_append_dropWhile]
    · cases others with
      | nil => cases apart
      | cons next further =>
        rw [List.head?_cons, Option.any_some] at apart
        simp [apart]

/-- What follows `AS` ends what it is read from. -/
theorem exists_append_of_afterAs? {characters rest : List Char}
    (skipped : Identifier.afterAs? characters = some rest) : ∃ used, characters = used ++ rest := by
  obtain ⟨first, second, blanks, rfl, _⟩ := exists_of_afterAs? skipped
  exact ⟨first :: second :: blanks, rfl⟩

/-- What the reader of entries passes over in front of an alias: blanks, or `AS` between blanks. -/
inductive PassedOver : List Char → Prop
  | bare {blanks : List Char} (blank : ∀ character ∈ blanks, Text.isBlank character = true) :
      PassedOver blanks
  | explicit {before behind : List Char} {first second : Char}
      (blankBefore : ∀ character ∈ before, Text.isBlank character = true)
      (isA : Letters.foldsTo 'A' first = true) (isS : Letters.foldsTo 'S' second = true)
      (blankBehind : ∀ character ∈ behind, Text.isBlank character = true) (apart : behind ≠ []) :
      PassedOver (before ++ first :: second :: behind)

/-- An identifier that is read behind what is passed over. -/
theorem exists_read_of_named {offset : Nat} {characters used rest : List Char}
    {fragment : Fragment} (whole : characters = used ++ rest)
    (found : (Identifier.read? .folded rest).map (fun (name, _) =>
      (⟨offset + (Bytes.width characters - Bytes.width rest), name⟩ : Fragment)) =
        some fragment) :
    ∃ after, Identifier.read? .folded rest = some (fragment.characters, after) ∧
      fragment.offset = offset + Bytes.width used := by
  obtain ⟨⟨name, after⟩, isName, rfl⟩ := Option.map_eq_some_iff.mp found
  exact ⟨after, isName, by rw [whole, width_append, Nat.add_sub_cancel]⟩

/-- An alias is an identifier behind characters that are passed over and that begin with a blank. -/
theorem exists_read_of_readAlias? {offset : Nat} {characters : List Char} {fragment : Fragment}
    (reading : FromEntry.readAlias? offset characters = some fragment) :
    ∃ used rest after, characters = used ++ rest ∧ PassedOver used ∧
      used.head?.any Text.isBlank = true ∧
      Identifier.read? .folded rest = some (fragment.characters, after) ∧
      fragment.offset = offset + Bytes.width used := by
  simp only [FromEntry.readAlias?] at reading
  split at reading
  · rename_i begins
    have split : characters = characters.takeWhile Text.isBlank ++
        characters.dropWhile Text.isBlank := List.takeWhile_append_dropWhile.symm
    have blank : ∀ character ∈ characters.takeWhile Text.isBlank, Text.isBlank character = true :=
      fun character member => List.mem_takeWhile_imp member
    obtain ⟨first, blanks, isBlanks, isBlank⟩ : ∃ first blanks,
        characters.takeWhile Text.isBlank = first :: blanks ∧ Text.isBlank first = true := by
      cases characters with
      | nil => cases begins
      | cons first others =>
        rw [List.head?_cons, Option.any_some] at begins
        exact ⟨first, others.takeWhile Text.isBlank, by rw [List.takeWhile_cons, begins]; rfl, begins⟩
    rcases Option.or_eq_some_iff.mp reading with explicit | ⟨_, bare⟩
    · obtain ⟨rest, skipped, found⟩ := Option.bind_eq_some_iff.mp explicit
      obtain ⟨a, s, behind, ahead, isA, isS, blankBehind, apart⟩ := exists_of_afterAs? skipped
      have whole : characters = (characters.takeWhile Text.isBlank ++ a :: s :: behind) ++ rest := by
        rw [List.append_assoc, List.cons_append, List.cons_append, ← ahead]
        exact split
      obtain ⟨after, isName, place⟩ := exists_read_of_named whole found
      refine ⟨_, rest, after, whole, .explicit blank isA isS blankBehind apart, ?_, isName, place⟩
      rw [isBlanks]
      exact isBlank
    · obtain ⟨after, isName, place⟩ := exists_read_of_named split bare
      refine ⟨_, _, after, split, .bare blank, ?_, isName, place⟩
      rw [isBlanks]
      exact isBlank
  · cases reading

/-- An alias stands among the characters that it is read from. -/
theorem stands_of_readAlias? {offset : Nat} {characters : List Char} {fragment : Fragment}
    (noQuote : '"' ∉ characters)
    (reading : FromEntry.readAlias? offset characters = some fragment) :
    Stands offset characters fragment := by
  obtain ⟨used, rest, after, rfl, _, _, isName, place⟩ := exists_read_of_readAlias? reading
  have stands := stands_of_read? offset used
    (fun member => noQuote (List.mem_append_right _ member)) isName
  rw [width_append, Nat.add_sub_cancel] at stands
  rwa [← place] at stands

/-- A character that equals none of a placeholder's, in any case, is in no placeholder. -/
theorem not_mem_placeholder {characters placeholder after : List Char}
    (reading : Placeholder.read? characters = some (placeholder, after)) {other : Char}
    (absent : Placeholder.text.toList.all (fun expected => !Letters.foldsTo expected other) = true) :
    other ∉ placeholder := by
  intro member
  obtain ⟨expected, listed, folds⟩ := (foldsTo_of_read? reading).2 other member
  have differs := List.all_eq_true.mp absent expected listed
  rw [folds] at differs
  cases differs

/-- The characters of a placeholder in any case are plain. -/
theorem plain_of_placeholder {characters placeholder after : List Char}
    (reading : Placeholder.read? characters = some (placeholder, after)) :
    ∀ character ∈ placeholder, isPlain character = true := by
  intro character member
  simp only [isPlain, Bool.and_eq_true, bne_iff_ne, and_assoc]
  refine ⟨?_, ?_, ?_, ?_⟩
  all_goals
    rintro rfl
    exact not_mem_placeholder reading (by decide) member

/-- What the reader of entries tells about the parts of an entry: the name and the alias stand among
its characters, and the qualifier is a path at its beginning. -/
structure ReadShape (characters : List Char) (shape : FromEntry.Shape) : Prop where
  name : Stands 0 characters shape.name
  aliasName : ∀ fragment ∈ shape.aliasName, Stands 0 characters fragment
  qualifier : ∀ span ∈ shape.qualifier, ∃ path used behind, characters = used ++ behind ∧
    Spelled .folded 0 path used ∧ span = ⟨0, Bytes.width used⟩

/-- The span that a path covers, if it has any identifiers. -/
theorem exists_of_cover {path : List Fragment} {used rest : List Char}
    (spelled : Spelled .folded 0 path used) :
    ∀ span ∈ FromEntry.cover path, ∃ path shorter behind, used ++ rest = shorter ++ behind ∧
      Spelled .folded 0 path shorter ∧ span = ⟨0, Bytes.width shorter⟩ := by
  intro span covered
  have something : path ≠ [] := by
    rintro rfl
    cases covered
  rw [spelled.cover_eq something] at covered
  cases covered
  exact ⟨path, used, rest, rfl, spelled, by rw [Nat.zero_add]⟩

/-- Every shape that is read is of this kind. -/
theorem readShape_of_read? {characters : List Char} {shape : FromEntry.Shape}
    (noQuote : '"' ∉ characters) (shaped : FromEntry.Shape.read? characters = some shape) :
    ReadShape characters shape := by
  obtain ⟨used, whole, spelled⟩ := readPath_spelled .folded 0 noQuote
  have aliasAfter {front after : List Char} {stop : Nat} (split : characters = front ++ after)
      (stops : stop = Bytes.width front) :
      ∀ fragment ∈ FromEntry.readAlias? stop after, Stands 0 characters fragment := by
    intro fragment reading
    subst split
    apply Stands.behind
    rw [Nat.zero_add, ← stops]
    exact stands_of_readAlias? (fun member => noQuote (List.mem_append_right _ member)) reading
  have cases := shape_cases shaped
  generalize (Identifier.readPath .folded 0 characters).1 = path at cases spelled
  generalize (Identifier.readPath .folded 0 characters).2 = rest at cases whole
  rcases cases with
    ⟨gap, ahead, placeholder, after, before, _, reading, isQualifier, isName, isAlias⟩ |
      ⟨isLast, isQualifier, isAlias⟩
  · have isFront : characters = (used ++ gap) ++ ahead := by
      rw [List.append_assoc, ← before, ← whole]
    have split := append_of_read? reading
    have place : Bytes.width characters - Bytes.width ahead = Bytes.width (used ++ gap) := by
      rw [isFront, width_append, Nat.add_sub_cancel]
    rw [place] at isName
    constructor
    · rw [isName]
      refine ⟨⟨used ++ gap, after, by rw [isFront, split], ?_⟩, plain_of_placeholder reading⟩
      rw [Nat.zero_add]
    · have behindName : characters = ((used ++ gap) ++ placeholder) ++ after := by
        rw [isFront, split, List.append_assoc _ placeholder]
      rw [isAlias]
      apply aliasAfter behindName
      rw [isName, Fragment.stop, width_append _ placeholder]
    · rw [whole, isQualifier]
      exact exists_of_cover spelled
  · obtain ⟨front, isUsed, place, bare⟩ := spelled.last isLast
    rw [Nat.zero_add] at place
    obtain ⟨shorter, behind, split, spelledShorter⟩ := spelled.dropLast
    constructor
    · refine ⟨⟨front, rest, by rw [whole, isUsed, List.append_assoc], ?_⟩, bare.plain⟩
      rw [Nat.zero_add, place]
    · rw [isAlias]
      apply aliasAfter whole
      rw [Fragment.stop, place, isUsed, width_append]
    · rw [whole, isQualifier, split, List.append_assoc]
      exact exists_of_cover spelledShorter

/-- Without quotes, the name of a table has no dot. -/
theorem dot_not_mem_name {characters : List Char} {shape : FromEntry.Shape}
    (noQuote : '"' ∉ characters) (shaped : FromEntry.Shape.read? characters = some shape) :
    '.' ∉ shape.name.characters := by
  obtain ⟨used, _, spelled⟩ := readPath_spelled .folded 0 noQuote
  rcases shape_cases shaped with ⟨_, _, _, _, _, _, reading, _, isName, _⟩ | ⟨isLast, _, _⟩
  · rw [isName]
    exact not_mem_placeholder reading (by decide)
  · obtain ⟨_, _, _, bare⟩ := spelled.last isLast
    intro member
    exact absurd (separatesNothing_of_continuesName (bare.continues '.' member)) (by decide)

end QueryScope.BareName
