import Mathlib.Data.List.Forall2
import Mathlib.Data.List.Infix
import QueryScope.Proofs.BareNames

/-!
# The parts of a schema

The schema in front of a table's name is cut at its dots, and each part is trimmed and unquoted. The
dots are those of the code, but the parts come from the text. So a part may hold more than the
identifier that the code shows: a comment next to a dot is taken along. Still each part has its
identifier in it, and the parts come in the order of the identifiers.
-/

namespace QueryScope.SchemaParts

open EntryShape BareName Bytes

/-- Bytes that separate nothing are passed over. -/
theorem splitFrom_append {separator : UInt8} (start offset : Nat) {first : Bytes}
    (plain : ∀ byte ∈ first, byte ≠ separator ∧ isParenthesis byte = false) (rest : Bytes) :
    TopLevel.splitFrom separator start offset 0 (first ++ rest) =
      TopLevel.splitFrom separator start (offset + first.length) 0 rest := by
  induction first generalizing offset with
  | nil => rfl
  | cons byte others inductionHypothesis =>
    obtain ⟨differs, notParenthesis⟩ := plain byte List.mem_cons_self
    rw [List.cons_append, TopLevel.splitFrom, if_neg (by simp [differs]),
      depthAfter_of_not_isParenthesis notParenthesis,
      inductionHypothesis _ fun other member => plain other (List.mem_cons_of_mem _ member),
      List.length_cons, Nat.add_assoc, Nat.add_comm 1]

/-- Characters that separate nothing have such bytes. -/
theorem plain_of_separatesNothing {characters : List Char}
    (harmless : ∀ character ∈ characters, separatesNothing character = true) :
    ∀ byte ∈ encoded characters, byte ≠ Byte.dot ∧ isParenthesis byte = false := by
  intro byte member
  have absent (other : UInt8) (ascii : other < 0x80)
      (separates : separatesNothing (Char.ofNat other.toNat) = false) : byte ≠ other := by
    rintro rfl
    have nothing := harmless _ (mem_of_mem_encoded ascii member)
    rw [separates] at nothing
    cases nothing
  simp only [isParenthesis, Bool.or_eq_false_iff, beq_eq_false_iff_ne]
  refine ⟨?_, ?_, ?_⟩
  all_goals
    apply absent
    · decide
    · decide

/-- A bare name has bytes. -/
theorem encoded_ne_nil {letters : Letters} {name : List Char} (bare : Bare letters name) :
    encoded name ≠ [] := by
  intro empty
  have length := length_encoded name
  rw [empty] at length
  cases name with
  | nil => exact bare.nonempty rfl
  | cons first others =>
    have positive := first.utf8Size_pos
    simp only [Bytes.width, List.length_nil] at length
    omega

/-- A place where a part may begin: in front of its identifier, or behind a dot. -/
def Begins (text : Bytes) (start : Nat) (lead : List Char) : Prop :=
  lead = [] ∨ ∃ before, start = before + 1 ∧ text[before]? = some Byte.dot

/-- A piece of the text that reaches from the beginning of a part over its identifier has the
identifier in it. -/
theorem isInfix_piece {letters : Letters} {text : Bytes} (inText : InText text)
    {lead name rest : List Char} (bare : Bare letters name) {start stop : Nat}
    (shows : Shows (encoded (lead ++ (name ++ rest))) (text.drop start))
    (begins : Begins text start lead)
    (reaches : start + Bytes.width lead + Bytes.width name ≤ stop) :
    name <:+: decode (text.extract start stop) := by
  have isName : text.extract (start + Bytes.width lead)
      (start + Bytes.width lead + Bytes.width name) = encoded name := by
    have piece := shows.extract_eq bare.plain
    rw [List.extract_eq_take_drop, List.drop_drop] at piece
    rw [List.extract_eq_take_drop, Nat.add_sub_cancel_left]
    rwa [Nat.add_sub_cancel_left] at piece
  have split : text.extract start stop = text.extract start (start + Bytes.width lead) ++
      (encoded name ++ text.extract (start + Bytes.width lead + Bytes.width name) stop) := by
    rw [← isName, Window.extract_append_extract text (Nat.le_add_right _ _) reaches,
      Window.extract_append_extract text (Nat.le_add_right _ _) (by omega)]
  have isLead : IsText (text.extract start (start + Bytes.width lead)) := by
    rcases begins with nothing | ⟨before, rfl, isDot⟩
    · rw [nothing, Bytes.width, List.extract_eq_take_drop, Nat.add_sub_cancel_left, List.take_zero]
      exact isText_encoded []
    · obtain ⟨within, isByte⟩ := List.getElem?_eq_some_iff.mp isDot
      have whole : text = text.take before ++ Byte.dot ::
          (text.extract (before + 1) (before + 1 + Bytes.width lead) ++
            (encoded name ++ text.drop (before + 1 + Bytes.width lead + Bytes.width name))) := by
        rw [← isName, Window.extract_append_drop text (Nat.le_add_right _ _),
          Window.extract_append_drop text (Nat.le_add_right _ _), ← isByte,
          ← List.drop_eq_getElem_cons within, List.take_append_drop]
      rw [whole] at inText
      exact inText.between (by decide) (isText_encoded name) (encoded_ne_nil bare)
  rw [split, isLead.decode_append, decode_encoded_append]
  exact ⟨_, _, List.append_assoc _ _ _⟩

/-- Splitting the text of a path at the dots of the code yields one part for each identifier, with the
identifier in it. The part that comes first begins with the blanks behind a dot. -/
theorem parts_spelled {letters : Letters} {offset : Nat} {path : List Fragment} {used : List Char}
    (spelled : Spelled letters offset path used) (something : path ≠ []) {text : Bytes}
    (inText : InText text) {lead : List Char}
    (blank : ∀ character ∈ lead, Text.isBlank character = true) {start : Nat}
    (shows : Shows (encoded (lead ++ used)) (text.drop start)) (begins : Begins text start lead) :
    List.Forall₂ (fun fragment part => Bare letters fragment.characters ∧
        fragment.characters <:+: decode (text.extract part.start part.stop)) path
      (TopLevel.splitFrom Byte.dot start start 0 (encoded (lead ++ used))) := by
  have harmless {front name : List Char} (blankFront : ∀ character ∈ front,
      Text.isBlank character = true) (bare : Bare letters name) :
      ∀ character ∈ front ++ name, separatesNothing character = true := by
    intro character member
    rcases List.mem_append.mp member with isFront | isName
    · exact separatesNothing_of_isBlank (blankFront character isFront)
    · exact separatesNothing_of_continuesName (bare.continues character isName)
  induction spelled generalizing lead start with
  | nil => exact absurd rfl something
  | @single offset name bare =>
    have bytes := plain_of_separatesNothing (harmless blank bare)
    have only := splitFrom_append start start bytes []
    rw [List.append_nil, TopLevel.splitFrom, length_encoded, width_append] at only
    rw [only]
    refine .cons ⟨bare, ?_⟩ .nil
    rw [← List.append_nil name] at shows
    exact isInfix_piece inText bare shows begins (Nat.add_assoc _ _ _).le
  | @cons offset name gap used next others bare isGap further inductionHypothesis =>
    obtain ⟨before, behind, rfl, blankBefore, blankBehind⟩ := isGap.parts
    have passed : ∀ character ∈ (lead ++ name) ++ before, separatesNothing character = true := by
      intro character member
      rcases List.mem_append.mp member with isFront | isBefore
      · exact harmless blank bare character isFront
      · exact separatesNothing_of_isBlank (blankBefore character isBefore)
    have split : encoded (lead ++ ((name ++ (before ++ '.' :: behind)) ++ used)) =
        encoded ((lead ++ name) ++ before) ++ Byte.dot :: encoded (behind ++ used) := by
      simp only [encoded, List.flatMap_append, List.flatMap_cons, List.append_assoc,
        List.cons_append]
      rfl
    obtain ⟨width, isWidth⟩ : ∃ width, width = (encoded ((lead ++ name) ++ before)).length :=
      ⟨_, rfl⟩
    have reaches : start + Bytes.width lead + Bytes.width name ≤ start + width := by
      rw [isWidth, length_encoded, width_append, width_append]
      omega
    have isDot : text[start + width]? = some Byte.dot := by
      rw [← List.getElem?_drop]
      apply shows.getElem?_eq
      · rw [split, isWidth, List.getElem?_append_right (Nat.le_refl _), Nat.sub_self,
          List.getElem?_cons_zero]
      · decide
    have behindDot : Shows (encoded (behind ++ used)) (text.drop (start + width + 1)) := by
      have dropped := shows.drop (width + 1)
      rwa [split, isWidth, ← List.drop_drop, List.drop_left, List.drop_succ_cons, List.drop_zero,
        ← isWidth, List.drop_drop, ← Nat.add_assoc] at dropped
    have later := inductionHypothesis (List.cons_ne_nil _ _) blankBehind behindDot
      (.inr ⟨_, rfl, isDot⟩)
    rw [split, splitFrom_append start start (plain_of_separatesNothing passed), ← isWidth,
      TopLevel.splitFrom, if_pos (by decide)]
    refine .cons ⟨bare, ?_⟩ later
    rw [List.append_assoc name] at shows
    exact isInfix_piece inText bare shows begins reaches

/-- Taking off a character that a name does not have leaves the name. -/
theorem isInfix_of_cons {name list : List Char} {character : Char}
    (inside : name <:+: character :: list) (absent : character ∉ name) : name <:+: list := by
  rcases List.infix_cons_iff.mp inside with atFront | further
  · rcases List.prefix_cons_iff.mp atFront with empty | ⟨others, isName, _⟩
    · rw [empty]
      exact List.nil_infix
    · rw [isName] at absent
      exact absurd List.mem_cons_self absent
  · exact further

/-- Skipping characters that a name does not have leaves the name. -/
theorem isInfix_dropWhile {name list : List Char} {skip : Char → Bool} (inside : name <:+: list)
    (kept : ∀ character ∈ name, skip character = false) : name <:+: list.dropWhile skip := by
  induction list with
  | nil => exact inside
  | cons character others inductionHypothesis =>
    by_cases skipped : skip character = true
    · rw [List.dropWhile_cons_of_pos skipped]
      apply inductionHypothesis
      apply isInfix_of_cons inside
      intro member
      rw [kept character member] at skipped
      cases skipped
    · rwa [List.dropWhile_cons_of_neg skipped]

/-- Trimming leaves a name without blanks. -/
theorem isInfix_trim {name : List Char} {text : String} (inside : name <:+: text.toList)
    (solid : ∀ character ∈ name, Text.isBlank character = false) :
    name <:+: (Text.trim text).toList := by
  rw [Text.trim, String.toList_ofList, Text.trimCharacters, Text.dropTrailingBlanks,
    Text.dropLeadingBlanks, ← List.reverse_infix, List.reverse_reverse]
  apply isInfix_dropWhile
  · rw [List.reverse_infix]
    exact isInfix_dropWhile inside solid
  · intro character member
    exact solid character (List.mem_reverse.mp member)

/-- Any other character than a double quote stands for itself. -/
theorem undouble_cons {character : Char} (different : character ≠ '"') (rest : List Char) :
    Identifier.undouble (character :: rest) = character :: Identifier.undouble rest := by
  rw [Identifier.undouble]
  rintro _ rfl
  exact absurd rfl different

/-- A name without double quotes that comes first stays first. -/
theorem isPrefix_undouble {name list : List Char} (atFront : name <+: list)
    (noQuote : '"' ∉ name) : name <+: Identifier.undouble list := by
  induction name generalizing list with
  | nil => exact List.nil_prefix
  | cons character others inductionHypothesis =>
    rw [List.mem_cons, not_or] at noQuote
    obtain ⟨rest, rfl⟩ := atFront
    rw [List.cons_append, undouble_cons (Ne.symm noQuote.1), List.cons_prefix_cons]
    exact ⟨rfl, inductionHypothesis (List.prefix_append others rest) noQuote.2⟩

/-- Making pairs of quotes one leaves a name without quotes. -/
theorem isInfix_undouble {name list : List Char} (inside : name <:+: list) (noQuote : '"' ∉ name) :
    name <:+: Identifier.undouble list := by
  fun_induction Identifier.undouble list with
  | case1 rest inductionHypothesis =>
    apply List.infix_cons
    apply inductionHypothesis
    exact isInfix_of_cons (isInfix_of_cons inside noQuote) noQuote
  | case2 character rest notPair inductionHypothesis =>
    rcases List.infix_cons_iff.mp inside with atFront | further
    · rcases List.prefix_cons_iff.mp atFront with empty | ⟨others, isName, next⟩
      · rw [empty]
        exact List.nil_infix
      · rw [isName, List.mem_cons, not_or] at noQuote
        rw [isName]
        apply List.IsPrefix.isInfix
        rw [List.cons_prefix_cons]
        exact ⟨rfl, isPrefix_undouble next noQuote.2⟩
    · exact List.infix_cons (inductionHypothesis further)
  | case3 => exact inside

/-- Unquoting leaves a name without quotes. -/
theorem isInfix_unquote {name : List Char} {text : String} (inside : name <:+: text.toList)
    (noQuote : '"' ∉ name) : name <:+: (Identifier.unquote text).toList := by
  rw [Identifier.unquote]
  split
  · rename_i rest isQuoted
    split
    · rename_i closed
      rw [isQuoted] at inside
      have insideRest := isInfix_of_cons inside noQuote
      obtain ⟨others, rfl⟩ := List.getLast?_eq_some_iff.mp (beq_iff_eq.mp closed)
      rw [← List.reverse_infix, List.reverse_append, List.reverse_singleton,
        List.singleton_append] at insideRest
      have insideOthers := isInfix_of_cons insideRest fun member =>
        noQuote (List.mem_reverse.mp member)
      rw [List.reverse_infix] at insideOthers
      rw [String.toList_ofList, List.dropLast_concat]
      exact isInfix_undouble insideOthers noQuote
    · exact inside
  · exact inside

/-- A schema that has the given bare names in its parts, one in each. -/
def HasNames (names : List (List Char)) (schema : String) : Prop :=
  ∃ parts, schema = String.intercalate "." parts ∧
    List.Forall₂ (fun name part => Bare .folded name ∧ name <:+: part.toList) names parts

/-- The schema that is made of a qualifier, part by part. -/
theorem value_readQualifier (text code : Bytes) :
    (FromEntry.readQualifier text code).value =
      String.intercalate "." ((TopLevel.split code Byte.dot).map fun part =>
        Identifier.unquote (Text.trim (Bytes.text (text.extract part.start part.stop)))) := by
  simp only [FromEntry.readQualifier, Checked.value_bind, Checked.value_each, Checked.value_pure,
    Bytes.cut, List.map_map, Function.comp_def]

/-- The schema that is made of a qualifier has the identifiers of the code in its parts. -/
theorem hasNames_readQualifier {path : List Fragment} {used : List Char}
    (spelled : Spelled .folded 0 path used) (something : path ≠ []) {text : Bytes}
    (inText : InText text) (shows : Shows (encoded used) text) :
    HasNames (path.map (·.characters)) (FromEntry.readQualifier text (encoded used)).value := by
  have fromStart : Shows (encoded ([] ++ used)) (text.drop 0) := shows
  have parts := parts_spelled spelled something inText
    (fun _ member => absurd member List.not_mem_nil) fromStart (.inl rfl)
  rw [value_readQualifier]
  refine ⟨_, rfl, ?_⟩
  rw [List.forall₂_map_left_iff, List.forall₂_map_right_iff]
  apply parts.imp
  rintro fragment part ⟨bare, inside⟩
  refine ⟨bare, ?_⟩
  apply isInfix_unquote
  · apply isInfix_trim
    · rw [Bytes.text, String.toList_ofList]
      exact inside
    · intro character member
      exact not_isBlank_of_continuesName (bare.continues character member)
  · intro member
    have plain := bare.plain _ member
    cases plain

end QueryScope.SchemaParts
