import Mathlib.Data.List.Basic
import QueryScope.Sql.Clause
import QueryScope.Sql.Placeholder
import QueryScope.Proofs.Window

/-!
# Blanks around a SELECT block

Blanks at the ends of a block do not change what its clauses are. Keywords are solid: they have no
empty word and no word with a blank in it, so a search passes over blanks in front, and blanks
behind neither make nor break a hit. A clause that runs to the end of the block loses them when it
is trimmed.

What follows a blank may be more than blanks, as long as it does not go on with a keyword of several
words. Then a search goes on behind the blank at the depth that it has reached there.
-/

namespace QueryScope

/-- A blank is of no other use: it is no letter, belongs to no word and is no parenthesis. -/
theorem Byte.blank_eq {byte : UInt8} (blank : Byte.isBlank byte = true) :
    byte = 0x20 ∨ byte = 0x09 ∨ byte = 0x0A ∨ byte = 0x0C ∨ byte = 0x0D := by
  simpa only [Byte.isBlank, Bool.or_eq_true, beq_iff_eq, or_assoc] using blank

/-- A single space is made of blanks. -/
theorem Byte.isBlank_of_mem_space : ∀ byte ∈ [Byte.space], Byte.isBlank byte = true := by
  intro byte member
  rw [List.mem_singleton.mp member]
  rfl

/-- A blank belongs to no word, so blanks separate words. -/
theorem Byte.not_word_of_blank {byte : UInt8} (blank : Byte.isBlank byte = true) :
    Byte.isWordByte byte = false := by
  rcases Byte.blank_eq blank with rfl | rfl | rfl | rfl | rfl <;> decide

/-- A byte of a word is not blank. -/
theorem Byte.not_blank_of_word {byte : UInt8} (isWord : Byte.isWordByte byte = true) :
    Byte.isBlank byte = false := by
  rw [Bool.eq_false_iff]
  intro blank
  rw [Byte.not_word_of_blank blank] at isWord
  cases isWord

/-- A blank is a byte of ASCII, and so a character by itself. -/
theorem Byte.ascii_of_blank {byte : UInt8} (blank : Byte.isBlank byte = true) : byte < 0x80 := by
  rcases Byte.blank_eq blank with rfl | rfl | rfl | rfl | rfl <;> decide

/-- Capital forms of other bytes are not blank. -/
theorem Byte.upper_ne_of_blank {byte other : UInt8} (blank : Byte.isBlank byte = true)
    (solid : Byte.isBlank other = false) : Byte.upper byte ≠ Byte.upper other := by
  have unchanged : Byte.upper byte = byte := by
    rcases Byte.blank_eq blank with rfl | rfl | rfl | rfl | rfl <;> decide
  intro same
  rcases Byte.eq_or_eq_of_upper_eq (same.symm.trans unchanged) with rfl | rfl
  · rw [blank] at solid
    cases solid
  · rcases Byte.blank_eq blank with rfl | rfl | rfl | rfl | rfl <;> exact absurd same (by decide)

namespace Keyword

/-- Whether a keyword has a word, and every word has bytes and no blank among them. -/
def isSolid (keyword : Keyword) : Bool :=
  !keyword.words.isEmpty &&
    keyword.words.all fun word => !word.isEmpty && word.all (!Byte.isBlank ·)

/-- A word without blanks. -/
structure SolidWord (word : Bytes) : Prop where
  nonempty : word ≠ []
  solid : ∀ byte ∈ word, Byte.isBlank byte = false

/-- The words of a solid keyword. -/
theorem solidWord_of_isSolid {keyword : Keyword} (solid : keyword.isSolid = true) {word : Bytes}
    (member : word ∈ keyword.words) : SolidWord word := by
  rw [isSolid, Bool.and_eq_true] at solid
  have both := List.all_eq_true.mp solid.2 word member
  rw [Bool.and_eq_true, Bool.not_eq_true', List.isEmpty_eq_false_iff, List.all_eq_true] at both
  refine ⟨both.1, ?_⟩
  intro byte isByte
  have notBlank := both.2 byte isByte
  rwa [Bool.not_eq_true'] at notBlank

/-- A solid keyword has a first word. -/
theorem exists_first_of_isSolid {keyword : Keyword} (solid : keyword.isSolid = true) :
    ∃ first others, keyword.words = first :: others ∧ SolidWord first := by
  have nonempty : keyword.words ≠ [] := by
    rw [isSolid, Bool.and_eq_true, Bool.not_eq_true', List.isEmpty_eq_false_iff] at solid
    exact solid.1
  obtain ⟨first, others, words⟩ := List.exists_cons_of_ne_nil nonempty
  refine ⟨first, others, words, solidWord_of_isSolid solid ?_⟩
  rw [words]
  exact List.mem_cons_self

/-- Solid keywords take up space. -/
theorem takesSpace_of_isSolid {keywords : List Keyword}
    (solid : ∀ keyword ∈ keywords, keyword.isSolid = true) : TakesSpace keywords := by
  intro keyword member
  obtain ⟨first, others, words, solidFirst⟩ := exists_first_of_isSolid (solid keyword member)
  rw [words, List.head?_cons, Option.getD_some]
  exact List.length_pos_of_ne_nil solidFirst.nonempty

/-- Bytes that begin with a blank do not begin with a word. -/
theorem stripWord?_of_blank {word : Bytes} (solid : SolidWord word) {byte : UInt8}
    (blank : Byte.isBlank byte = true) (rest : Bytes) : stripWord? word (byte :: rest) = none := by
  obtain ⟨first, others, rfl⟩ := List.exists_cons_of_ne_nil solid.nonempty
  have different := Byte.upper_ne_of_blank blank (solid.solid first List.mem_cons_self)
  simp [stripWord?, Bytes.sameIgnoringCase, different]

/-- No word is to be had from nothing. -/
theorem stripWord?_nil {word : Bytes} (solid : SolidWord word) : stripWord? word [] = none := by
  obtain ⟨first, others, rfl⟩ := List.exists_cons_of_ne_nil solid.nonempty
  simp [stripWord?, Bytes.sameIgnoringCase]

/-- What follows a piece of code without going on with a keyword: it begins with a blank, if with
anything, and no further word of a keyword comes behind the blanks. -/
structure Pause (keywords : List Keyword) (back : Bytes) : Prop where
  blank : ∀ byte ∈ back.head?, Byte.isBlank byte = true
  unmet : ∀ keyword ∈ keywords, ∀ word ∈ keyword.words.tail,
    stripWord? word (back.dropWhile Byte.isBlank) = none

variable {back : Bytes}

/-- The byte right behind a word is no word byte whether or not a blank follows. -/
theorem head?_any_isWordByte (blankHead : ∀ byte ∈ back.head?, Byte.isBlank byte = true)
    (rest : Bytes) : (rest ++ back).head?.any Byte.isWordByte = rest.head?.any Byte.isWordByte := by
  cases rest with
  | cons byte others => rfl
  | nil =>
    cases back with
    | nil => rfl
    | cons blank others => exact Byte.not_word_of_blank (blankHead blank rfl)

/-- What begins with a blank neither makes nor breaks a word in front of it. -/
theorem stripWord?_append {word : Bytes} (solid : SolidWord word) (ahead : Bytes)
    (blankHead : ∀ byte ∈ back.head?, Byte.isBlank byte = true) :
    stripWord? word (ahead ++ back) = (stripWord? word ahead).map (· ++ back) := by
  rcases Nat.lt_or_ge ahead.length word.length with short | enough
  · -- the word would have to reach over the blank
    have notAhead : stripWord? word ahead = none := by
      cases stripped : stripWord? word ahead with
      | none => rfl
      | some rest =>
        have lengths := length_of_stripWord?_eq_some stripped
        omega
    rw [notAhead, Option.map_none]
    simp only [stripWord?, Bool.and_eq_true, Bytes.sameIgnoringCase, beq_iff_eq,
      ite_eq_right_iff, reduceCtorEq, imp_false, not_and]
    intro same
    have sameByte := congrArg (·[ahead.length]?) same
    simp only [List.getElem?_map, List.getElem?_take_of_lt short,
      List.getElem?_append_right (Nat.le_refl _), Nat.sub_self, ← List.head?_eq_getElem?,
      List.getElem?_eq_getElem short, Option.map_some, Option.map_eq_some_iff] at sameByte
    obtain ⟨blank, isFirst, sameUpper⟩ := sameByte
    exact absurd sameUpper (Byte.upper_ne_of_blank (blankHead blank isFirst)
      (solid.solid _ (List.getElem_mem short)))
  · simp only [stripWord?, List.take_append_of_le_length enough, List.drop_append_of_le_length enough,
      head?_any_isWordByte blankHead]
    split <;> rfl

/-- A pause neither makes nor breaks further words in front of it. -/
theorem stripSpaced?_append {words : List Bytes} (solid : ∀ word ∈ words, SolidWord word)
    (ahead : Bytes) (blankHead : ∀ byte ∈ back.head?, Byte.isBlank byte = true)
    (unmet : ∀ word ∈ words, stripWord? word (back.dropWhile Byte.isBlank) = none) :
    stripSpaced? words (ahead ++ back) = (stripSpaced? words ahead).map (· ++ back) := by
  induction words generalizing ahead with
  | nil => rfl
  | cons word others inductionHypothesis =>
    have solidWord := solid word List.mem_cons_self
    have solidOthers : ∀ other ∈ others, SolidWord other :=
      fun other member => solid other (List.mem_cons_of_mem _ member)
    have unmetOthers : ∀ other ∈ others, stripWord? other (back.dropWhile Byte.isBlank) = none :=
      fun other member => unmet other (List.mem_cons_of_mem _ member)
    have unmetWord := unmet word List.mem_cons_self
    cases ahead with
    | nil =>
      simp only [List.nil_append, stripSpaced?, unmetWord, Option.bind_none, ite_self, List.head?_nil,
        Option.any_none, Bool.false_eq_true, if_false, Option.map_none]
    | cons byte rest =>
      have sameHead : (byte :: rest ++ back).head?.any Byte.isBlank =
          (byte :: rest).head?.any Byte.isBlank := rfl
      rw [stripSpaced?, stripSpaced?, sameHead]
      by_cases blank : (byte :: rest).head?.any Byte.isBlank = true
      · rw [if_pos blank, if_pos blank, List.dropWhile_append]
        by_cases nothing : ((byte :: rest).dropWhile Byte.isBlank).isEmpty = true
        · rw [if_pos nothing, List.isEmpty_iff.mp nothing, stripWord?_nil solidWord, unmetWord]
          rfl
        · rw [if_neg nothing, stripWord?_append solidWord _ blankHead, Option.bind_map,
            Option.map_bind]
          congr 1
          funext between
          exact inductionHypothesis solidOthers between unmetOthers
      · rw [if_neg blank, if_neg blank]
        rfl

/-- A pause neither makes nor breaks a keyword in front of it. -/
theorem strip?_append {keywords : List Keyword} (pause : Pause keywords back) {keyword : Keyword}
    (member : keyword ∈ keywords) (solid : keyword.isSolid = true) (ahead : Bytes) :
    keyword.strip? (ahead ++ back) = (keyword.strip? ahead).map (· ++ back) := by
  have solidWords : ∀ word ∈ keyword.words, SolidWord word :=
    fun word isWord => solidWord_of_isSolid solid isWord
  have unmet := pause.unmet keyword member
  simp only [strip?]
  cases words : keyword.words with
  | nil => rfl
  | cons first others =>
    rw [words] at solidWords unmet
    simp only [stripWord?_append (solidWords first List.mem_cons_self) ahead pause.blank,
      Option.bind_map, Option.map_bind]
    congr 1
    funext between
    exact stripSpaced?_append (fun word isWord => solidWords word (List.mem_cons_of_mem _ isWord))
      between pause.blank unmet

/-- A choice among keywords is not changed by a pause behind. -/
theorem first?_append {keywords : List Keyword} (pause : Pause keywords back)
    (solid : ∀ keyword ∈ keywords, keyword.isSolid = true) (insideWord : Bool) (ahead : Bytes)
    (index : Nat) :
    first? insideWord (ahead ++ back) index keywords =
      (first? insideWord ahead index keywords).map fun found => (found.1, found.2 ++ back) := by
  induction keywords generalizing index with
  | nil => rfl
  | cons keyword others inductionHypothesis =>
    have solidOthers : ∀ other ∈ others, other.isSolid = true :=
      fun other member => solid other (List.mem_cons_of_mem _ member)
    have pauseOthers : Pause others back :=
      ⟨pause.blank, fun other member => pause.unmet other (List.mem_cons_of_mem _ member)⟩
    simp only [first?, strip?_append pause List.mem_cons_self (solid keyword List.mem_cons_self) ahead,
      inductionHypothesis pauseOthers solidOthers]
    split
    · rfl
    · cases keyword.strip? ahead <;> rfl

/-- Bytes that begin with a blank begin with no keyword. -/
theorem first?_of_blank {keywords : List Keyword}
    (solid : ∀ keyword ∈ keywords, keyword.isSolid = true) (insideWord : Bool)
    {byte : UInt8} (blank : Byte.isBlank byte = true) (rest : Bytes) (index : Nat) :
    first? insideWord (byte :: rest) index keywords = none := by
  induction keywords generalizing index with
  | nil => rfl
  | cons keyword others inductionHypothesis =>
    have solidOthers : ∀ other ∈ others, other.isSolid = true :=
      fun other member => solid other (List.mem_cons_of_mem _ member)
    obtain ⟨first, further, words, solidFirst⟩ :=
      exists_first_of_isSolid (solid keyword List.mem_cons_self)
    have notStripped : keyword.strip? (byte :: rest) = none := by
      simp only [strip?, words, stripWord?_of_blank solidFirst blank rest, Option.bind_none]
    simp only [first?, notStripped, inductionHypothesis solidOthers, ite_self]

/-- A hit further to the right. -/
def Hit.shift (hit : Hit) (distance : Nat) : Hit := ⟨hit.index, hit.span.shift distance⟩

/-- A search that starts further to the right finds the same further to the right. -/
theorem searchFrom_shift (keywords : List Keyword) (offset distance depth : Nat)
    (insideWord : Bool) (ahead : Bytes) :
    searchFrom keywords (offset + distance) depth insideWord ahead =
      (searchFrom keywords offset depth insideWord ahead).map (·.shift distance) := by
  induction ahead generalizing offset depth insideWord with
  | nil => rfl
  | cons byte rest inductionHypothesis =>
    rw [searchFrom, searchFrom]
    split
    · simp only [Option.map_some, Hit.shift, Span.shift, Nat.add_right_comm]
    · rw [Nat.add_right_comm, inductionHypothesis]

/-- A search passes over blanks. -/
theorem searchFrom_blank {keywords : List Keyword}
    (solid : ∀ keyword ∈ keywords, keyword.isSolid = true) (offset depth : Nat)
    (insideWord : Bool) (front : Bytes) (outside : front = [] → insideWord = false)
    (blankFront : ∀ byte ∈ front, Byte.isBlank byte = true) (ahead : Bytes) :
    searchFrom keywords offset depth insideWord (front ++ ahead) =
      searchFrom keywords (offset + front.length) depth false ahead := by
  induction front generalizing offset insideWord with
  | nil =>
    rw [outside rfl]
    rfl
  | cons byte rest inductionHypothesis =>
    have blank := blankFront byte List.mem_cons_self
    have blankRest : ∀ other ∈ rest, Byte.isBlank other = true :=
      fun other member => blankFront other (List.mem_cons_of_mem _ member)
    have sameDepth : depthAfter depth byte = depth := by
      rcases Byte.blank_eq blank with rfl | rfl | rfl | rfl | rfl <;> rfl
    rw [List.cons_append, searchFrom, first?_of_blank solid insideWord blank, ite_self]
    simp only [sameDepth, Byte.not_word_of_blank blank]
    rw [inductionHypothesis (offset + 1) false (fun _ => rfl) blankRest, List.length_cons,
      Nat.add_assoc, Nat.add_comm 1]

variable {front : Bytes}

/-- A search goes on behind a pause when nothing is found in front of it. -/
theorem searchFrom_append {keywords : List Keyword} (pause : Pause keywords back)
    (solid : ∀ keyword ∈ keywords, keyword.isSolid = true) (offset depth : Nat) (insideWord : Bool)
    (ahead : Bytes) :
    searchFrom keywords offset depth insideWord (ahead ++ back) =
      (searchFrom keywords offset depth insideWord ahead).or
        (searchFrom keywords (offset + ahead.length) (ahead.foldl depthAfter depth) false back) := by
  induction ahead generalizing offset depth insideWord with
  | nil =>
    -- At a blank it does not matter whether it stands behind a word.
    cases back with
    | nil => rfl
    | cons byte rest =>
      have blank := pause.blank byte rfl
      simp only [List.nil_append, searchFrom, first?_of_blank solid _ blank, ite_self,
        Option.none_or, List.length_nil, Nat.add_zero, List.foldl_nil]
  | cons byte rest inductionHypothesis =>
    have sameChoice := first?_append pause solid insideWord (byte :: rest) 0
    rw [List.cons_append] at sameChoice
    have further : offset + (byte :: rest).length = offset + 1 + rest.length := by
      rw [List.length_cons]
      omega
    rw [List.cons_append, searchFrom, searchFrom, sameChoice, inductionHypothesis, further,
      List.foldl_cons]
    by_cases atTop : (!isParenthesis byte && depth == 0) = true
    · rw [if_pos atTop, if_pos atTop]
      cases first? insideWord (byte :: rest) 0 keywords with
      | none => rfl
      | some found =>
        simp only [Option.map_some, List.length_cons, List.length_append, Option.some_or,
          Option.some.injEq, Hit.mk.injEq, Span.mk.injEq, true_and]
        omega
    · rw [if_neg atTop, if_neg atTop]

/-- Blanks are a pause. -/
theorem Pause.of_blank {keywords : List Keyword}
    (solid : ∀ keyword ∈ keywords, keyword.isSolid = true)
    (blankBack : ∀ byte ∈ back, Byte.isBlank byte = true) : Pause keywords back where
  blank byte isFirst := blankBack byte (List.mem_of_mem_head? isFirst)
  unmet keyword member word isWord := by
    rw [List.dropWhile_eq_nil_iff.mpr blankBack]
    exact stripWord?_nil (solidWord_of_isSolid (solid keyword member) (List.mem_of_mem_tail isWord))

/-- A search is not changed by blanks behind. -/
theorem searchFrom_append_blank {keywords : List Keyword}
    (solid : ∀ keyword ∈ keywords, keyword.isSolid = true)
    (blankBack : ∀ byte ∈ back, Byte.isBlank byte = true) (offset depth : Nat) (insideWord : Bool)
    (ahead : Bytes) :
    searchFrom keywords offset depth insideWord (ahead ++ back) =
      searchFrom keywords offset depth insideWord ahead := by
  have passed := searchFrom_blank solid (offset + ahead.length) (ahead.foldl depthAfter depth) false
    back (fun _ => rfl) blankBack []
  rw [List.append_nil] at passed
  rw [searchFrom_append (.of_blank solid blankBack) solid, passed, searchFrom, Option.or_none]

/-- A search in a padded block, from inside the block on. -/
theorem find?_padded {keywords : List Keyword}
    (solid : ∀ keyword ∈ keywords, keyword.isSolid = true)
    (blankFront : ∀ byte ∈ front, Byte.isBlank byte = true)
    (blankBack : ∀ byte ∈ back, Byte.isBlank byte = true) {code : Bytes} {offset : Nat}
    (within : offset ≤ code.length) :
    find? (front ++ (code ++ back)) (front.length + offset) keywords =
      (find? code offset keywords).map (·.shift front.length) := by
  have sameInside : ((front ++ (code ++ back)).take (front.length + offset)).getLast?.any
      Byte.isWordByte = (code.take offset).getLast?.any Byte.isWordByte := by
    rw [List.take_length_add_append, List.take_append_of_le_length within]
    cases last : (code.take offset).getLast? with
    | some byte => rw [List.getLast?_append, last, Option.some_or]
    | none =>
      rw [List.getLast?_append, last, Option.none_or, Option.any_none]
      cases lastFront : front.getLast? with
      | none => rfl
      | some byte => exact Byte.not_word_of_blank (blankFront byte (List.mem_of_getLast? lastFront))
  have start : min (front.length + offset) (front ++ (code ++ back)).length =
      min offset code.length + front.length := by
    simp only [List.length_append]
    omega
  rw [find?_eq_searchFrom, find?_eq_searchFrom, sameInside, start,
    Window.drop_window front code back within, searchFrom_append_blank solid blankBack,
    searchFrom_shift]

/-- A search in a padded block, from its beginning on. -/
theorem find?_zero_padded {keywords : List Keyword}
    (solid : ∀ keyword ∈ keywords, keyword.isSolid = true)
    (blankFront : ∀ byte ∈ front, Byte.isBlank byte = true)
    (blankBack : ∀ byte ∈ back, Byte.isBlank byte = true) (code : Bytes) :
    find? (front ++ (code ++ back)) 0 keywords =
      (find? code 0 keywords).map (·.shift front.length) := by
  simp only [find?_eq_searchFrom, List.take_zero, List.getLast?_nil, Option.any_none,
    List.drop_zero, Nat.zero_min]
  rw [searchFrom_blank solid 0 0 false front (fun _ => rfl) blankFront,
    searchFrom_append_blank solid blankBack, searchFrom_shift]

end Keyword

namespace Padding

variable {front back : Bytes}

/-- Blanks end where something else comes. -/
theorem takeWhile_append_of_ne_nil {ahead : Bytes} (something : ahead.dropWhile Byte.isBlank ≠ []) :
    (ahead ++ back).takeWhile Byte.isBlank = ahead.takeWhile Byte.isBlank := by
  have whole := congrArg List.length (List.takeWhile_append_dropWhile (p := Byte.isBlank) (l := ahead))
  have remains := List.length_pos_of_ne_nil something
  rw [List.length_append] at whole
  rw [List.takeWhile_append, if_neg (by omega)]

/-- What is left behind the blanks goes on with what follows. -/
theorem dropWhile_append_of_ne_nil {ahead : Bytes} (something : ahead.dropWhile Byte.isBlank ≠ []) :
    (ahead ++ back).dropWhile Byte.isBlank = ahead.dropWhile Byte.isBlank ++ back := by
  rw [List.dropWhile_append, if_neg (by rwa [List.isEmpty_iff])]

/-- The next word of a padded block. -/
theorem next?_padded (blankBack : ∀ byte ∈ back, Byte.isBlank byte = true) {code : Bytes}
    {offset : Nat} (within : offset ≤ code.length) :
    Word.next? (front ++ (code ++ back)) (front.length + offset) =
      (Word.next? code offset).map (·.shift front.length) := by
  have allSkipped : back.dropWhile Byte.isBlank = [] := List.dropWhile_eq_nil_iff.mpr blankBack
  have noWord : back.takeWhile Byte.isWordByte = [] := by
    cases back with
    | nil => rfl
    | cons byte rest =>
      rw [List.takeWhile_cons_of_neg]
      rw [Byte.not_word_of_blank (blankBack byte List.mem_cons_self)]
      exact Bool.false_ne_true
  rw [Word.next?_eq_ahead?, Word.next?_eq_ahead?, Window.drop_window front code back within,
    Word.ahead?, Word.ahead?]
  generalize code.drop offset = ahead
  by_cases nothing : ahead.dropWhile Byte.isBlank = []
  · simp only [List.dropWhile_append, nothing, List.isEmpty_nil, if_true, allSkipped,
      List.takeWhile_nil, Option.map_none]
  · have word : ((ahead ++ back).dropWhile Byte.isBlank).takeWhile Byte.isWordByte =
        (ahead.dropWhile Byte.isBlank).takeWhile Byte.isWordByte := by
      rw [dropWhile_append_of_ne_nil nothing, List.takeWhile_append, noWord, List.append_nil]
      split
      · rename_i whole
        exact ((List.takeWhile_prefix _).eq_of_length whole).symm
      · rfl
    simp only [takeWhile_append_of_ne_nil nothing, word]
    split
    · rfl
    · split
      · simp only [Option.map_some, Word.shift, Span.shift, Option.some.injEq, Word.mk.injEq,
          Span.mk.injEq, true_and]
        omega
      · rfl

/-- Two spans that cut the same out of a block and out of the block with `distance` bytes in front of
it: the second is the first moved, or both are empty. -/
def SameCut (distance length : Nat) (narrow wide : Span) : Prop :=
  (wide = narrow.shift distance ∧ narrow.stop ≤ length) ∨
    (narrow.stop ≤ narrow.start ∧ wide.stop ≤ wide.start)

/-- Such spans cut the same out of every padded text of that length. -/
theorem SameCut.extract_eq {distance : Nat} {narrow wide : Span} {front text : Bytes}
    (same : SameCut distance text.length narrow wide) (opened : front.length = distance)
    (back : Bytes) :
    (front ++ (text ++ back)).extract wide.start wide.stop =
      text.extract narrow.start narrow.stop := by
  rcases same with ⟨rfl, within⟩ | ⟨narrowEmpty, wideEmpty⟩
  · simp only [Span.shift, ← opened, Nat.add_comm _ front.length]
    exact Window.extract_window front text back narrow.start within
  · simp only [List.extract_eq_take_drop, Nat.sub_eq_zero_of_le narrowEmpty,
      Nat.sub_eq_zero_of_le wideEmpty, List.take_zero]

/-- Trimming what runs to the end of a padded block. -/
theorem trim_padded (blankBack : ∀ byte ∈ back, Byte.isBlank byte = true) {code : Bytes}
    {offset : Nat} (within : offset ≤ code.length) :
    SameCut front.length code.length (Bytes.trim code ⟨offset, code.length⟩).value
      (Bytes.trim (front ++ (code ++ back))
        ⟨offset + front.length, (front ++ (code ++ back)).length⟩).value := by
  have narrowPiece : code.extract offset code.length = code.drop offset := by
    rw [List.extract_eq_take_drop, List.take_of_length_le (by rw [List.length_drop])]
  have widePiece : (front ++ (code ++ back)).extract (offset + front.length)
      (front ++ (code ++ back)).length = code.drop offset ++ back := by
    rw [List.extract_eq_take_drop, List.take_of_length_le (by rw [List.length_drop]),
      Nat.add_comm offset, Window.drop_window front code back within]
  have aheadLength : (code.drop offset).length = code.length - offset := List.length_drop
  rw [Bytes.value_trim (Nat.le_refl _), Bytes.value_trim (Nat.le_refl _)]
  simp only [narrowPiece, widePiece]
  generalize code.drop offset = ahead at aheadLength
  by_cases nothing : ahead.dropWhile Byte.isBlank = []
  · -- only blanks are left, with or without those behind
    have allBlank := List.dropWhile_eq_nil_iff.mp nothing
    have narrowLeading : Bytes.leading ahead = ahead.length := by
      rw [Bytes.leading, List.takeWhile_eq_self_iff.mpr allBlank]
    have wideLeading : Bytes.leading (ahead ++ back) = ahead.length + back.length := by
      rw [Bytes.leading, List.takeWhile_eq_self_iff.mpr, List.length_append]
      intro byte member
      exact (List.mem_append.mp member).elim (allBlank byte) (blankBack byte)
    refine .inr ⟨?_, ?_⟩
    · simp only [narrowLeading]
      omega
    · simp only [wideLeading, List.length_append]
      omega
  · have sameLeading : Bytes.leading (ahead ++ back) = Bytes.leading ahead := by
      rw [Bytes.leading, Bytes.leading, takeWhile_append_of_ne_nil nothing]
    have moreTrailing : Bytes.trailing (ahead ++ back) = back.length + Bytes.trailing ahead := by
      rw [Bytes.trailing, Bytes.trailing, Bytes.drop_leading, Bytes.drop_leading,
        dropWhile_append_of_ne_nil nothing, List.reverse_append, List.takeWhile_append_of_pos,
        List.length_append, List.length_reverse]
      intro byte member
      exact blankBack byte (List.mem_reverse.mp member)
    have bound := Bytes.leading_add_trailing_le ahead
    refine .inl ⟨?_, Nat.sub_le _ _⟩
    simp only [sameLeading, moreTrailing, Span.shift, List.length_append, Span.mk.injEq]
    omega

end Padding

namespace Clause

/-- An opening further to the right. -/
def Opening.shift (opening : Opening) (distance : Nat) : Opening :=
  ⟨opening.clause, opening.offset + distance⟩

/-- What a hit opens goes along with it. -/
theorem Opening.ofHit?_shift (terminators : List Terminator) (hit : Keyword.Hit) (distance : Nat) :
    Opening.ofHit? terminators (hit.shift distance) =
      (Opening.ofHit? terminators hit).map (·.shift distance) := by
  rw [Opening.ofHit?, Opening.ofHit?, Option.map_bind]
  congr 1
  funext terminator
  rw [Function.comp_apply, Option.map_map]
  rfl

/-- What a hit opens begins right behind it. -/
theorem Opening.exists_hit {code : Bytes} {start : Nat} {terminators : List Terminator}
    {opening : Opening}
    (opened : opening ∈ (Clause.find? code start terminators).bind (ofHit? terminators)) :
    ∃ hit, Clause.find? code start terminators = some hit ∧ opening.offset = hit.span.stop := by
  obtain ⟨hit, found, opens⟩ := Option.bind_eq_some_iff.mp opened
  obtain ⟨terminator, _, opens⟩ := Option.bind_eq_some_iff.mp opens
  obtain ⟨clause, _, rfl⟩ := Option.map_eq_some_iff.mp opens
  exact ⟨hit, found, rfl⟩

/-- The keywords that end a clause are solid. -/
theorem isSolid_of_mem_terminators (clause : Clause) :
    ∀ keyword ∈ clause.terminators.map (·.keyword), keyword.isSolid = true := by
  rw [← List.all_eq_true]
  cases clause <;> decide

/-- A clause that is read only if the opening is its own. -/
def readIf (clause : Clause) (code : Bytes) (opening : Option Opening) : Span × Option Opening :=
  match opening with
  | none => (Span.absent, none)
  | some opening =>
    if opening.clause = clause then (clause.read code opening.offset).value
    else (Span.absent, some opening)

/-- Reading a clause that may have been opened. -/
theorem value_readOpened (clause : Clause) (code : Bytes) (opening : Option Opening) :
    (clause.readOpened code opening).value = clause.readIf code opening := by
  cases opening with
  | none => rfl
  | some opening =>
    rw [readOpened, readIf]
    split
    · rfl
    · rfl

end Clause

namespace Clauses

/-- The select list with what the keyword behind it opens; without `SELECT`, what the first keyword
opens. -/
def first (code : Bytes) : Span × Option Clause.Opening :=
  let leading := [Clause.fromTerminator, Clause.whereTerminator]
  match selectListOffset? code with
  | some offset => (Clause.selectList.read code offset).value
  | none => (Span.absent, (Clause.find? code 0 leading).bind (Clause.Opening.ofHit? leading))

/-- Reading the select list. -/
theorem value_readSelectList (code : Bytes) : (readSelectList code).value = first code := by
  rw [readSelectList, first, Checked.value_bind, value_searchSelectList]
  cases selectListOffset? code with
  | none => rfl
  | some offset => rfl

/-- The clauses are read one after the other, each from where the one before it was ended. -/
theorem value_ofCode (code : Bytes) :
    (ofCode code).value =
      let second := Clause.fromClause.readIf code (first code).2
      ⟨(first code).1, second.1, (Clause.whereClause.readIf code second.2).1⟩ := by
  simp only [ofCode, Checked.value_bind, value_readSelectList, Clause.value_readOpened]
  rfl

end Clauses

namespace Padding

variable {front back code : Bytes}

/-- The same part of a block read without and with padding: the spans cut the same, and what is
opened behind it is the same, further to the right. -/
structure SamePart (distance length : Nat) (narrow wide : Span × Option Clause.Opening) : Prop where
  cut : SameCut distance length narrow.1 wide.1
  opened : wide.2 = narrow.2.map (·.shift distance)
  within : ∀ opening ∈ narrow.2, opening.offset ≤ length

/-- A part that is absent. -/
theorem samePart_absent (distance : Nat) {length : Nat} {opening : Option Clause.Opening}
    (within : ∀ found ∈ opening, found.offset ≤ length) :
    SamePart distance length (Span.absent, opening)
      (Span.absent, opening.map (·.shift distance)) where
  cut := .inr ⟨Nat.le_refl _, Nat.le_refl _⟩
  opened := rfl
  within := within

/-- What a solid keyword's hit opens begins inside the block. -/
theorem offset_le_of_ofHit? {terminators : List Clause.Terminator}
    (solid : ∀ keyword ∈ terminators.map (·.keyword), keyword.isSolid = true) {start : Nat}
    {opening : Clause.Opening}
    (opened : opening ∈ (Clause.find? code start terminators).bind
      (Clause.Opening.ofHit? terminators)) : opening.offset ≤ code.length := by
  obtain ⟨hit, found, isOffset⟩ := Clause.Opening.exists_hit opened
  rw [isOffset]
  exact (Keyword.span_of_find?_eq_some (Keyword.takesSpace_of_isSolid solid) found).2.2

/-- Reading a clause in a padded block. -/
theorem read_padded (blankFront : ∀ byte ∈ front, Byte.isBlank byte = true)
    (blankBack : ∀ byte ∈ back, Byte.isBlank byte = true) (clause : Clause) {offset : Nat}
    (within : offset ≤ code.length) :
    SamePart front.length code.length (clause.read code offset).value
      (clause.read (front ++ (code ++ back)) (offset + front.length)).value := by
  have solid := clause.isSolid_of_mem_terminators
  have sameHit : Clause.find? (front ++ (code ++ back)) (offset + front.length)
      clause.terminators = (Clause.find? code offset clause.terminators).map
        (·.shift front.length) := by
    rw [Nat.add_comm]
    exact Keyword.find?_padded solid blankFront blankBack within
  have openingWithin : ∀ opening ∈ (Clause.find? code offset clause.terminators).bind
      (Clause.Opening.ofHit? clause.terminators), opening.offset ≤ code.length :=
    fun opening opened => offset_le_of_ofHit? solid opened
  simp only [Clause.value_read, sameHit]
  cases found : Clause.find? code offset clause.terminators with
  | none => exact ⟨trim_padded blankBack within, rfl, by simp⟩
  | some hit =>
    have bounds := Keyword.span_of_find?_eq_some (Keyword.takesSpace_of_isSolid solid) found
    rw [found] at openingWithin
    refine ⟨.inl ⟨?_, ?_⟩, ?_, openingWithin⟩
    · have endsInside : (⟨offset, hit.span.start⟩ : Span).stop ≤ code.length := by
        simp only
        omega
      exact Window.trim_window front code back _ endsInside
    · have inside := (Bytes.trim_inside code ⟨offset, hit.span.start⟩).2
      simp only [Option.map_some, Option.getD_some] at inside ⊢
      omega
    · exact Clause.Opening.ofHit?_shift clause.terminators hit front.length

/-- Reading a clause in a padded block if it is opened. -/
theorem readIf_padded (blankFront : ∀ byte ∈ front, Byte.isBlank byte = true)
    (blankBack : ∀ byte ∈ back, Byte.isBlank byte = true) (clause : Clause)
    {opening : Option Clause.Opening} (within : ∀ found ∈ opening, found.offset ≤ code.length) :
    SamePart front.length code.length (clause.readIf code opening)
      (clause.readIf (front ++ (code ++ back)) (opening.map (·.shift front.length))) := by
  cases opening with
  | none => exact samePart_absent _ within
  | some opening =>
    by_cases own : opening.clause = clause
    · have padded := read_padded blankFront blankBack clause (within opening rfl)
      simpa only [Clause.readIf, Option.map_some, Clause.Opening.shift, own, if_true] using padded
    · have absent := samePart_absent front.length within
      simpa only [Clause.readIf, Option.map_some, Clause.Opening.shift, own, if_false] using absent

/-- The select list of a padded block begins at the same place. -/
theorem selectListOffset?_padded (code : Bytes) (blankFront : ∀ byte ∈ front, Byte.isBlank byte = true)
    (blankBack : ∀ byte ∈ back, Byte.isBlank byte = true) :
    Clauses.selectListOffset? (front ++ (code ++ back)) =
        (Clauses.selectListOffset? code).map (· + front.length) ∧
      ∀ offset ∈ Clauses.selectListOffset? code, offset ≤ code.length := by
  have solid : ∀ keyword ∈ [Keyword.ofString "SELECT"], keyword.isSolid = true := by
    rw [← List.all_eq_true]
    decide
  rw [Clauses.selectListOffset?_eq, Clauses.selectListOffset?_eq,
    Keyword.find?_zero_padded solid blankFront blankBack]
  cases found : Keyword.find? code 0 [Keyword.ofString "SELECT"] with
  | none => simp
  | some hit =>
    have bounds := Keyword.span_of_find?_eq_some (Keyword.takesSpace_of_isSolid solid) found
    have sameWord : (Word.next? (front ++ (code ++ back)) (hit.span.stop + front.length)).filter
        Clauses.isQuantifier = ((Word.next? code hit.span.stop).filter
          Clauses.isQuantifier).map (·.shift front.length) := by
      rw [Nat.add_comm, next?_padded blankBack bounds.2.2, Option.filter_map]
      rfl
    simp only [Option.map_some, Keyword.Hit.shift, Span.shift, Clauses.behindQuantifier, sameWord]
    cases quantified : (Word.next? code hit.span.stop).filter Clauses.isQuantifier with
    | none => exact ⟨rfl, by simpa using bounds.2.2⟩
    | some word =>
      have met := (Option.filter_eq_some_iff.mp quantified).1
      have ended := Word.stop_le_of_next? met
      exact ⟨rfl, by simpa using ended⟩

/-- The first part of a padded block. -/
theorem first_padded (code : Bytes) (blankFront : ∀ byte ∈ front, Byte.isBlank byte = true)
    (blankBack : ∀ byte ∈ back, Byte.isBlank byte = true) :
    SamePart front.length code.length (Clauses.first code)
      (Clauses.first (front ++ (code ++ back))) := by
  obtain ⟨sameOffset, offsetWithin⟩ :=
    selectListOffset?_padded code blankFront blankBack
  rw [Clauses.first, Clauses.first, sameOffset]
  cases found : Clauses.selectListOffset? code with
  | some offset => exact read_padded blankFront blankBack _ (offsetWithin offset found)
  | none =>
    have solid : ∀ keyword ∈ [Clause.fromTerminator, Clause.whereTerminator].map (·.keyword),
        keyword.isSolid = true := by
      rw [← List.all_eq_true]
      decide
    have sameOpening : (Clause.find? (front ++ (code ++ back)) 0
        [Clause.fromTerminator, Clause.whereTerminator]).bind
          (Clause.Opening.ofHit? [Clause.fromTerminator, Clause.whereTerminator]) =
        ((Clause.find? code 0 [Clause.fromTerminator, Clause.whereTerminator]).bind
          (Clause.Opening.ofHit? [Clause.fromTerminator, Clause.whereTerminator])).map
            (·.shift front.length) := by
      rw [Clause.find?_eq, Clause.find?_eq, Keyword.find?_zero_padded solid blankFront blankBack,
        Option.bind_map, Option.map_bind]
      congr 1
      funext hit
      exact Clause.Opening.ofHit?_shift _ hit front.length
    simp only [Option.map_none, sameOpening]
    refine samePart_absent front.length ?_
    intro opening opened
    exact offset_le_of_ofHit? solid opened

/-- Blanks at its ends do not change what the clauses of a block are. -/
theorem ofCode_padded (code : Bytes) (blankFront : ∀ byte ∈ front, Byte.isBlank byte = true)
    (blankBack : ∀ byte ∈ back, Byte.isBlank byte = true) :
    SameCut front.length code.length (Clauses.ofCode code).value.selectList
        (Clauses.ofCode (front ++ (code ++ back))).value.selectList ∧
      SameCut front.length code.length (Clauses.ofCode code).value.fromClause
        (Clauses.ofCode (front ++ (code ++ back))).value.fromClause ∧
      SameCut front.length code.length (Clauses.ofCode code).value.whereClause
        (Clauses.ofCode (front ++ (code ++ back))).value.whereClause := by
  have first := first_padded code blankFront blankBack
  have second := readIf_padded blankFront blankBack .fromClause first.within
  rw [← first.opened] at second
  have third := readIf_padded blankFront blankBack .whereClause second.within
  rw [← second.opened] at third
  rw [Clauses.value_ofCode, Clauses.value_ofCode]
  exact ⟨first.cut, second.cut, third.cut⟩

/-- What is trimmed stands between blanks, and neither begins nor ends with one. -/
theorem exists_trimmed (code : Bytes) :
    ∃ front middle back, code = front ++ (middle ++ back) ∧
      (∀ byte ∈ front, Byte.isBlank byte = true) ∧ (∀ byte ∈ back, Byte.isBlank byte = true) ∧
      (∀ byte ∈ middle.head?, Byte.isBlank byte = false) ∧
      (∀ byte ∈ middle.getLast?, Byte.isBlank byte = false) ∧
      (Bytes.trim code ⟨0, code.length⟩).value = ⟨front.length, front.length + middle.length⟩ := by
  have reversed : ((code.dropWhile Byte.isBlank).reverse.dropWhile Byte.isBlank).reverse ++
      ((code.dropWhile Byte.isBlank).reverse.takeWhile Byte.isBlank).reverse =
        code.dropWhile Byte.isBlank := by
    rw [← List.reverse_append, List.takeWhile_append_dropWhile, List.reverse_reverse]
  have whole : code = code.takeWhile Byte.isBlank ++
      (((code.dropWhile Byte.isBlank).reverse.dropWhile Byte.isBlank).reverse ++
        ((code.dropWhile Byte.isBlank).reverse.takeWhile Byte.isBlank).reverse) := by
    rw [reversed, List.takeWhile_append_dropWhile]
  refine ⟨_, _, _, whole, ?_, ?_, ?_, ?_, ?_⟩
  · intro byte member
    exact List.mem_takeWhile_imp member
  · intro byte member
    exact List.mem_takeWhile_imp (List.mem_reverse.mp member)
  · intro byte isFirst
    have remains : (code.dropWhile Byte.isBlank).head? = some byte := by
      rw [← reversed, List.head?_append, isFirst, Option.some_or]
    have solid := List.head?_dropWhile_not Byte.isBlank code
    rwa [remains] at solid
  · intro byte isLast
    rw [List.getLast?_reverse, Option.mem_def] at isLast
    have solid := List.head?_dropWhile_not Byte.isBlank (code.dropWhile Byte.isBlank).reverse
    rwa [isLast] at solid
  · have piece : code.extract 0 code.length = code := by
      rw [List.extract_eq_take_drop, List.drop_zero, Nat.sub_zero, List.take_length]
    have lengths := congrArg List.length whole
    simp only [List.length_append, List.length_reverse] at lengths
    rw [Bytes.value_trim (Nat.le_refl _)]
    simp only [piece, Bytes.trailing, Bytes.drop_leading]
    simp only [Bytes.leading, Nat.zero_add, Span.mk.injEq, List.length_reverse, true_and]
    omega

/-- Blanks in front hold no placeholder. -/
theorem count_append_blank {front : Bytes} (blankFront : ∀ byte ∈ front, Byte.isBlank byte = true)
    (code : Bytes) : Placeholder.count (front ++ code) = Placeholder.count code := by
  induction front with
  | nil => rfl
  | cons byte rest inductionHypothesis =>
    have notOpening : Placeholder.bytes.isPrefixOf (byte :: (rest ++ code)) = false := by
      rcases Byte.blank_eq (blankFront byte List.mem_cons_self) with
        rfl | rfl | rfl | rfl | rfl <;> rfl
    have others := inductionHypothesis fun other member =>
      blankFront other (List.mem_cons_of_mem _ member)
    rw [Placeholder.count] at others ⊢
    rw [List.cons_append, Bytes.occurrences, notOpening, others, Placeholder.count]
    simp

end Padding

end QueryScope
