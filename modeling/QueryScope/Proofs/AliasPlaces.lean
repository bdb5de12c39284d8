import Mathlib.Data.List.Basic
import QueryScope.Proofs.EntryOrder
import QueryScope.Proofs.FromRoundTrip
import QueryScope.Proofs.Joints

/-!
# Aliases stay with their entries

Behind a subquery may come an alias: blanks, `AS` if it is written, and a word that is not reserved.
The same alias is part of an entry of a FROM clause. The entry is cut out of the clause in many
steps, at keywords, commas, blanks and the modifiers of joins, but none of them cuts through the
alias: no keyword and no comma is met in it, it does not end with a blank, and it is no modifier. So
an entry that reaches up to the subquery reaches up to the end of its alias.
-/

namespace QueryScope

open Bytes

/-- What stands between a subquery and its alias: blanks, or `AS` with blanks around it. -/
inductive Introduces : Bytes → Prop
  | bare {blanks : Bytes} (blank : ∀ byte ∈ blanks, Byte.isBlank byte = true) : Introduces blanks
  | explicit {before keyword behind : Bytes}
      (blankBefore : ∀ byte ∈ before, Byte.isBlank byte = true)
      (isAs : sameIgnoringCase keyword (ofString "AS") = true)
      (blankBehind : ∀ byte ∈ behind, Byte.isBlank byte = true) (apart : behind ≠ []) :
      Introduces (before ++ (keyword ++ behind))

/-- An alias stands at an offset of the code, behind its introduction. The alias is a whole word that
is not reserved. -/
structure AliasAt (code : Bytes) (offset : Nat) (gap : Bytes) (name : String) : Prop where
  here : ∃ back, code.drop offset = gap ++ (ofString name ++ back) ∧
    back.head?.any Byte.isWordByte = false
  introduced : Introduces gap
  nonempty : ofString name ≠ []
  isWord : ∀ byte ∈ ofString name, Byte.isWordByte byte = true
  notReserved : Word.isReserved name = false

/-- A word with the blanks in front of it. -/
theorem Word.exists_ahead_of_next? {code : Bytes} (spells : IsText code) {offset : Nat}
    (begins : CutAt code offset) {word : Word} (met : next? code offset = some word) :
    ∃ blanks back, code.drop offset = blanks ++ (word.spelling ++ back) ∧
      code.drop word.span.stop = back ∧ (∀ byte ∈ blanks, Byte.isBlank byte = true) ∧
      back.head?.any Byte.isWordByte = false ∧
      (∀ byte ∈ word.spelling, Byte.isWordByte byte = true) ∧ word.spelling ≠ [] ∧
      ofString (Bytes.text word.spelling) = word.spelling := by
  obtain ⟨blanks, back, ahead, blank, isWord, ⟨first, others, spelled, _⟩, ended, place⟩ :=
    split_of_next?_eq_some met
  have cut : code.extract word.span.start word.span.stop = word.spelling := by
    have start : word.span.start = offset + blanks.length := by rw [place]
    have stop : word.span.stop = word.span.start + word.spelling.length := by rw [place]
    rw [stop, List.extract_eq_take_drop, Nat.add_sub_cancel_left, start, ← List.drop_drop, ahead,
      List.drop_left, List.take_left]
  have isText := (cutOut_of_next? spells begins met).isText
  rw [cut] at isText
  refine ⟨blanks, back, ahead, drop_stop ahead place, blank, ?_, isWord, ?_,
    isText.ofString_text⟩
  · cases back with
    | nil => rfl
    | cons byte rest => exact ended byte rfl
  · rw [spelled]
    exact List.cons_ne_nil _ _

/-- The words that are read as an alias: the first one, or the second one when the first one is
`AS`. -/
theorem Subquery.exists_words_of_aliasAt? {code : Bytes} {offset : Nat} {name : String}
    (found : aliasAt? code offset = some name) :
    ∃ first word, Word.next? code offset = some first ∧
      (first.is "AS" = true ∧ Word.next? code first.span.stop = some word ∨ word = first) ∧
      Word.isReserved name = false ∧ aliasMayEnd code word.span.stop = true ∧
      Bytes.text word.spelling = name := by
  rw [aliasAt?_eq] at found
  obtain ⟨first, met, found⟩ := Option.bind_eq_some_iff.mp found
  have named {word : Word} (isName : (if (!Word.isReserved (Bytes.text word.spelling) &&
      aliasMayEnd code word.span.stop) = true then some (Bytes.text word.spelling) else none) =
        some name) :
      Word.isReserved name = false ∧ aliasMayEnd code word.span.stop = true ∧
        Bytes.text word.spelling = name := by
    simp only [Option.ite_none_right_eq_some, Bool.and_eq_true, Bool.not_eq_true',
      Option.some.injEq] at isName
    obtain ⟨⟨notReserved, mayEnd⟩, rfl⟩ := isName
    exact ⟨notReserved, mayEnd, rfl⟩
  split at found
  · rename_i isAs
    obtain ⟨word, isWord, found⟩ := Option.bind_eq_some_iff.mp found
    exact ⟨first, word, met, .inl ⟨isAs, isWord⟩, named found⟩
  · exact ⟨first, first, met, .inr rfl, named found⟩

/-- The alias that is read behind a subquery stands there. -/
theorem exists_aliasAt {code : Bytes} (spells : IsText code) {offset : Nat}
    (begins : CutAt code offset) {name : String}
    (found : Subquery.aliasAt? code offset = some name) :
    ∃ gap, AliasAt code offset gap name := by
  obtain ⟨first, word, met, either, notReserved, _, rfl⟩ := Subquery.exists_words_of_aliasAt? found
  obtain ⟨blanks, back, ahead, behind, blank, ended, isWord, nonempty, spelled⟩ :=
    Word.exists_ahead_of_next? spells begins met
  rcases either with ⟨isAs, isAlias⟩ | rfl
  · have stop := (Word.cutOut_of_next? spells begins met).stop
    obtain ⟨more, rest, aheadAlias, _, blankMore, endedAlias, isWordAlias, nonemptyAlias,
      spelledAlias⟩ := Word.exists_ahead_of_next? spells stop isAlias
    rw [behind] at aheadAlias
    subst aheadAlias
    refine ⟨blanks ++ (first.spelling ++ more), ⟨rest, ?_, endedAlias⟩, ?_, ?_, ?_, notReserved⟩
    · rw [ahead, spelledAlias]
      simp only [List.append_assoc]
    · refine .explicit blank isAs blankMore ?_
      -- Words are as long as they can be, so two of them do not touch.
      rintro rfl
      obtain ⟨byte, others, isByte⟩ := List.exists_cons_of_ne_nil nonemptyAlias
      rw [isByte] at ended isWordAlias
      rw [List.nil_append, List.cons_append, List.head?_cons, Option.any_some,
        isWordAlias byte List.mem_cons_self] at ended
      cases ended
    · rwa [spelledAlias]
    · rwa [spelledAlias]
  · refine ⟨blanks, ⟨back, ?_, ended⟩, .bare blank, ?_, ?_, notReserved⟩
    · rw [ahead, spelled]
    · rwa [spelled]
    · rwa [spelled]

namespace Keyword

/-- Where a search meets a keyword: what is in front tells whether the keyword would begin inside a
word. -/
theorem exists_met_of_searchFrom {keywords : List Keyword} {depth : Nat} {front ahead : Bytes}
    {hit : Hit} (found : searchFrom keywords front.length depth
      (front.getLast?.any Byte.isWordByte) ahead = some hit) :
    ∃ more byte rest, ahead = more ++ byte :: rest ∧ hit.span.start = (front ++ more).length ∧
      (first? ((front ++ more).getLast?.any Byte.isWordByte) (byte :: rest) 0 keywords).isSome =
        true := by
  induction ahead generalizing front depth with
  | nil => cases found
  | cons byte rest inductionHypothesis =>
    simp only [searchFrom] at found
    split at found
    · rename_i index after met
      cases found
      split at met
      · refine ⟨[], byte, rest, rfl, by rw [List.append_nil], ?_⟩
        rw [List.append_nil, met, Option.isSome_some]
      · cases met
    · have length : front.length + 1 = (front ++ [byte]).length := by
        rw [List.length_append, List.length_singleton]
      have last : Byte.isWordByte byte = (front ++ [byte]).getLast?.any Byte.isWordByte := by
        rw [List.getLast?_concat, Option.any_some]
      rw [length, last] at found
      obtain ⟨more, next, others, rfl, place, met⟩ := inductionHypothesis found
      refine ⟨byte :: more, next, others, rfl, ?_, ?_⟩
      · rw [place, List.append_assoc, List.singleton_append]
      · rwa [List.append_assoc, List.singleton_append] at met

/-- Where a keyword is found, it is met. -/
theorem exists_met_of_find? {keywords : List Keyword} {code : Bytes} {offset : Nat} {hit : Hit}
    (found : find? code offset keywords = some hit) :
    ∃ front byte rest, code = front ++ byte :: rest ∧ hit.span.start = front.length ∧
      (first? (front.getLast?.any Byte.isWordByte) (byte :: rest) 0 keywords).isSome = true := by
  rw [find?_eq_searchFrom, ← List.length_take] at found
  obtain ⟨more, byte, rest, ahead, place, met⟩ := exists_met_of_searchFrom found
  refine ⟨code.take offset ++ more, byte, rest, ?_, place, met⟩
  rw [List.append_assoc, ← ahead, List.take_append_drop]

/-- Of two ways to cut a list in two, the longer front goes on with the beginning of the other
back. -/
theorem exists_append_of_length_le {short long front back : Bytes}
    (same : short ++ front = long ++ back) (shorter : short.length ≤ long.length) :
    ∃ more, long = short ++ more ∧ front = more ++ back := by
  rcases List.append_eq_append_iff.mp same with ⟨more, isLong, isFront⟩ | ⟨more, rfl, isBack⟩
  · exact ⟨more, isLong, isFront⟩
  · rw [List.length_append] at shorter
    obtain rfl : more = [] := List.eq_nil_of_length_eq_zero (by omega)
    exact ⟨[], by simp, isBack.symm⟩

/-- No keyword is met at a byte of a word that is foreign to all of them. Only the first byte of a
word may have no byte of a word in front of it. -/
theorem first?_inside_foreign {keywords : List Keyword}
    (orderly : ∀ keyword ∈ keywords, keyword.isOrderly = true) (front : Bytes)
    {earlier later back : Bytes} {byte : UInt8}
    (isWord : ∀ other ∈ earlier ++ byte :: later, Byte.isWordByte other = true)
    (foreign : ∀ keyword ∈ keywords, keyword.isForeign (earlier ++ byte :: later) = true)
    (ended : back.head?.any Byte.isWordByte = false) :
    first? ((front ++ earlier).getLast?.any Byte.isWordByte) (byte :: (later ++ back)) 0 keywords =
      none := by
  have isWordByte : Byte.isWordByte byte = true := isWord byte (by simp)
  cases insideWord : (front ++ earlier).getLast?.any Byte.isWordByte with
  | true => exact first?_insideWord orderly isWordByte _ _
  | false =>
    cases earlier using List.reverseRecOn with
    | nil => exact first?_of_foreign orderly isWord foreign ended 0
    | append_singleton before last =>
      have isLast : Byte.isWordByte last = true := isWord last (by simp)
      rw [← List.append_assoc, List.getLast?_concat, Option.any_some, isLast] at insideWord
      cases insideWord

/-- No keyword is found in a word that is foreign to all of them, nor in the blanks before it. -/
theorem le_start_of_find? {keywords : List Keyword}
    (orderly : ∀ keyword ∈ keywords, keyword.isOrderly = true) {before blanks word back : Bytes}
    (blank : ∀ byte ∈ blanks, Byte.isBlank byte = true)
    (isWord : ∀ byte ∈ word, Byte.isWordByte byte = true)
    (foreign : ∀ keyword ∈ keywords, keyword.isForeign word = true)
    (ended : back.head?.any Byte.isWordByte = false) {offset : Nat} {hit : Hit}
    (found : find? (before ++ (blanks ++ (word ++ back))) offset keywords = some hit)
    (behind : before.length ≤ hit.span.start) :
    before.length + (blanks.length + word.length) ≤ hit.span.start := by
  obtain ⟨front, byte, rest, whole, place, met⟩ := exists_met_of_find? found
  rw [place] at behind ⊢
  obtain ⟨more, rfl, ahead⟩ := exists_append_of_length_le whole behind
  by_contra inside
  rw [List.length_append] at inside
  have unmet : first? ((before ++ more).getLast?.any Byte.isWordByte) (byte :: rest) 0 keywords =
      none := by
    rcases Nat.lt_or_ge more.length blanks.length with inBlanks | behindBlanks
    · obtain ⟨others, isBlanks, isRest⟩ :=
        exists_append_of_length_le ahead.symm (Nat.le_of_lt inBlanks)
      cases others with
      | nil =>
        rw [List.append_nil] at isBlanks
        rw [isBlanks] at inBlanks
        exact absurd inBlanks (Nat.lt_irrefl _)
      | cons first others =>
        obtain rfl : byte = first := (List.cons.inj isRest).1
        have isBlank := blank byte (by simp [isBlanks])
        apply first?_of_isMark orderly
        rcases Byte.blank_eq isBlank with rfl | rfl | rfl | rfl | rfl <;> decide
    · obtain ⟨inWord, rfl, aheadWord⟩ := exists_append_of_length_le ahead behindBlanks
      rw [List.length_append] at inside
      obtain ⟨others, isWhole, isRest⟩ :=
        exists_append_of_length_le aheadWord.symm (by omega)
      cases others with
      | nil =>
        rw [List.append_nil] at isWhole
        rw [isWhole] at inside
        exact absurd (Nat.le_refl _) inside
      | cons first others =>
        obtain ⟨rfl, rfl⟩ : byte = first ∧ rest = others ++ back := List.cons.inj isRest
        rw [isWhole] at isWord foreign
        rw [← List.append_assoc]
        exact first?_inside_foreign orderly _ isWord foreign ended
  rw [unmet] at met
  cases met

end Keyword

/-- A FROM clause is absent, or it begins behind a keyword and ends before another one or at the end
of the code. -/
theorem Clauses.fromClause_cases (code : Bytes) :
    (ofCode code).value.fromClause = Span.absent ∨
      ∃ start, (ofCode code).value.fromClause = (Bytes.trim code
        ⟨start, Keyword.firstStart code start code.length
          (Clause.fromClause.terminators.map (·.keyword))⟩).value := by
  rw [value_ofCode]
  simp only [Clause.readIf]
  split
  · exact .inl rfl
  · rename_i opening _
    split
    · refine .inr ⟨opening.offset, ?_⟩
      rw [Keyword.firstStart_length]
      rfl
    · exact .inl rfl

/-- An introduction that is not empty ends with a blank. -/
theorem Introduces.exists_last {gap : Bytes} (introduced : Introduces gap) (apart : gap ≠ []) :
    ∃ front blank, gap = front ++ [blank] ∧ Byte.isBlank blank = true := by
  cases introduced with
  | bare blank =>
    cases gap using List.reverseRecOn with
    | nil => exact absurd rfl apart
    | append_singleton front last => exact ⟨front, last, rfl, blank last (by simp)⟩
  | @explicit before keyword behind _ _ blankBehind something =>
    cases behind using List.reverseRecOn with
    | nil => exact absurd rfl something
    | append_singleton front last =>
      exact ⟨before ++ (keyword ++ front), last, by simp, blankBehind last (by simp)⟩

/-- An introduction is made of blanks and of bytes of words. -/
theorem Introduces.blank_or_word {gap : Bytes} (introduced : Introduces gap) :
    ∀ byte ∈ gap, Byte.isBlank byte = true ∨ Byte.isWordByte byte = true := by
  cases introduced with
  | bare blank => exact fun byte member => .inl (blank byte member)
  | explicit blankBefore isAs blankBehind _ =>
    have letters := Keyword.isLetter_of_mem_spelled (beq_iff_eq.mp isAs)
      (List.all_eq_true.mp (by decide))
    intro byte member
    rw [List.mem_append, List.mem_append] at member
    rcases member with inFront | inKeyword | inBack
    · exact .inl (blankBefore byte inFront)
    · exact .inr (Keyword.isWordByte_of_isLetter (letters byte inKeyword))
    · exact .inl (blankBehind byte inBack)

/-- Where an alias ends that stands at an offset, behind its introduction. -/
def aliasStop (offset : Nat) (gap : Bytes) (name : String) : Nat :=
  offset + (gap.length + (ofString name).length)

namespace AliasAt

variable {code gap : Bytes} {offset : Nat} {name : String}

/-- The alias in the code, with what is on either side of it. -/
theorem exists_split (aliasAt : AliasAt code offset gap name) :
    ∃ front back, code = front ++ (gap ++ (ofString name ++ back)) ∧ front.length = offset ∧
      back.head?.any Byte.isWordByte = false := by
  obtain ⟨back, ahead, ended⟩ := aliasAt.here
  refine ⟨code.take offset, back, ?_, ?_, ended⟩
  · rw [← ahead, List.take_append_drop]
  · have lengths := congrArg List.length ahead
    have positive := List.length_pos_iff.mpr aliasAt.nonempty
    simp only [List.length_drop, List.length_append] at lengths
    rw [List.length_take]
    omega

/-- An alias lies inside the code. -/
theorem stop_le_length (aliasAt : AliasAt code offset gap name) :
    aliasStop offset gap name ≤ code.length := by
  obtain ⟨front, back, rfl, isLength, _⟩ := aliasAt.exists_split
  simp only [aliasStop, List.length_append]
  omega

/-- An alias and its introduction are made of blanks and of bytes of words. -/
theorem blank_or_word (aliasAt : AliasAt code offset gap name) {index : Nat}
    (behind : offset ≤ index) (before : index < aliasStop offset gap name) {byte : UInt8}
    (shown : code[index]? = some byte) :
    Byte.isBlank byte = true ∨ Byte.isWordByte byte = true := by
  obtain ⟨front, back, rfl, isLength, _⟩ := aliasAt.exists_split
  rw [List.getElem?_append_right (by omega), ← List.append_assoc, List.getElem?_append_left] at shown
  · rcases List.mem_append.mp (List.mem_of_getElem? shown) with inGap | inName
    · exact aliasAt.introduced.blank_or_word byte inGap
    · exact .inr (aliasAt.isWord byte inName)
  · rw [aliasStop] at before
    rw [List.length_append]
    omega

/-- So an alias in front of any other byte ends before it. -/
theorem le_of_shown (aliasAt : AliasAt code offset gap name) {index : Nat} (behind : offset ≤ index)
    {byte : UInt8} (shown : code[index]? = some byte)
    (foreign : (Byte.isBlank byte || Byte.isWordByte byte) = false) :
    aliasStop offset gap name ≤ index := by
  by_contra inside
  have known := aliasAt.blank_or_word behind (Nat.not_le.mp inside) shown
  rw [← Bool.or_eq_true, foreign] at known
  cases known

/-- A word has no blanks. -/
theorem solid (aliasAt : AliasAt code offset gap name) :
    ∀ byte ∈ ofString name, Byte.isBlank byte = false :=
  fun byte member => Byte.not_blank_of_word (aliasAt.isWord byte member)

/-- An alias ends with something other than a blank. -/
theorem exists_last (aliasAt : AliasAt code offset gap name) :
    ∃ last byte, last + 1 = aliasStop offset gap name ∧ offset ≤ last ∧ code[last]? = some byte ∧
      Byte.isBlank byte = false := by
  obtain ⟨front, back, rfl, isLength, _⟩ := aliasAt.exists_split
  obtain ⟨earlier, byte, isName⟩ : ∃ earlier byte, ofString name = earlier ++ [byte] :=
    ⟨_, _, (List.dropLast_append_getLast aliasAt.nonempty).symm⟩
  refine ⟨offset + (gap.length + earlier.length), byte, ?_, Nat.le_add_right _ _, ?_, ?_⟩
  · rw [aliasStop, isName, List.length_append, List.length_singleton]
    simp only [Nat.add_assoc]
  · rw [← isLength, isName, List.getElem?_append_right (Nat.le_add_right _ _),
      Nat.add_sub_cancel_left, List.getElem?_append_right (Nat.le_add_right _ _),
      Nat.add_sub_cancel_left, List.append_assoc, List.getElem?_append_right (Nat.le_refl _),
      Nat.sub_self]
    rfl
  · exact aliasAt.solid byte (by simp [isName])

/-- An alias of the code is one of every piece that holds it. -/
theorem extract (aliasAt : AliasAt code offset gap name) {start stop : Nat}
    (begins : start ≤ offset) (ends : aliasStop offset gap name ≤ stop) :
    AliasAt (code.extract start stop) (offset - start) gap name := by
  obtain ⟨back, ahead, ended⟩ := aliasAt.here
  refine ⟨⟨back.take (stop - aliasStop offset gap name), ?_, ?_⟩, aliasAt.introduced,
    aliasAt.nonempty, aliasAt.isWord, aliasAt.notReserved⟩
  · have length : stop - start - (offset - start) = gap.length + ((ofString name).length +
        (stop - aliasStop offset gap name)) := by
      rw [aliasStop] at ends ⊢
      omega
    rw [List.extract_eq_take_drop, List.drop_take, List.drop_drop, Nat.add_sub_cancel' begins, ahead,
      length, List.take_length_add_append, List.take_length_add_append]
  · rw [List.head?_take]
    split
    · rfl
    · exact ended

/-- An alias that ends before the code is cut off is the alias of what is left. -/
theorem take (aliasAt : AliasAt code offset gap name) {stop : Nat}
    (ends : aliasStop offset gap name ≤ stop) : AliasAt (code.take stop) offset gap name := by
  have piece := aliasAt.extract (Nat.zero_le offset) ends
  rwa [Window.extract_zero, Nat.sub_zero] at piece

variable {keywords : List Keyword}

/-- No keyword that begins with a reserved word other than `AS` is found in an alias or in its
introduction. -/
theorem le_start (unmet : Written.Unmet keywords) (aliasAt : AliasAt code offset gap name)
    {start : Nat} {hit : Keyword.Hit} (found : Keyword.find? code start keywords = some hit)
    (behind : offset ≤ hit.span.start) : aliasStop offset gap name ≤ hit.span.start := by
  have foreign : ∀ keyword ∈ keywords, keyword.isForeign (ofString name) = true :=
    fun keyword member => Written.isForeign_of_not_isReserved aliasAt.nonempty aliasAt.isWord
      aliasAt.notReserved (unmet.reserved keyword member)
  obtain ⟨front, back, rfl, rfl, ended⟩ := aliasAt.exists_split
  rw [aliasStop]
  cases aliasAt.introduced with
  | bare blank =>
    exact Keyword.le_start_of_find? unmet.orderly blank aliasAt.isWord foreign ended found behind
  | @explicit before keyword behindAs blankBefore isAs blankBehind apart =>
    rw [sameIgnoringCase, beq_iff_eq] at isAs
    have isWord : ∀ byte ∈ keyword, Byte.isWordByte byte = true := fun byte member =>
      Keyword.isWordByte_of_isLetter (Keyword.isLetter_of_mem_spelled isAs
        (List.all_eq_true.mp (by decide)) byte member)
    have foreignAs : ∀ other ∈ keywords, other.isForeign keyword = true := by
      intro other member
      have notAs := unmet.notAs other member
      simpa only [Keyword.isForeign, sameIgnoringCase, isAs] using notAs
    have endedAs : (behindAs ++ (ofString name ++ back)).head?.any Byte.isWordByte = false := by
      obtain ⟨byte, others, rfl⟩ := List.exists_cons_of_ne_nil apart
      exact Byte.not_word_of_blank (blankBehind byte List.mem_cons_self)
    rw [List.append_assoc, List.append_assoc] at found
    have behindKeyword := Keyword.le_start_of_find? unmet.orderly blankBefore isWord foreignAs endedAs
      found behind
    have regrouped : front ++ (before ++ (keyword ++ (behindAs ++ (ofString name ++ back)))) =
        (front ++ (before ++ keyword)) ++ (behindAs ++ (ofString name ++ back)) := by
      simp only [List.append_assoc]
    rw [regrouped] at found
    have behindName := Keyword.le_start_of_find? unmet.orderly blankBehind aliasAt.isWord foreign
      ended found (by simpa only [List.length_append] using behindKeyword)
    simp only [List.length_append] at behindName ⊢
    omega

/-- What comes before the first keyword of a list, or before the end when there is none, is not cut
off inside an alias. -/
theorem le_firstStart (unmet : Written.Unmet keywords) (aliasAt : AliasAt code offset gap name)
    {start stop : Nat} (ends : aliasStop offset gap name ≤ stop)
    (behind : offset ≤ Keyword.firstStart code start stop keywords) :
    aliasStop offset gap name ≤ Keyword.firstStart code start stop keywords := by
  rw [Keyword.firstStart] at behind ⊢
  cases found : Keyword.find? (code.take stop) start keywords with
  | none => exact ends
  | some hit =>
    rw [found] at behind
    exact (aliasAt.take ends).le_start unmet found behind

/-- Trimming cuts off nothing of an alias. -/
theorem le_trim (aliasAt : AliasAt code offset gap name) {span : Span} (begins : span.start ≤ offset)
    (ends : aliasStop offset gap name ≤ span.stop) (within : span.stop ≤ code.length) :
    aliasStop offset gap name ≤ (Bytes.trim code span).value.stop := by
  obtain ⟨last, byte, isLast, behind, shown, solid⟩ := aliasAt.exists_last
  have trimmed := trimmed_trim (by omega) within
  rw [← isLast] at ends ⊢
  by_contra cutOff
  have blank := trimmed.blankBack byte (Window.mem_extract shown (by omega) (by omega))
  rw [solid] at blank
  cases blank

/-- A clause is not split inside an alias. -/
theorem le_part (aliasAt : AliasAt code offset gap name) {part : Span}
    (isPart : part ∈ TopLevel.split code Byte.comma) (behind : offset ≤ part.stop) :
    aliasStop offset gap name ≤ part.stop := by
  rcases (TopLevel.part_of_mem_split isPart).ends with atEnd | shown
  · rw [atEnd]
    exact aliasAt.stop_le_length
  · exact aliasAt.le_of_shown behind shown (by decide)

/-- A part is not cut at a join inside an alias. -/
theorem le_piece (aliasAt : AliasAt code offset gap name) {start stop : Nat}
    (within : stop ≤ code.length) (ends : aliasStop offset gap name ≤ stop) {piece : Span}
    (isPiece : piece ∈ FromEntry.betweenJoins (code.take stop) start) (behind : offset ≤ piece.stop) :
    aliasStop offset gap name ≤ piece.stop := by
  have length : (code.take stop).length = stop := by
    rw [List.length_take, Nat.min_eq_left within]
  refine FromEntry.forall_betweenJoins (motive := fun piece =>
    offset ≤ piece.stop → aliasStop offset gap name ≤ piece.stop) ?_ ?_ piece isPiece behind
  · intro _
    rwa [length]
  · intro further hit found toEnd
    refine ⟨?_, toEnd⟩
    intro reaches
    exact (aliasAt.take ends).le_start Written.unmetInEntry_join.toUnmet found reaches

/-- The span of an entry that reaches up to an alias holds it. -/
theorem le_span (aliasAt : AliasAt code offset gap name) {span : Span}
    (isSpan : span ∈ (FromEntry.spans code).value) (behind : offset ≤ span.stop) :
    aliasStop offset gap name ≤ span.stop := by
  rw [FromEntry.value_spans, List.mem_flatten] at isSpan
  obtain ⟨pieces, isPieces, isSpan⟩ := isSpan
  obtain ⟨part, isPart, rfl⟩ := List.mem_map.mp isPieces
  have inCode := FromEntry.within_of_mem_split part isPart
  have inPart := FromEntry.within_part inCode span isSpan
  have ends := aliasAt.le_part isPart (Nat.le_trans behind inPart.ends)
  rw [Window.extract_zero] at isSpan
  exact aliasAt.le_piece inCode.ends ends isSpan behind

/-- The run that holds an alias is no modifier of a join. -/
theorem not_isJoinModifier (aliasAt : AliasAt code offset gap name) {more rest : Bytes}
    (ended : (more ++ rest).head?.any Byte.isWordByte = false) :
    Word.isJoinModifier (ofString name ++ more) = false := by
  rw [Bool.eq_false_iff]
  intro isModifier
  cases more with
  | nil =>
    rw [List.append_nil] at isModifier
    obtain ⟨word, member, same⟩ := List.any_eq_true.mp isModifier
    have reserved : ∀ word ∈ Word.joinModifiers, word ∈ Word.reserved := by decide
    rw [Written.not_sameIgnoringCase_of_not_isReserved aliasAt.notReserved
      (reserved word member)] at same
    cases same
  | cons byte others =>
    have letter := Written.isLetter_of_isJoinModifier isModifier byte (by simp)
    rw [List.cons_append, List.head?_cons, Option.any_some,
      Keyword.isWordByte_of_isLetter letter] at ended
    cases ended

/-- An alias that something separates from what is before it is not cut off with the modifiers of the
next join. -/
theorem le_withoutModifiers (aliasAt : AliasAt code offset gap name) (apart : gap ≠ [])
    {length : Nat} (measured : FromEntry.lengthWithoutModifiers? code = some length) :
    aliasStop offset gap name ≤ length := by
  obtain ⟨front, back, rfl, rfl, ended⟩ := aliasAt.exists_split
  obtain ⟨earlier, blank, rfl, isBlank⟩ := aliasAt.introduced.exists_last apart
  obtain ⟨more, rest, others, isRuns, rfl⟩ := FromEntry.exists_runs_word
    (0 + (front ++ earlier).length + 1) aliasAt.nonempty aliasAt.solid back
  have isRun : (0 + (front ++ earlier).length + 1, ofString name ++ more) ∈ FromEntry.runs 0
      (front ++ (earlier ++ [blank] ++ (ofString name ++ (more ++ rest)))) := by
    have regrouped : front ++ (earlier ++ [blank] ++ (ofString name ++ (more ++ rest))) =
        (front ++ earlier) ++ blank :: (ofString name ++ (more ++ rest)) := by simp
    rw [regrouped, FromEntry.runs_append_blank 0 _ isBlank, isRuns]
    exact List.mem_append_right _ List.mem_cons_self
  have reaches := FromEntry.le_lengthWithoutModifiers measured isRun
    (aliasAt.not_isJoinModifier ended)
  simp only [aliasStop, List.length_append, List.length_singleton] at reaches ⊢
  omega

/-- The place of an entry that reaches up to an alias holds it. -/
theorem le_place (aliasAt : AliasAt code offset gap name) (apart : gap ≠ []) {span place : Span}
    (isSpan : span ∈ (FromEntry.spans code).value)
    (found : FromEntry.place? code span = some place) (begins : place.start ≤ offset)
    (behind : offset ≤ place.stop) : aliasStop offset gap name ≤ place.stop := by
  have inCode := FromEntry.within_of_mem_spans span isSpan
  have inSpan := FromEntry.within_of_place? inCode found
  have inSpanEnds := aliasAt.le_span isSpan (Nat.le_trans behind inSpan.ends)
  obtain ⟨whole, length, isWhole, measured, steps⟩ := FromEntry.exists_steps_of_place? found
  have beforeEnd := Nat.le_trans (Keyword.firstStart_le FromEntry.takesSpace_conditions code span.start
    span.stop) inCode.ends
  have trimmed : Trimmed code ⟨span.start, Keyword.firstStart code span.start span.stop
      FromEntry.conditions⟩ whole := by
    rw [isWhole]
    exact trimmed_trim
      (Keyword.le_firstStart FromEntry.takesSpace_conditions code inCode.inOrder) beforeEnd
  have wholeEnds : whole.stop ≤ code.length := Nat.le_trans trimmed.stopLe beforeEnd
  have lengthLe := FromEntry.lengthWithoutModifiers?_le measured
  rw [Window.length_extract code whole.start wholeEnds] at lengthLe
  have tableEnds : whole.start + length ≤ whole.stop := by
    have inOrder := trimmed.inOrder
    omega
  have behindLateral (remains : whole.start + "LATERAL".length < whole.start + length) :
      Trimmed code ⟨whole.start + "LATERAL".length, whole.start + length⟩
        (Bytes.trim code ⟨whole.start + "LATERAL".length, whole.start + length⟩).value :=
    trimmed_trim (Nat.le_of_lt remains) (Nat.le_trans tableEnds wholeEnds)
  obtain ⟨wholeBegins, placeEnds⟩ :
      whole.start ≤ place.start ∧ place.stop ≤ whole.start + length := by
    rcases steps with rfl | ⟨_, remains, rfl⟩
    · exact ⟨Nat.le_refl _, Nat.le_refl _⟩
    · exact ⟨Nat.le_trans (Nat.le_add_right _ _) (behindLateral remains).startLe,
        (behindLateral remains).stopLe⟩
  have wholeBehind : whole.start ≤ offset := Nat.le_trans wholeBegins begins
  have reachesCondition : aliasStop offset gap name ≤
      Keyword.firstStart code span.start span.stop FromEntry.conditions := by
    apply aliasAt.le_firstStart Written.unmetInEntry_conditions.toUnmet inSpanEnds
    exact Nat.le_trans behind (Nat.le_trans placeEnds (Nat.le_trans tableEnds trimmed.stopLe))
  have reachesWhole : aliasStop offset gap name ≤ whole.stop := by
    rw [isWhole]
    refine aliasAt.le_trim ?_ reachesCondition beforeEnd
    exact Nat.le_trans trimmed.startLe wholeBehind
  have reachesTable : aliasStop offset gap name ≤ whole.start + length := by
    have inWhole := (aliasAt.extract wholeBehind reachesWhole).le_withoutModifiers apart measured
    rw [aliasStop] at inWhole ⊢
    omega
  rcases steps with rfl | ⟨_, remains, rfl⟩
  · exact reachesTable
  · exact aliasAt.le_trim (Nat.le_trans (behindLateral remains).startLe begins) reachesTable
      (Nat.le_trans tableEnds wholeEnds)

/-- A FROM clause that reaches up to an alias holds it. -/
theorem le_fromClause (aliasAt : AliasAt code offset gap name)
    (begins : (Clauses.ofCode code).value.fromClause.start < offset)
    (behind : offset ≤ (Clauses.ofCode code).value.fromClause.stop) :
    aliasStop offset gap name ≤ (Clauses.ofCode code).value.fromClause.stop := by
  rcases Clauses.fromClause_cases code with isAbsent | ⟨start, isTrimmed⟩
  · rw [isAbsent] at begins behind
    exact absurd begins (Nat.not_lt.mpr behind)
  · obtain ⟨startLe, stopLe⟩ := Bytes.trim_inside code
      ⟨start, Keyword.firstStart code start code.length
        (Clause.fromClause.terminators.map (·.keyword))⟩
    rw [isTrimmed] at begins behind
    have spacious := Keyword.takesSpace_of_isSolid Clause.fromClause.isSolid_of_mem_terminators
    have reaches := aliasAt.le_firstStart Written.unmetInEntry_terminators.toUnmet
      aliasAt.stop_le_length (Nat.le_trans behind stopLe)
    rw [isTrimmed]
    exact aliasAt.le_trim (Nat.le_trans startLe (Nat.le_of_lt begins)) reaches
      (Keyword.firstStart_le spacious code start code.length)

end AliasAt

end QueryScope
