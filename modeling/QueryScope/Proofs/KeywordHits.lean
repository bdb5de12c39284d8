import Mathlib.Data.List.Basic
import QueryScope.Proofs.Boundaries

/-!
# What a search finds

A hit of a search is a keyword of the list, spelled in any case. So the byte at its beginning and
the one in front of its end are known up to their case, and they tell that the code may be cut at
either end of the hit.
-/

namespace QueryScope.Keyword

/-- The first byte of a keyword. -/
def firstByte? (keyword : Keyword) : Option UInt8 := keyword.words.head?.bind List.head?

/-- The last byte of a keyword. -/
def lastByte? (keyword : Keyword) : Option UInt8 := keyword.words.getLast?.bind List.getLast?

/-- A word that is met is spelled by the bytes ahead. -/
theorem exists_spelled_of_stripWord? {word ahead rest : Bytes}
    (stripped : stripWord? word ahead = some rest) :
    ∃ spelled, ahead = spelled ++ rest ∧ spelled.map Byte.upper = word.map Byte.upper := by
  simp only [stripWord?, Option.ite_none_right_eq_some, Bool.and_eq_true, Bytes.sameIgnoringCase,
    beq_iff_eq, Option.some.injEq] at stripped
  obtain ⟨⟨same, _⟩, rfl⟩ := stripped
  exact ⟨ahead.take word.length, (List.take_append_drop _ _).symm, same⟩

/-- The bytes of a word that is met begin as the word does. -/
theorem exists_first_of_stripWord? {word ahead rest : Bytes} {first : UInt8}
    (isFirst : word.head? = some first) (stripped : stripWord? word ahead = some rest) :
    ∃ byte behind, ahead = byte :: behind ∧ Byte.upper byte = Byte.upper first := by
  obtain ⟨spelled, rfl, same⟩ := exists_spelled_of_stripWord? stripped
  have heads := congrArg List.head? same
  rw [List.head?_map, List.head?_map, isFirst, Option.map_some] at heads
  obtain ⟨byte, isByte, sameUpper⟩ := Option.map_eq_some_iff.mp heads
  obtain ⟨tail, rfl⟩ := List.head?_eq_some_iff.mp isByte
  exact ⟨byte, tail ++ rest, rfl, sameUpper⟩

/-- Behind a word that is spelled, further words are spelled, and the last of them ends where the
rest begins. -/
theorem exists_last_of_stripSpaced? {first : Bytes} {others : List Bytes} (front : Bytes)
    {spelled between rest : Bytes} (same : spelled.map Byte.upper = first.map Byte.upper)
    (stripped : stripSpaced? others between = some rest) :
    ∃ longer lastSpelled last, (first :: others).getLast? = some last ∧
      front ++ (spelled ++ between) = longer ++ (lastSpelled ++ rest) ∧
      lastSpelled.map Byte.upper = last.map Byte.upper := by
  induction others generalizing first front spelled between with
  | nil =>
    cases stripped
    exact ⟨front, spelled, first, rfl, rfl, same⟩
  | cons word others inductionHypothesis =>
    simp only [stripSpaced?] at stripped
    split at stripped
    · obtain ⟨behind, strippedWord, strippedOthers⟩ := Option.bind_eq_some_iff.mp stripped
      obtain ⟨wordSpelled, ahead, sameWord⟩ := exists_spelled_of_stripWord? strippedWord
      obtain ⟨longer, lastSpelled, last, isLast, whole, sameLast⟩ :=
        inductionHypothesis (front ++ (spelled ++ between.takeWhile Byte.isBlank)) sameWord
          strippedOthers
      refine ⟨longer, lastSpelled, last, by rwa [List.getLast?_cons_cons], ?_, sameLast⟩
      rw [← whole, ← ahead]
      simp only [List.append_assoc, List.takeWhile_append_dropWhile]
    · cases stripped

/-- The bytes of a keyword that is met begin as the keyword does. -/
theorem exists_first_of_strip? {keyword : Keyword} {ahead rest : Bytes} {first : UInt8}
    (isFirst : keyword.firstByte? = some first) (stripped : keyword.strip? ahead = some rest) :
    ∃ byte behind, ahead = byte :: behind ∧ Byte.upper byte = Byte.upper first := by
  cases words : keyword.words with
  | nil =>
    rw [firstByte?, words] at isFirst
    cases isFirst
  | cons firstWord others =>
    rw [firstByte?, words, List.head?_cons, Option.bind_some] at isFirst
    simp only [strip?, words] at stripped
    obtain ⟨between, strippedFirst, _⟩ := Option.bind_eq_some_iff.mp stripped
    exact exists_first_of_stripWord? isFirst strippedFirst

/-- The bytes of a keyword that is met end as the keyword does. -/
theorem exists_last_of_strip? {keyword : Keyword} {ahead rest : Bytes} {last : UInt8}
    (isLast : keyword.lastByte? = some last) (stripped : keyword.strip? ahead = some rest) :
    ∃ front byte, ahead = front ++ byte :: rest ∧ Byte.upper byte = Byte.upper last := by
  cases words : keyword.words with
  | nil =>
    rw [lastByte?, words] at isLast
    cases isLast
  | cons firstWord others =>
    rw [lastByte?, words] at isLast
    simp only [strip?, words] at stripped
    obtain ⟨between, strippedFirst, strippedOthers⟩ := Option.bind_eq_some_iff.mp stripped
    obtain ⟨spelled, rfl, same⟩ := exists_spelled_of_stripWord? strippedFirst
    obtain ⟨front, lastSpelled, lastWord, isLastWord, whole, sameLast⟩ :=
      exists_last_of_stripSpaced? [] same strippedOthers
    rw [isLastWord, Option.bind_some] at isLast
    have lasts := congrArg List.getLast? sameLast
    rw [List.getLast?_map, List.getLast?_map, isLast, Option.map_some] at lasts
    obtain ⟨byte, isByte, sameUpper⟩ := Option.map_eq_some_iff.mp lasts
    obtain ⟨tail, rfl⟩ := List.getLast?_eq_some_iff.mp isByte
    refine ⟨front ++ tail, byte, ?_, sameUpper⟩
    rw [List.nil_append] at whole
    rw [whole]
    simp only [List.append_assoc, List.singleton_append]

/-- Whether the bytes ahead begin with a keyword that may begin there. -/
def meets (insideWord : Bool) (ahead : Bytes) (keyword : Keyword) : Bool :=
  !(keyword.beginsWord && insideWord) && (keyword.strip? ahead).isSome

section Choice

variable {insideWord : Bool} {ahead : Bytes} {start : Nat}

/-- A choice takes the first keyword if it is met, and goes on otherwise. -/
theorem first?_cons (keyword : Keyword) (others : List Keyword) :
    first? insideWord ahead start (keyword :: others) =
      if meets insideWord ahead keyword = true then (keyword.strip? ahead).map (start, ·)
      else first? insideWord ahead (start + 1) others := by
  rw [first?, meets]
  by_cases inside : (keyword.beginsWord && insideWord) = true
  · simp only [inside, Bool.not_true, Bool.false_and, Bool.false_eq_true, if_true, if_false]
  · rw [if_neg inside, Bool.not_eq_true _ |>.mp inside, Bool.not_false, Bool.true_and]
    cases keyword.strip? ahead <;> rfl

/-- A choice takes the first keyword of the list that is met. -/
theorem first?_eq_some {rest : Bytes} {index : Nat} {keywords : List Keyword}
    (found : first? insideWord ahead start keywords = some (index, rest)) :
    ∃ place keyword, index = start + place ∧ keywords[place]? = some keyword ∧
      meets insideWord ahead keyword = true ∧ keyword.strip? ahead = some rest ∧
      ∀ earlier ∈ keywords.take place, meets insideWord ahead earlier = false := by
  induction keywords generalizing start with
  | nil => cases found
  | cons keyword others inductionHypothesis =>
    rw [first?_cons] at found
    by_cases met : meets insideWord ahead keyword = true
    · rw [if_pos met] at found
      obtain ⟨behind, stripped, isChoice⟩ := Option.map_eq_some_iff.mp found
      obtain ⟨rfl, rfl⟩ := Prod.mk.inj isChoice
      refine ⟨0, keyword, rfl, rfl, met, stripped, ?_⟩
      intro earlier member
      cases member
    · rw [if_neg met] at found
      obtain ⟨place, other, isIndex, isOther, metOther, stripped, unmet⟩ :=
        inductionHypothesis found
      refine ⟨place + 1, other, by omega, isOther, metOther, stripped, ?_⟩
      rw [List.take_succ_cons]
      exact List.forall_mem_cons.mpr ⟨Bool.not_eq_true _ |>.mp met, unmet⟩

/-- A choice fails when no keyword is met, and only then. -/
theorem first?_eq_none_iff {keywords : List Keyword} :
    first? insideWord ahead start keywords = none ↔
      ∀ keyword ∈ keywords, meets insideWord ahead keyword = false := by
  induction keywords generalizing start with
  | nil => simp only [first?, List.not_mem_nil, false_implies, implies_true]
  | cons keyword others inductionHypothesis =>
    rw [first?_cons, List.forall_mem_cons]
    by_cases met : meets insideWord ahead keyword = true
    · rw [if_pos met, Option.map_eq_none_iff]
      constructor
      · intro unspelled
        rw [meets, unspelled, Option.isSome_none, Bool.and_false] at met
        cases met
      · rintro ⟨unmet, _⟩
        rw [unmet] at met
        cases met
    · rw [if_neg met, inductionHypothesis]
      exact ⟨fun unmet => ⟨Bool.not_eq_true _ |>.mp met, unmet⟩, And.right⟩

end Choice

/-- The keyword that is chosen is one of the list, and the bytes ahead begin with it. -/
theorem exists_keyword_of_first? {insideWord : Bool} {ahead rest : Bytes} {start index : Nat}
    {keywords : List Keyword}
    (found : first? insideWord ahead start keywords = some (index, rest)) :
    ∃ keyword, start ≤ index ∧ keywords[index - start]? = some keyword ∧
      keyword.strip? ahead = some rest := by
  obtain ⟨place, keyword, rfl, isKeyword, _, stripped, _⟩ := first?_eq_some found
  exact ⟨keyword, Nat.le_add_right _ _, by rwa [Nat.add_sub_cancel_left], stripped⟩

/-- Where a search meets a keyword of its list. -/
theorem exists_keyword_of_searchFrom {keywords : List Keyword} {offset depth : Nat}
    {insideWord : Bool} {ahead : Bytes} {hit : Hit}
    (found : searchFrom keywords offset depth insideWord ahead = some hit) :
    ∃ keyword skipped behind rest, keywords[hit.index]? = some keyword ∧
      ahead = skipped ++ behind ∧ keyword.strip? behind = some rest ∧
      hit.span = ⟨offset + skipped.length,
        offset + skipped.length + (behind.length - rest.length)⟩ := by
  induction ahead generalizing offset depth insideWord with
  | nil => cases found
  | cons byte others inductionHypothesis =>
    simp only [searchFrom] at found
    split at found
    · rename_i index rest met
      cases found
      split at met
      · obtain ⟨keyword, _, isKeyword, stripped⟩ := exists_keyword_of_first? met
        exact ⟨keyword, [], byte :: others, rest, isKeyword, rfl, stripped, rfl⟩
      · cases met
    · obtain ⟨keyword, skipped, behind, rest, isKeyword, rfl, stripped, place⟩ :=
        inductionHypothesis found
      refine ⟨keyword, byte :: skipped, behind, rest, isKeyword, rfl, stripped, ?_⟩
      rw [place, List.length_cons, Nat.add_right_comm, Nat.add_assoc offset]

/-- What a hit takes up of the code is a keyword of the list. -/
theorem exists_keyword_of_find? {code : Bytes} {offset : Nat} {keywords : List Keyword} {hit : Hit}
    (found : find? code offset keywords = some hit) :
    ∃ keyword front behind rest, keywords[hit.index]? = some keyword ∧ code = front ++ behind ∧
      keyword.strip? behind = some rest ∧
      hit.span = ⟨front.length, front.length + (behind.length - rest.length)⟩ := by
  rw [find?_eq_searchFrom] at found
  rcases Nat.lt_or_ge code.length offset with past | within
  · rw [List.drop_eq_nil_of_le (Nat.le_of_lt past)] at found
    cases found
  · obtain ⟨keyword, skipped, behind, rest, isKeyword, ahead, stripped, place⟩ :=
      exists_keyword_of_searchFrom found
    refine ⟨keyword, code.take offset ++ skipped, behind, rest, isKeyword, ?_, stripped, ?_⟩
    · rw [List.append_assoc, ← ahead, List.take_append_drop]
    · rw [place, List.length_append, List.length_take]

/-- The byte at the beginning of a hit is that of the keyword. -/
theorem exists_first_of_find? {code : Bytes} {offset : Nat} {keywords : List Keyword} {hit : Hit}
    (found : find? code offset keywords = some hit) {keyword : Keyword}
    (isKeyword : keywords[hit.index]? = some keyword) {first : UInt8}
    (isFirst : keyword.firstByte? = some first) :
    ∃ byte, code[hit.span.start]? = some byte ∧ Byte.upper byte = Byte.upper first := by
  obtain ⟨other, front, behind, rest, isOther, rfl, stripped, place⟩ :=
    exists_keyword_of_find? found
  obtain rfl := Option.some.inj (isOther.symm.trans isKeyword)
  obtain ⟨byte, others, rfl, same⟩ := exists_first_of_strip? isFirst stripped
  refine ⟨byte, ?_, same⟩
  rw [place, List.getElem?_append_right (Nat.le_refl _), Nat.sub_self, List.getElem?_cons_zero]

/-- Whether a keyword begins with a byte of ASCII. -/
def beginsAscii (keyword : Keyword) : Bool := keyword.firstByte?.any (· < 0x80)

/-- A hit begins with a byte of ASCII when the keywords do. -/
theorem exists_ascii_of_find? {code : Bytes} {offset : Nat} {keywords : List Keyword} {hit : Hit}
    (plain : ∀ keyword ∈ keywords, keyword.beginsAscii = true)
    (found : find? code offset keywords = some hit) :
    ∃ byte, code[hit.span.start]? = some byte ∧ byte < 0x80 := by
  obtain ⟨keyword, _, _, _, isKeyword, _⟩ := exists_keyword_of_find? found
  obtain ⟨first, isFirst, ascii⟩ :=
    (Option.any_eq_true _ _).mp (plain keyword (List.mem_of_getElem? isKeyword))
  obtain ⟨byte, shown, same⟩ := exists_first_of_find? found isKeyword isFirst
  exact ⟨byte, shown, Byte.ascii_of_upper_eq same (of_decide_eq_true ascii)⟩

/-- Where the first of some keywords begins that is found between two offsets, or the second offset
when none is found. -/
def firstStart (code : Bytes) (start stop : Nat) (keywords : List Keyword) : Nat :=
  ((find? (code.take stop) start keywords).map (·.span.start)).getD stop

/-- Where a keyword is found, the first one begins where that one does. -/
theorem firstStart_of_some {code : Bytes} {start stop : Nat} {keywords : List Keyword} {hit : Hit}
    (found : find? (code.take stop) start keywords = some hit) :
    firstStart code start stop keywords = hit.span.start := by
  rw [firstStart, found, Option.map_some, Option.getD_some]

/-- A keyword that is looked for up to an offset begins before it. -/
theorem firstStart_le {keywords : List Keyword} (spacious : TakesSpace keywords) (code : Bytes)
    (start stop : Nat) : firstStart code start stop keywords ≤ stop := by
  rw [firstStart]
  cases found : find? (code.take stop) start keywords with
  | none => exact Nat.le_refl _
  | some hit =>
    obtain ⟨_, takesSpace, ends⟩ := span_of_find?_eq_some spacious found
    rw [List.length_take] at ends
    exact Nat.le_trans (Nat.le_of_lt takesSpace) (Nat.le_trans ends (Nat.min_le_left _ _))

/-- Up to the end the whole code is searched. -/
theorem firstStart_length (code : Bytes) (start : Nat) (keywords : List Keyword) :
    firstStart code start code.length keywords =
      ((find? code start keywords).map (·.span.start)).getD code.length := by
  rw [firstStart, List.take_length]

/-- What comes before the first keyword of a list, or before the end when there is none, may be cut
out where the whole may. -/
theorem cutOut_before {code : Bytes} (spells : Bytes.IsText code) {keywords : List Keyword}
    (spacious : TakesSpace keywords) (plain : ∀ keyword ∈ keywords, keyword.beginsAscii = true)
    {offset stop : Nat} (cutOut : Bytes.CutOut code ⟨offset, stop⟩) :
    Bytes.CutOut code ⟨offset, firstStart code offset stop keywords⟩ := by
  rw [firstStart]
  cases found : find? (code.take stop) offset keywords with
  | none => exact cutOut
  | some hit =>
    obtain ⟨byte, shown, ascii⟩ := exists_ascii_of_find? plain found
    refine ⟨cutOut.start, .at_ascii spells (Window.getElem?_of_take shown) ascii, ?_⟩
    exact (span_of_find?_eq_some spacious found).1

/-- The byte in front of the end of a hit is that of the keyword. -/
theorem exists_last_of_find? {code : Bytes} {offset : Nat} {keywords : List Keyword} {hit : Hit}
    (found : find? code offset keywords = some hit) {keyword : Keyword}
    (isKeyword : keywords[hit.index]? = some keyword) {last : UInt8}
    (isLast : keyword.lastByte? = some last) :
    ∃ before byte, hit.span.stop = before + 1 ∧ code[before]? = some byte ∧
      Byte.upper byte = Byte.upper last := by
  obtain ⟨other, front, behind, rest, isOther, rfl, stripped, place⟩ :=
    exists_keyword_of_find? found
  obtain rfl := Option.some.inj (isOther.symm.trans isKeyword)
  obtain ⟨taken, byte, rfl, same⟩ := exists_last_of_strip? isLast stripped
  refine ⟨front.length + taken.length, byte, ?_, ?_, same⟩
  · rw [place, List.length_append, List.length_cons]
    simp only
    omega
  · rw [List.getElem?_append_right (Nat.le_add_right _ _), Nat.add_sub_cancel_left,
      List.getElem?_append_right (Nat.le_refl _), Nat.sub_self, List.getElem?_cons_zero]

/-- Whether a keyword ends with a byte of ASCII. -/
def endsAscii (keyword : Keyword) : Bool := keyword.lastByte?.any (· < 0x80)

/-- A hit ends behind a byte of ASCII when the keywords end with one. -/
theorem cutAt_behind {code : Bytes} (spells : Bytes.IsText code) {offset : Nat}
    {keywords : List Keyword} {hit : Hit} (plain : ∀ keyword ∈ keywords, keyword.endsAscii = true)
    (found : find? code offset keywords = some hit) : Bytes.CutAt code hit.span.stop := by
  obtain ⟨keyword, _, _, _, isKeyword, _⟩ := exists_keyword_of_find? found
  obtain ⟨last, isLast, ascii⟩ :=
    (Option.any_eq_true _ _).mp (plain keyword (List.mem_of_getElem? isKeyword))
  obtain ⟨before, byte, stop, shown, same⟩ := exists_last_of_find? found isKeyword isLast
  rw [stop]
  exact .behind_ascii spells shown (Byte.ascii_of_upper_eq same (of_decide_eq_true ascii))

end QueryScope.Keyword
