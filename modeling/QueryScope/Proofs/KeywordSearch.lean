import Mathlib.Data.List.Basic
import QueryScope.Proofs.KeywordHits
import QueryScope.Proofs.TopLevelParts

/-!
# What a search for keywords answers

The answer of a search is determined by the places at which keywords match: it is the first place of
top level at which one does, with the first keyword of the list that does so there. Nothing else has
these properties, so it does not matter how the search got there: a search that begins later, at top
level, gives the same answer, and a search for two lists gives the earlier of two answers.
-/

namespace QueryScope.Keyword

/-- Where a keyword that begins at a position ends, if it is spelled there. -/
def endAt? (keyword : Keyword) (code : Bytes) (position : Nat) : Option Nat :=
  (keyword.strip? (code.drop position)).map (code.length - ·.length)

/-- A keyword matches at a position of the code. -/
structure MatchesAt (keyword : Keyword) (code : Bytes) (position : Nat) : Prop where
  notParenthesis : ∃ byte, code[position]? = some byte ∧ isParenthesis byte = false
  spelled : (keyword.endAt? code position).isSome = true
  /-- A keyword that begins with a letter does not begin inside a word. -/
  outside : keyword.beginsWord = true → ∀ before byte, position = before + 1 →
    code[before]? = some byte → Byte.isWordByte byte = false

section Places

variable {code : Bytes} {position : Nat} {byte : UInt8} {rest : Bytes}

/-- The byte in front of a position. -/
theorem getLast?_take_succ (shown : code[position]? = some byte) :
    (code.take (position + 1)).getLast? = some byte := by
  rw [List.take_add_one, shown, Option.toList_some, List.getLast?_concat]

/-- Whether a position is inside a word depends on the byte in front of it. -/
theorem outside_iff (within : position ≤ code.length) :
    (∀ before byte, position = before + 1 → code[before]? = some byte →
      Byte.isWordByte byte = false) ↔
    (code.take position).getLast?.any Byte.isWordByte = false := by
  cases position with
  | zero => simp
  | succ before =>
    have previous : code[before]? = some code[before] := List.getElem?_eq_getElem within
    rw [getLast?_take_succ previous, Option.any_some]
    constructor
    · intro outside
      exact outside before code[before] rfl previous
    · rintro outside _ other ⟨⟩ isOther
      obtain rfl := Option.some.inj (previous.symm.trans isOther)
      exact outside

/-- What a search asks at a position is whether a keyword matches there. -/
theorem matchesAt_iff (keyword : Keyword) (here : code.drop position = byte :: rest) :
    keyword.MatchesAt code position ↔ isParenthesis byte = false ∧
      meets ((code.take position).getLast?.any Byte.isWordByte) (byte :: rest) keyword = true := by
  have shown := (Window.of_drop_eq_cons here).1
  have within := (List.getElem?_eq_some_iff.mp shown).1
  have spelled : (keyword.endAt? code position).isSome = (keyword.strip? (byte :: rest)).isSome := by
    rw [endAt?, here, Option.isSome_map]
  rw [meets, Bool.and_eq_true, Bool.not_eq_true', ← spelled, Bool.and_eq_false_imp,
    ← outside_iff (Nat.le_of_lt within)]
  constructor
  · rintro ⟨⟨other, isOther, notParenthesis⟩, isSpelled, outside⟩
    obtain rfl := Option.some.inj (shown.symm.trans isOther)
    exact ⟨notParenthesis, outside, isSpelled⟩
  · rintro ⟨notParenthesis, outside, isSpelled⟩
    exact ⟨⟨byte, shown, notParenthesis⟩, isSpelled, outside⟩

end Places

/-- No keyword matches at a position if it is at top level for a search from `offset` on. -/
def NoneAt (code : Bytes) (offset : Nat) (keywords : List Keyword) (position : Nat) : Prop :=
  depthBetween code offset position = 0 → ∀ keyword ∈ keywords, ¬ keyword.MatchesAt code position

/-- A hit at the first place of top level at which a keyword matches, of the first keyword of the list
that does so there. -/
structure FirstHit (code : Bytes) (offset : Nat) (keywords : List Keyword) (hit : Hit) : Prop where
  behind : offset ≤ hit.span.start
  top : depthBetween code offset hit.span.start = 0
  matched : ∃ keyword, keywords[hit.index]? = some keyword ∧
    keyword.MatchesAt code hit.span.start ∧
    keyword.endAt? code hit.span.start = some hit.span.stop
  noneBefore : ∀ position, offset ≤ position → position < hit.span.start →
    NoneAt code offset keywords position
  noneEarlier : ∀ keyword ∈ keywords.take hit.index, ¬ keyword.MatchesAt code hit.span.start

/-- The answers that a search from `offset` on may give. -/
def Answers (code : Bytes) (offset : Nat) (keywords : List Keyword) : Option Hit → Prop
  | some hit => FirstHit code offset keywords hit
  | none => ∀ position, offset ≤ position → NoneAt code offset keywords position

variable {code : Bytes} {offset : Nat} {keywords : List Keyword}

section Search

variable {position : Nat} {byte : UInt8} {rest : Bytes}

/-- A position that a search passes by. -/
theorem noneAt_of_passed (here : code.drop position = byte :: rest)
    (passed : (if !isParenthesis byte && depthBetween code offset position == 0 then
      first? ((code.take position).getLast?.any Byte.isWordByte) (byte :: rest) 0 keywords
      else none) = none) :
    NoneAt code offset keywords position := by
  intro top keyword member matched
  obtain ⟨notParenthesis, met⟩ := (matchesAt_iff keyword here).mp matched
  have atTop : (!isParenthesis byte && depthBetween code offset position == 0) = true := by
    rw [notParenthesis, top]
    rfl
  rw [if_pos atTop] at passed
  rw [first?_eq_none_iff.mp passed keyword member] at met
  cases met

/-- A position at which a search stops. -/
theorem firstHit_of_chosen (here : code.drop position = byte :: rest) {index : Nat} {after : Bytes}
    (chosen : (if !isParenthesis byte && depthBetween code offset position == 0 then
      first? ((code.take position).getLast?.any Byte.isWordByte) (byte :: rest) 0 keywords
      else none) = some (index, after))
    (behind : offset ≤ position) (noneBefore : ∀ earlier, offset ≤ earlier → earlier < position →
      NoneAt code offset keywords earlier) :
    FirstHit code offset keywords
      ⟨index, ⟨position, position + ((byte :: rest).length - after.length)⟩⟩ := by
  obtain ⟨atTop, found⟩ := Option.ite_none_right_eq_some.mp chosen
  simp only [Bool.and_eq_true, Bool.not_eq_true', beq_iff_eq] at atTop
  obtain ⟨notParenthesis, top⟩ := atTop
  obtain ⟨place, keyword, isIndex, isKeyword, met, stripped, unmet⟩ := first?_eq_some found
  rw [Nat.zero_add] at isIndex
  subst isIndex
  refine ⟨behind, top, ⟨keyword, isKeyword, (matchesAt_iff keyword here).mpr ⟨notParenthesis, met⟩,
    ?_⟩, noneBefore, ?_⟩
  · have shorter := length_of_strip?_eq_some stripped
    have length := congrArg List.length here
    rw [List.length_drop] at length
    rw [endAt?, here, stripped, Option.map_some, Option.some.injEq]
    simp only [List.length_cons] at shorter length ⊢
    omega
  · intro earlier member matched
    have metEarlier := ((matchesAt_iff earlier here).mp matched).2
    rw [unmet earlier member] at metEarlier
    cases metEarlier

/-- A search answers rightly when no keyword matches at the positions that it has behind it. -/
theorem answers_searchFrom {ahead : Bytes} (here : code.drop position = ahead)
    (behind : offset ≤ position) (noneBefore : ∀ earlier, offset ≤ earlier → earlier < position →
      NoneAt code offset keywords earlier) :
    Answers code offset keywords (searchFrom keywords position (depthBetween code offset position)
      ((code.take position).getLast?.any Byte.isWordByte) ahead) := by
  induction ahead generalizing position with
  | nil =>
    have ended := List.drop_eq_nil_iff.mp here
    intro later inSearch top keyword member matched
    rcases Nat.lt_or_ge later position with before | beyond
    · exact noneBefore later inSearch before top keyword member matched
    · obtain ⟨byte, shown, _⟩ := matched.notParenthesis
      have within := (List.getElem?_eq_some_iff.mp shown).1
      omega
  | cons byte rest inductionHypothesis =>
    obtain ⟨shown, next⟩ := Window.of_drop_eq_cons here
    rw [searchFrom]
    split
    · rename_i index after chosen
      exact firstHit_of_chosen here chosen behind noneBefore
    · rename_i passed
      rw [← depthBetween_succ behind shown]
      have inside : Byte.isWordByte byte =
          (code.take (position + 1)).getLast?.any Byte.isWordByte := by
        rw [getLast?_take_succ shown, Option.any_some]
      rw [inside]
      refine inductionHypothesis next (Nat.le_succ_of_le behind) ?_
      intro earlier inSearch before
      rcases Nat.lt_succ_iff_lt_or_eq.mp before with further | rfl
      · exact noneBefore earlier inSearch further
      · exact noneAt_of_passed here passed

end Search

/-- A search answers rightly. -/
theorem answers_find? (code : Bytes) (offset : Nat) (keywords : List Keyword) :
    Answers code offset keywords (find? code offset keywords) := by
  rcases Nat.lt_or_ge code.length offset with past | within
  · rw [find?_eq_searchFrom, List.drop_eq_nil_of_le (Nat.le_of_lt past)]
    intro position behind _ keyword _ matched
    obtain ⟨byte, shown, _⟩ := matched.notParenthesis
    have inside := (List.getElem?_eq_some_iff.mp shown).1
    omega
  · have searched : Answers code offset keywords (searchFrom keywords offset
        (depthBetween code offset offset) ((code.take offset).getLast?.any Byte.isWordByte)
        (code.drop offset)) :=
      answers_searchFrom rfl (Nat.le_refl offset)
        fun earlier behind before => absurd behind (Nat.not_le.mpr before)
    rw [depthBetween_self] at searched
    rwa [find?_eq_searchFrom, Nat.min_eq_left within]

/-- The first hit is one, since of two different ones each would forbid the other. -/
theorem FirstHit.unique {left right : Hit} (first : FirstHit code offset keywords left)
    (second : FirstHit code offset keywords right) : left = right := by
  obtain ⟨leftIndex, leftStart, leftStop⟩ := left
  obtain ⟨rightIndex, rightStart, rightStop⟩ := right
  obtain ⟨keyword, isKeyword, matched, ends⟩ := first.matched
  obtain ⟨other, isOther, matchedOther, endsOther⟩ := second.matched
  simp only at isKeyword matched ends isOther matchedOther endsOther
  have sameStart : leftStart = rightStart := by
    rcases Nat.lt_trichotomy leftStart rightStart with before | same | behind
    · exact absurd matched (second.noneBefore leftStart first.behind before first.top keyword
        (List.mem_of_getElem? isKeyword))
    · exact same
    · exact absurd matchedOther (first.noneBefore rightStart second.behind behind second.top other
        (List.mem_of_getElem? isOther))
  subst sameStart
  have sameIndex : leftIndex = rightIndex := by
    rcases Nat.lt_trichotomy leftIndex rightIndex with before | same | behind
    · refine absurd matched (second.noneEarlier keyword ?_)
      exact List.mem_of_getElem? (by rwa [List.getElem?_take_of_lt before])
    · exact same
    · refine absurd matchedOther (first.noneEarlier other ?_)
      exact List.mem_of_getElem? (by rwa [List.getElem?_take_of_lt behind])
  subst sameIndex
  obtain rfl := Option.some.inj (isKeyword.symm.trans isOther)
  rw [Option.some.inj (ends.symm.trans endsOther)]

/-- Where there is a first hit, a search may not find nothing. -/
theorem FirstHit.not_none {hit : Hit} (first : FirstHit code offset keywords hit) :
    ¬ Answers code offset keywords none := by
  intro nothing
  obtain ⟨keyword, isKeyword, matched, _⟩ := first.matched
  exact nothing hit.span.start first.behind first.top keyword (List.mem_of_getElem? isKeyword) matched

/-- A search gives the one right answer. -/
theorem find?_eq_iff {answer : Option Hit} :
    find? code offset keywords = answer ↔ Answers code offset keywords answer := by
  constructor
  · rintro rfl
    exact answers_find? code offset keywords
  · intro right
    have found := answers_find? code offset keywords
    cases isFound : find? code offset keywords with
    | none =>
      rw [isFound] at found
      cases answer with
      | none => rfl
      | some hit => exact absurd found right.not_none
    | some first =>
      rw [isFound] at found
      cases answer with
      | none => exact absurd right found.not_none
      | some hit => rw [found.unique right]

/-- A right answer is right for a search that begins later, at top level and not behind the hit. -/
theorem Answers.restart {answer : Option Hit} {restart : Nat}
    (right : Answers code offset keywords answer) (later : offset ≤ restart)
    (top : depthBetween code offset restart = 0) (before : ∀ hit ∈ answer, restart ≤ hit.span.start) :
    Answers code restart keywords answer := by
  -- From `restart` on both searches count the same depth.
  have sameNone (position : Nat) (behind : restart ≤ position)
      (none : NoneAt code offset keywords position) : NoneAt code restart keywords position := by
    intro isTop
    rw [depthBetween_of_top top later behind] at isTop
    exact none isTop
  cases answer with
  | none =>
    intro position behind
    exact sameNone position behind (right position (Nat.le_trans later behind))
  | some hit =>
    have behind := before hit rfl
    refine ⟨behind, ?_, right.matched, ?_, right.noneEarlier⟩
    · rw [depthBetween_of_top top later behind, right.top]
    · intro position after inFront
      exact sameNone position after
        (right.noneBefore position (Nat.le_trans later after) inFront)

/-- The same hit in a list that has `count` keywords more in front. -/
def Hit.behind (count : Nat) (hit : Hit) : Hit := ⟨count + hit.index, hit.span⟩

/-- The answer that begins earlier, and the first one when both begin at the same place. -/
def earlier? : Option Hit → Option Hit → Option Hit
  | some left, some right => if right.span.start < left.span.start then some right else some left
  | some left, none => some left
  | none, right => right

section Append

variable {others : List Keyword} {hit : Hit}

/-- No keyword of two lists stands at a position exactly when none of either list does. -/
theorem noneAt_append_iff {position : Nat} :
    NoneAt code offset (keywords ++ others) position ↔
      NoneAt code offset keywords position ∧ NoneAt code offset others position := by
  simp only [NoneAt, List.forall_mem_append, forall_and]

/-- A first hit stays one when keywords are added behind that do not match earlier. -/
theorem FirstHit.append (first : FirstHit code offset keywords hit)
    (noneOther : ∀ position, offset ≤ position → position < hit.span.start →
      NoneAt code offset others position) : FirstHit code offset (keywords ++ others) hit := by
  obtain ⟨keyword, isKeyword, matched, ends⟩ := first.matched
  have inList := (List.getElem?_eq_some_iff.mp isKeyword).1
  refine ⟨first.behind, first.top, ⟨keyword, ?_, matched, ends⟩, ?_, ?_⟩
  · rwa [List.getElem?_append_left inList]
  · intro position behind before
    exact noneAt_append_iff.mpr
      ⟨first.noneBefore position behind before, noneOther position behind before⟩
  · rw [List.take_append_of_le_length (Nat.le_of_lt inList)]
    exact first.noneEarlier

/-- A first hit stays one when keywords are added in front that match neither earlier nor there. -/
theorem FirstHit.append_left (first : FirstHit code offset others hit)
    (noneKeyword : ∀ position, offset ≤ position → position ≤ hit.span.start →
      NoneAt code offset keywords position) :
    FirstHit code offset (keywords ++ others) (hit.behind keywords.length) := by
  obtain ⟨keyword, isKeyword, matched, ends⟩ := first.matched
  refine ⟨first.behind, first.top, ⟨keyword, ?_, matched, ends⟩, ?_, ?_⟩
  · rw [Hit.behind, List.getElem?_append_right (Nat.le_add_right _ _), Nat.add_sub_cancel_left,
      isKeyword]
  · intro position behind before
    exact noneAt_append_iff.mpr
      ⟨noneKeyword position behind (Nat.le_of_lt before), first.noneBefore position behind before⟩
  · rw [Hit.behind, List.take_length_add_append]
    exact List.forall_mem_append.mpr
      ⟨noneKeyword hit.span.start first.behind (Nat.le_refl _) first.top, first.noneEarlier⟩

/-- The earlier of two right answers is right for both lists together. -/
theorem answers_earlier? {left right : Option Hit} (first : Answers code offset keywords left)
    (second : Answers code offset others right) :
    Answers code offset (keywords ++ others)
      (earlier? left (right.map (Hit.behind keywords.length))) := by
  cases left with
  | none =>
    cases right with
    | none =>
      intro position behind
      exact noneAt_append_iff.mpr ⟨first position behind, second position behind⟩
    | some hit => exact second.append_left fun position behind _ => first position behind
  | some leftHit =>
    cases right with
    | none => exact first.append fun position behind _ => second position behind
    | some rightHit =>
      rw [Option.map_some, earlier?, Hit.behind]
      by_cases earlier : rightHit.span.start < leftHit.span.start
      · rw [if_pos earlier]
        refine second.append_left ?_
        intro position behind before
        exact first.noneBefore position behind (Nat.lt_of_le_of_lt before earlier)
      · rw [if_neg earlier]
        refine first.append ?_
        intro position behind before
        exact second.noneBefore position behind (Nat.lt_of_lt_of_le before (Nat.not_lt.mp earlier))

end Append

/-- A search finds a keyword exactly where one first matches at top level, and nothing exactly when
none does. Taken up again at top level, up to the hit, it gives the same answer; and for two lists it
gives the earlier of the two answers, that of the first list when they begin at the same place. -/
theorem find?_first_match (code : Bytes) (offset : Nat) (keywords : List Keyword) :
    (∀ hit, find? code offset keywords = some hit ↔ FirstHit code offset keywords hit) ∧
      (find? code offset keywords = none ↔
        ∀ position, offset ≤ position → NoneAt code offset keywords position) ∧
      (∀ restart, offset ≤ restart → depthBetween code offset restart = 0 →
        (∀ hit ∈ find? code offset keywords, restart ≤ hit.span.start) →
        find? code restart keywords = find? code offset keywords) ∧
      ∀ others, find? code offset (keywords ++ others) =
        earlier? (find? code offset keywords)
          ((find? code offset others).map (Hit.behind keywords.length)) := by
  refine ⟨fun hit => find?_eq_iff, find?_eq_iff, ?_, ?_⟩
  · intro restart later top before
    exact find?_eq_iff.mpr ((answers_find? code offset keywords).restart later top before)
  · intro others
    exact find?_eq_iff.mpr
      (answers_earlier? (answers_find? code offset keywords) (answers_find? code offset others))

/-- A search over a parenthesis without a partner, and the same search from behind it. -/
theorem find?_first_match_resumed :
    let code := Bytes.ofString "EXTRACT(YEAR FROM d)) fromage FROM t"
    let keywords := [ofString "FROM"]
    FirstHit code 0 keywords ⟨0, ⟨30, 34⟩⟩ ∧ depthBetween code 0 21 = 0 ∧
      find? code 21 keywords = some ⟨0, ⟨30, 34⟩⟩ := by
  intro code keywords
  have found : find? code 0 keywords = some ⟨0, ⟨30, 34⟩⟩ := by decide +kernel
  have top : depthBetween code 0 21 = 0 := by decide +kernel
  have laws := find?_first_match code 0 keywords
  refine ⟨(laws.1 _).mp found, top, ?_⟩
  rw [← found]
  refine laws.2.2.1 21 (Nat.zero_le _) top ?_
  rw [found]
  rintro hit ⟨⟩
  decide

end QueryScope.Keyword
