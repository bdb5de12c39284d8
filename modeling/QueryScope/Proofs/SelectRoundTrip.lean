import Mathlib.Data.List.Basic
import QueryScope.Proofs.SelectLists
import QueryScope.Proofs.WrittenEntries

/-!
# A select list written and read back

An item of a select list makes a column visible under its label: its alias, or else the last name of
its path. The alias is looked for at the end of the item, behind the earliest blanks that can stand
in front of one. Blanks inside a quoted name cannot, for an odd number of quotes comes behind them,
and an identifier has none or two.

An alias without `AS` must follow an operand, and the signs that a plain name may end with do not
end one. So an item is overlooked when its alias has no `AS` and stands behind such a sign.
-/

namespace QueryScope.Written

open EntryShape Bytes Identifier SelectItem

/-! ## The alias at the end of an item -/

/-- Characters with an even number of double quotes. -/
def Balanced (characters : List Char) : Prop := characters.count '"' % 2 = 0

instance (characters : List Char) : Decidable (Balanced characters) :=
  inferInstanceAs (Decidable (_ = _))

/-- Balanced characters side by side are balanced, as the numbers of their quotes add up. -/
theorem Balanced.append {first second : List Char} (front : Balanced first)
    (back : Balanced second) : Balanced (first ++ second) := by
  rw [Balanced] at front back ⊢
  rw [List.count_append]
  omega

/-- Characters without a quote are balanced. -/
theorem balanced_of_not_mem {characters : List Char} (noQuote : '"' ∉ characters) :
    Balanced characters := by
  rw [Balanced, List.count_eq_zero.mpr noQuote]

/-- Blanks in front do not matter. -/
theorem balanced_dropWhile {characters : List Char} :
    Balanced (characters.dropWhile Text.isBlank) ↔ Balanced characters := by
  have noQuote : '"' ∉ characters.takeWhile Text.isBlank := by
    intro member
    exact absurd (List.mem_takeWhile_imp member) (by decide)
  have count : characters.count '"' = (characters.dropWhile Text.isBlank).count '"' := by
    conv_lhs => rw [← List.takeWhile_append_dropWhile (p := Text.isBlank) (l := characters)]
    rw [List.count_append, List.count_eq_zero.mpr noQuote, Nat.zero_add]
  rw [Balanced, Balanced, count]

/-- One identifier is balanced: it has two quotes around it, or none at all. -/
theorem balanced_of_isWhole {letters : Letters} {characters : List Char}
    (whole : isWhole letters characters = true) : Balanced characters := by
  have noQuote : continuesName letters '"' = false := by cases letters <;> decide
  rw [isWhole] at whole
  split at whole
  · rename_i name reading
    cases characters with
    | nil => cases reading
    | cons first rest =>
      rw [read?] at reading
      split at reading
      · rename_i isQuote
        split at reading
        · cases reading
        · rename_i quote after remains
          obtain ⟨_, rfl⟩ := Prod.mk.inj (Option.some.inj reading)
          have closes : quote = '"' := by
            have stops := List.head?_dropWhile_not (· != '"') rest
            rw [remains] at stops
            simpa using stops
          have inside : '"' ∉ rest.takeWhile (· != '"') := by
            intro member
            have different := List.mem_takeWhile_imp member
            simp at different
          rw [Balanced, beq_iff_eq.mp isQuote,
            ← List.takeWhile_append_dropWhile (p := (· != '"')) (l := rest), remains, closes,
            List.count_cons_self, List.count_append, List.count_eq_zero.mpr inside]
          rfl
      · rename_i notQuote
        split at reading
        · obtain ⟨_, stops⟩ := Prod.mk.inj (Option.some.inj reading)
          apply balanced_of_not_mem
          rw [List.mem_cons]
          rintro (isFirst | member)
          · exact notQuote (by rw [← isFirst]; rfl)
          · rw [List.dropWhile_eq_nil_iff] at stops
            rw [stops _ member] at noQuote
            cases noQuote
        · cases reading
  · cases whole

/-- What follows `AS` is balanced exactly when all is. -/
theorem balanced_of_afterAs? {characters name : List Char} (skipped : afterAs? characters = some name)
    (balanced : Balanced name) : Balanced characters := by
  match characters with
  | [] => cases skipped
  | [_] => cases skipped
  | first :: second :: rest =>
    simp only [afterAs?, Option.ite_none_right_eq_some, Option.some.injEq, Bool.and_eq_true] at skipped
    obtain ⟨⟨⟨isA, isS⟩, _⟩, rfl⟩ := skipped
    have word : '"' ∉ [first, second] := by
      simp only [List.mem_cons, List.not_mem_nil, or_false]
      rintro (rfl | rfl)
      · exact absurd isA (by decide)
      · exact absurd isS (by decide)
    exact (balanced_of_not_mem word).append (balanced_dropWhile.mp balanced)

/-- An alias is not looked for behind a character that is no blank, or that an odd number of quotes
comes behind. -/
theorem trailingAlias?_cons {offset : Nat} {character : Char} {rest : List Char}
    (passed : Text.isBlank character = false ∨ ¬Balanced rest) :
    trailingAlias? offset (character :: rest) =
      trailingAlias? (offset + character.utf8Size) rest := by
  rw [trailingAlias?]
  split
  · rename_i blank
    have odd : ¬Balanced (rest.dropWhile Text.isBlank) := by
      rw [balanced_dropWhile]
      exact passed.resolve_left (by simp [blank])
    have notExplicit : (afterAs? (rest.dropWhile Text.isBlank)).filter (isWhole .folded) = none := by
      rw [Option.filter_eq_none_iff]
      intro name skipped whole
      exact odd (balanced_of_afterAs? skipped (balanced_of_isWhole whole))
    have notWhole : isWhole .folded (rest.dropWhile Text.isBlank) = false := by
      rw [Bool.eq_false_iff]
      exact fun whole => odd (balanced_of_isWhole whole)
    simp only [notExplicit, notWhole, Bool.false_eq_true, if_false]
  · rfl

/-- An alias is not looked for in a piece without blanks, nor between quotes. -/
theorem trailingAlias?_append {front rest : List Char}
    (passed : (∀ character ∈ front, Text.isBlank character = false) ∨
      '"' ∉ front ∧ ¬Balanced rest) (offset : Nat) :
    trailingAlias? offset (front ++ rest) = trailingAlias? (offset + width front) rest := by
  induction front generalizing offset with
  | nil => rfl
  | cons character others inductionHypothesis =>
    have passesOthers : (∀ character ∈ others, Text.isBlank character = false) ∨
        '"' ∉ others ∧ ¬Balanced rest :=
      passed.imp (fun solid other member => solid other (List.mem_cons_of_mem _ member))
        fun inside => ⟨fun member => inside.1 (List.mem_cons_of_mem _ member), inside.2⟩
    have passes : Text.isBlank character = false ∨ ¬Balanced (others ++ rest) := by
      apply passed.imp
      · exact fun solid => solid character List.mem_cons_self
      · intro inside
        have noQuote : '"' ∉ others := fun member => inside.1 (List.mem_cons_of_mem _ member)
        rw [Balanced, List.count_append, List.count_eq_zero.mpr noQuote, Nat.zero_add]
        exact inside.2
    rw [List.cons_append, trailingAlias?_cons passes, inductionHypothesis passesOthers, width,
      Nat.add_assoc]

/-- A plain name has no quotes. -/
theorem PlainName.quote_not_mem (name : PlainName) : '"' ∉ name.spelling.toList := by
  intro member
  exact absurd (name.continues _ member) (by decide)

/-- The blanks that stand for a quoted content in the code hold no quote. -/
theorem quote_not_mem_blanksFor (content : List Char) : '"' ∉ content.flatMap blanksFor := by
  intro member
  rcases isShown_of_mem_blanksFor _ member with isBlank | isLineFeed
  · cases isBlank
  · cases isLineFeed

/-- A name is balanced in the code view. -/
theorem Name.balanced_shown (name : Name) : Balanced name.shown := by
  cases name with
  | plain name => exact balanced_of_not_mem name.quote_not_mem
  | quoted content =>
    rw [Balanced, Name.shown, List.count_append, List.count_cons_self,
      List.count_eq_zero.mpr (quote_not_mem_blanksFor _)]
    rfl

/-- An alias is not looked for in a name. -/
theorem Name.trailingAlias?_shown (name : Name) {rest : List Char} (balanced : Balanced rest)
    (offset : Nat) :
    trailingAlias? offset (name.shown ++ rest) =
      trailingAlias? (offset + width name.shown) rest := by
  cases name with
  | plain name =>
    have solid : ∀ character ∈ name.spelling.toList, Text.isBlank character = false :=
      fun character member => BareName.not_isBlank_of_continuesName (name.continues character member)
    exact trailingAlias?_append (.inl solid) offset
  | quoted content =>
    have odd : ¬Balanced ('"' :: rest) := by
      rw [Balanced] at balanced ⊢
      rw [List.count_cons_self]
      omega
    have spelled : (Name.quoted content).shown ++ rest =
        '"' :: ((doubled content.toList).flatMap blanksFor ++ '"' :: rest) := by
      simp only [Name.shown, List.cons_append, List.append_assoc, List.nil_append]
    rw [spelled, trailingAlias?_cons (.inl rfl),
      trailingAlias?_append (.inr ⟨quote_not_mem_blanksFor _, odd⟩), trailingAlias?_cons (.inl rfl),
      Name.shown, width_append, width, Nat.add_assoc, Nat.add_assoc, Nat.add_assoc]
    rfl

/-- The names in front of the last one are balanced together. -/
theorem balanced_qualifier (qualifier : List Name) :
    Balanced (spellQualifier Name.shown qualifier) := by
  induction qualifier with
  | nil => decide
  | cons first others inductionHypothesis =>
    exact (first.balanced_shown.append (by decide : Balanced ['.'])).append inductionHypothesis

/-- An item without its alias, in the code view. -/
def Item.path (item : Item) : List Char :=
  spellQualifier Name.shown item.qualifier ++ item.name.shown

/-- The alias of an item comes behind its path. -/
theorem Item.spell_shown (item : Item) :
    item.spell Name.shown = item.path ++ spellAlias Name.shown item.aliasName :=
  (List.append_assoc _ _ _).symm

/-- An alias is not looked for in a path. -/
theorem trailingAlias?_path (qualifier : List Name) (name : Name) {rest : List Char}
    (balanced : Balanced rest) (offset : Nat) :
    trailingAlias? offset (spellQualifier Name.shown qualifier ++ (name.shown ++ rest)) =
      trailingAlias? (offset + width (spellQualifier Name.shown qualifier ++ name.shown)) rest := by
  induction qualifier generalizing offset with
  | nil => exact name.trailingAlias?_shown balanced offset
  | cons first others inductionHypothesis =>
    have behind : Balanced ('.' :: (spellQualifier Name.shown others ++ (name.shown ++ rest))) :=
      (by decide : Balanced ['.']).append
        ((balanced_qualifier others).append (name.balanced_shown.append balanced))
    have spelled (tail : List Char) : spellQualifier Name.shown (first :: others) ++ tail =
        first.shown ++ '.' :: (spellQualifier Name.shown others ++ tail) := by
      simp only [spellQualifier, List.flatMap_cons, List.append_assoc, List.cons_append,
        List.nil_append]
    rw [spelled, first.trailingAlias?_shown behind, trailingAlias?_cons (.inl rfl),
      inductionHypothesis, spelled, width_append first.shown, width, Nat.add_assoc, Nat.add_assoc]

/-- A name as the code shows it is one whole identifier. -/
theorem Name.isWhole_shown (letters : Letters) (name : Name) : isWhole letters name.shown = true := by
  rw [isWhole, name.read?_alone]

/-- The alias of an item is found where it stands. -/
theorem Item.trailingAlias?_shown (item : Item) :
    trailingAlias? 0 (item.spell Name.shown) = item.aliasName.map fun aliasName =>
      ⟨width item.path, aliasName.isExplicit, aliasName.name.shown⟩ := by
  obtain ⟨qualifier, name, aliasName⟩ := item
  have behindPath {rest : List Char} (balanced : Balanced rest) :=
    trailingAlias?_path qualifier name balanced 0
  rw [Nat.zero_add] at behindPath
  rcases aliasName with _ | ⟨isExplicit, aliasName⟩
  · exact behindPath (by decide : Balanced [])
  · cases isExplicit with
    | false =>
      have balanced : Balanced (' ' :: aliasName.shown) :=
        (by decide : Balanced [' ']).append aliasName.balanced_shown
      apply (behindPath balanced).trans
      have blank : Text.isBlank ' ' = true := by decide
      simp only [trailingAlias?, blank, if_true, aliasName.dropWhile_shown, aliasName.afterAs?_shown,
        Option.filter_none, aliasName.isWhole_shown, Option.map_some, Item.path]
    | true =>
      have balanced : Balanced (' ' :: 'A' :: 'S' :: ' ' :: aliasName.shown) :=
        (by decide : Balanced [' ', 'A', 'S', ' ']).append aliasName.balanced_shown
      apply (behindPath balanced).trans
      have blank : Text.isBlank ' ' = true := by decide
      have ahead : ('A' :: 'S' :: ' ' :: aliasName.shown).dropWhile Text.isBlank =
          'A' :: 'S' :: ' ' :: aliasName.shown := rfl
      have behind : afterAs? ('A' :: 'S' :: ' ' :: aliasName.shown) = some aliasName.shown :=
        congrArg some aliasName.dropWhile_shown
      simp only [trailingAlias?, blank, if_true, ahead, behind, Option.filter_some,
        aliasName.isWhole_shown, Option.map_some, Item.path]

/-! ## The column of an item -/

/-- The signs that a plain name may end with. -/
def isSign (character : Char) : Bool := character == '$' || character == '#' || character == '@'

/-- Whether a name ends with a sign; a quoted one ends with its quote. -/
def Name.endsWithSign : Name → Bool
  | plain name => name.spelling.toList.getLast?.any isSign
  | quoted _ => false

/-- Whether an item's column is overlooked: its alias has no `AS` and stands behind a sign. -/
def Item.isOverlooked (item : Item) : Bool :=
  item.aliasName.any fun aliasName => !aliasName.isExplicit && item.name.endsWithSign

/-- A name has a last character. -/
theorem Name.exists_getLast?_shown (name : Name) : ∃ last, name.shown.getLast? = some last := by
  cases name with
  | plain name =>
    obtain ⟨first, others, spelled, _⟩ := name.spelled
    rw [Name.shown, spelled, List.getLast?_cons]
    exact ⟨_, rfl⟩
  | quoted content =>
    rw [Name.shown, List.getLast?_concat]
    exact ⟨_, rfl⟩

/-- A name ends like an operand unless it ends with a sign. -/
theorem Name.endsOperand_last (name : Name) :
    name.shown.getLast?.any endsOperand = !name.endsWithSign := by
  cases name with
  | plain name =>
    obtain ⟨first, others, spelled, _⟩ := name.spelled
    have continues := name.continues
    rw [Name.shown, Name.endsWithSign]
    rw [spelled] at continues ⊢
    rw [List.getLast?_eq_getLast_of_ne_nil (List.cons_ne_nil first others), Option.any_some, Option.any_some]
    have last := continues _ (List.getLast_mem (List.cons_ne_nil first others))
    generalize (first :: others).getLast _ = character at last
    have ascii := ascii_of_continuesName last
    have checked : ∀ point < 128, continuesName .plain (Char.ofNat point) = true →
        endsOperand (Char.ofNat point) = !isSign (Char.ofNat point) := by decide
    have one := checked character.toNat ascii
    rw [Char.ofNat_toNat] at one
    exact one last
  | quoted content =>
    rw [Name.shown, List.getLast?_concat]
    rfl

/-- A name as the code shows it may name a column: it is quoted or it is no reserved word. -/
theorem Name.mayName_shown (name : Name) : mayName name.shown = true := by
  cases name with
  | plain name =>
    rw [mayName, Name.shown, String.ofList_toList, name.not_isReserved, Bool.not_false, Bool.or_true]
  | quoted content => rfl

/-- An item asks for no other columns than its own. -/
theorem Item.not_namesNothing (item : Item) : namesNothing (item.spell Name.shown) = false := by
  have noStar : '*' ∉ item.spell Name.shown := by
    intro member
    rcases item.isShown_of_mem _ member with shown | isDot
    · exact absurd shown (by decide)
    · cases isDot
  obtain ⟨first, rest, isItem, _⟩ := (item.solidEnds Name.solidEnds_shown).first
  rw [namesNothing, Bool.or_eq_false_iff, Bool.or_eq_false_iff]
  refine ⟨⟨by rw [isItem]; rfl, ?_⟩, ?_⟩
  · rw [beq_eq_false_iff_ne]
    intro isStar
    exact noStar (by simp [isStar])
  · rw [Bool.eq_false_iff]
    intro isSuffix
    obtain ⟨front, isEnd⟩ := List.isSuffixOf_iff_suffix.mp isSuffix
    exact noStar (by simp [← isEnd])

/-- An item is one identifier when it is a name alone. -/
theorem Item.isWhole_shown (item : Item) :
    isWhole .plain (item.spell Name.shown) =
      (item.qualifier.isEmpty && item.aliasName.isNone) := by
  obtain ⟨qualifier, name, aliasName⟩ := item
  cases qualifier with
  | nil =>
    have reading := name.read?_shown .plain (head?_spellAlias .plain aliasName)
    have spelled : Item.spell Name.shown ⟨[], name, aliasName⟩ =
        name.shown ++ spellAlias Name.shown aliasName := rfl
    rw [isWhole, spelled, reading]
    rcases aliasName with _ | ⟨_ | _, aliasName⟩ <;> rfl
  | cons first others =>
    have reading := first.read?_shown .plain (rfl : ('.' :: (spellQualifier Name.shown others ++
      (name.shown ++ spellAlias Name.shown aliasName))).head?.any (continuesName .plain) = false)
    have spelled : Item.spell Name.shown ⟨first :: others, name, aliasName⟩ =
        first.shown ++ '.' :: (spellQualifier Name.shown others ++
          (name.shown ++ spellAlias Name.shown aliasName)) := by
      simp only [Item.spell, spellQualifier, List.flatMap_cons, List.append_assoc, List.cons_append,
        List.nil_append]
    rw [isWhole, spelled, reading]
    rfl

/-- Without an accepted alias, an item is visible when it has none at all. -/
theorem Item.visibleName?_of_path (item : Item)
    (unaccepted : acceptedAlias? (item.spell Name.shown) = none) :
    visibleName? (item.spell Name.shown) =
      if item.aliasName.isNone then some item.name.shown else none := by
  have path := readPath_shown .plain 0 item.qualifier item.name
    (head?_spellAlias .plain item.aliasName) (afterDot?_spellAlias item.aliasName)
  have whole := item.isWhole_shown
  rw [← Item.spell] at path
  rw [visibleName?, if_neg (by simp [item.not_namesNothing]), unaccepted]
  simp only [lastName?, path, whole]
  obtain ⟨qualifier, name, aliasName⟩ := item
  cases aliasName with
  | none =>
    cases qualifier with
    | nil =>
      have spelled : Item.spell Name.shown ⟨[], name, none⟩ = name.shown := List.append_nil _
      simp [fragments, spelled, name.mayName_shown]
    | cons first others =>
      obtain ⟨next, later, isCons⟩ :=
        exists_cons_fragments (0 + (width first.shown + 1)) others name
      have last := getLast?_fragments (0 + (width first.shown + 1)) others name
      rw [isCons] at last
      simp only [fragments, isCons, spellAlias, Option.elim_none, last, Option.map_some]
      rfl
  | some aliasName =>
    have goesOn : ∃ character rest, spellAlias Name.shown (some aliasName) = character :: rest := by
      obtain ⟨_ | _, name⟩ := aliasName <;> exact ⟨_, _, rfl⟩
    obtain ⟨character, rest, isCons⟩ := goesOn
    simp [isCons]

/-- The alias of an item is accepted unless the item is overlooked. -/
theorem Item.acceptedAlias?_shown (item : Item) :
    acceptedAlias? (item.spell Name.shown) =
      (item.aliasName.filter fun _ => !item.isOverlooked).map fun aliasName =>
        ⟨width item.path, aliasName.isExplicit, aliasName.name.shown⟩ := by
  have before : charactersBefore (item.spell Name.shown) (width item.path) = item.path := by
    rw [item.spell_shown, charactersBefore_append]
  have operand : item.path.getLast?.any endsOperand = !item.name.endsWithSign := by
    obtain ⟨last, isLast⟩ := item.name.exists_getLast?_shown
    rw [← item.name.endsOperand_last, Item.path, List.getLast?_append, isLast]
    rfl
  rw [acceptedAlias?, item.trailingAlias?_shown]
  cases hasAlias : item.aliasName with
  | none => rfl
  | some aliasName =>
    have accepted : TrailingAlias.isAccepted ⟨width item.path, aliasName.isExplicit,
        aliasName.name.shown⟩ item.path = !item.isOverlooked := by
      simp only [TrailingAlias.isAccepted, operand, aliasName.name.mayName_shown, Bool.and_true,
        Item.isOverlooked, hasAlias, Option.any_some, Bool.not_and, Bool.not_not]
    rw [Option.map_some, Option.filter_some, Option.filter_some, before, accepted]
    split <;> rfl

/-- An item's column is visible under its label, unless it is overlooked. -/
theorem Item.visibleName?_shown (item : Item) :
    visibleName? (item.spell Name.shown) =
      if item.isOverlooked then none else some item.label.shown := by
  have accepted := item.acceptedAlias?_shown
  cases hasAlias : item.aliasName with
  | none =>
    rw [hasAlias] at accepted
    rw [item.visibleName?_of_path accepted, hasAlias]
    simp only [Item.isOverlooked, Item.label, hasAlias, Option.isNone_none, if_true, Option.any_none,
      Bool.false_eq_true, if_false, Option.elim_none]
  | some aliasName =>
    rw [hasAlias, Option.filter_some] at accepted
    by_cases overlooked : item.isOverlooked = true
    · rw [overlooked] at accepted
      rw [item.visibleName?_of_path accepted, hasAlias, overlooked]
      rfl
    · rw [Bool.not_eq_true] at overlooked
      rw [overlooked] at accepted
      rw [visibleName?, if_neg (by simp [item.not_namesNothing]), accepted, overlooked]
      simp [Item.label, hasAlias]

/-- The column of an item, which is missing if it is overlooked. -/
def Item.column? (item : Item) : Option String :=
  if item.isOverlooked then none else some item.label.meaning

/-- The column that an item names is read. -/
theorem Item.value_columnName (item : Item) :
    (columnName (encoded (item.spell Name.written)) (encoded (item.spell Name.shown))).value =
      item.column? := by
  rw [SelectItem.value_columnName (isText_encoded _), decode_encoded, item.visibleName?_shown]
  by_cases overlooked : item.isOverlooked = true
  · rw [if_pos overlooked, Item.column?, if_pos overlooked, Option.map_none]
  · obtain ⟨front, ends, _⟩ := item.exists_last Name.written
    have whole : encoded (item.spell Name.written) =
        encoded front ++ (encoded item.label.written ++ []) := by
      rw [ends, encoded_append, List.append_nil]
    have length : (encoded (item.spell Name.shown)).length =
        (encoded front).length + width item.label.shown := by
      rw [← item.length_written, whole, List.append_nil, List.length_append, length_encoded item.label.written,
        item.label.width_shown]
    have cut : (encoded (item.spell Name.written)).extract
        ((encoded (item.spell Name.shown)).length - width item.label.shown)
          (encoded (item.spell Name.shown)).length = encoded item.label.written := by
      apply Window.extract_eq_of_append whole
      · omega
      · rw [length_encoded item.label.written, ← item.label.width_shown]
        omega
    rw [if_neg overlooked, Item.column?, if_neg overlooked, Option.map_some, cut, text_encoded,
      item.label.unquote_written]

/-! ## The select list -/

/-- The items of a select list. -/
structure SelectList where
  first : Item
  others : List Item

namespace SelectList

/-- The items in order. -/
def items (list : SelectList) : List Item := list.first :: list.others

/-- How a select list is spelled when its names are spelled as given. -/
def spell (spelling : Name → List Char) (list : SelectList) : List Char :=
  listed (Item.spell spelling) list.first list.others

/-- The select list as a query spells it. -/
def text (list : SelectList) : String := String.ofList (list.spell Name.written)

/-- The columns of a select list are those of its items. -/
theorem value_columnNames (list : SelectList) :
    (columnNames (encoded (list.spell Name.written)) (encoded (list.spell Name.shown))).value =
      list.items.filterMap Item.column? := by
  have layout := forall₂_listed Item.length_written Item.plain_of_mem list.first list.others
  simp only [columnNames, Checked.value_eachSome, Checked.value_bind, Bytes.cut]
  apply filterMap_eq_of_forall₂ layout
  rintro item part ⟨lead, blankLead, tile⟩
  have cut := tile.toCut
  rw [← List.append_nil (encoded (item.spell Name.written)),
    ← List.append_nil (encoded (item.spell Name.shown))] at cut
  have trimmed := Bytes.value_trim_solid part cut.extract_code
    (by rw [cut.stop, List.length_append, List.length_append]) blankLead
    (fun byte member => absurd member List.not_mem_nil)
    (solidEnds_encoded (item.solidEnds Name.solidEnds_shown))
  have itemCut := cut.part rfl item.length_written
  rw [← trimmed] at itemCut
  have read := item.value_columnName
  rw [← itemCut.extract_text, ← itemCut.extract_code] at read
  exact read

end SelectList

/-- The select list is a clause of a query. -/
theorem SelectList.spelled (list : SelectList) :
    Spelled .selectList (list.spell Name.written) (list.spell Name.shown) := by
  have unmet : Unmet (Clause.selectList.terminators.map (·.keyword)) :=
    ⟨FlatQuery.isOrderly_of_mem_terminators .selectList, by decide, by decide⟩
  obtain ⟨first, others⟩ := list
  induction others generalizing first with
  | nil =>
    simp only [SelectList.spell, listed, List.flatMap_nil, List.append_nil]
    exact first.spelled unmet
  | cons next others inductionHypothesis =>
    have isCons (spelling : Name → List Char) :
        SelectList.spell spelling ⟨first, next :: others⟩ =
          first.spell spelling ++ ([',', ' '] ++ SelectList.spell spelling ⟨next, others⟩) := by
      simp only [SelectList.spell, listed, List.flatMap_cons, List.cons_append, List.nil_append]
    rw [isCons, isCons]
    exact (inductionHypothesis next).behind first rfl plain_of_mem_comma (first.silent_comma unmet)

/-- A select list does not begin with a word that only says whether rows may repeat. -/
theorem SelectList.unquantified (list : SelectList) :
    FlatQuery.Unquantified (encoded (list.spell Name.shown)) := by
  have reserved : ∀ quantifier ∈ ["DISTINCT", "ALL"], quantifier ∈ Word.reserved := by
    decide
  intro quantifier member
  rw [SelectList.spell, listed, encoded_append]
  apply list.first.not_reserved_first ?_ (reserved quantifier member)
  cases list.others with
  | nil => rfl
  | cons next others => rfl

/-- The table `t` is a FROM clause. -/
theorem spelled_t : Spelled .fromClause ['t'] ['t'] := by
  have unmet : Unmet (Clause.fromClause.terminators.map (·.keyword)) :=
    ⟨FlatQuery.isOrderly_of_mem_terminators .fromClause, by decide, by decide⟩
  have isPlain : isPlainName "t" = true := by decide
  have isT : "t".toList = ['t'] := by decide
  have spelled := Item.spelled unmet ⟨[], .plain ⟨"t", isPlain⟩, none⟩
  simpa only [Item.spell, spellQualifier, spellAlias, Name.written, Name.shown, isT,
    List.flatMap_nil, List.nil_append, Option.elim_none, List.append_nil] using spelled

/-- The columns of the items are the labels of those that are not overlooked. -/
theorem filterMap_column? (items : List Item) :
    items.filterMap Item.column? =
      (items.filter (!·.isOverlooked)).map (·.label.meaning) := by
  induction items with
  | nil => rfl
  | cons item others inductionHypothesis =>
    by_cases overlooked : item.isOverlooked = true
    · rw [List.filterMap_cons_none (by rw [Item.column?, if_pos overlooked]), inductionHypothesis,
        List.filter_cons_of_neg (by simp [overlooked])]
    · rw [List.filterMap_cons_some (by rw [Item.column?, if_neg overlooked]), inductionHypothesis,
        List.filter_cons_of_pos (by simp [overlooked]), List.map_cons]

/-- Writing a select list and extracting gives back what was written, except for the items that are
overlooked: one scope, which exposes the labels of all other items. So it exposes all labels
exactly when no item is overlooked. -/
theorem select_round_trip (list : SelectList) :
    ∃ scope, extract ("SELECT " ++ list.text ++ " FROM t") = [scope] ∧
      scope.exposedColumns =
        (list.items.filter (!·.isOverlooked)).map (·.label.meaning) ∧
      (scope.exposedColumns = list.items.map (·.label.meaning) ↔
        ∀ item ∈ list.items, item.isOverlooked = false) := by
  have isQuery : "SELECT " ++ list.text ++ " FROM t" =
      String.ofList (query (list.spell Name.written) ['t']) := by
    apply String.toList_injective
    simp only [SelectList.text, query, String.toList_append, String.toList_ofList, List.append_assoc]
    rfl
  obtain ⟨scope, extracted, columns, _⟩ := exists_scope list.spelled spelled_t list.unquantified
  rw [list.value_columnNames, filterMap_column?] at columns
  refine ⟨scope, by rw [isQuery, extracted], columns, ?_⟩
  rw [columns]
  constructor
  · intro all
    have lengths := congrArg List.length all
    rw [List.length_map, List.length_map, List.length_filter_eq_length_iff] at lengths
    intro item member
    simpa using lengths item member
  · intro seen
    rw [List.filter_eq_self.mpr]
    intro item member
    rw [seen item member]
    rfl

/-- An item that is overlooked: its alias is read with `AS` in front, but not without, for the sign
at the end of the name does not end an operand. So the scope exposes no column for it, although its
label is the alias. -/
theorem select_round_trip_overlooked :
    let name : Name := .plain ⟨"a$", by decide⟩
    let aliasName : Name := .plain ⟨"b", by decide⟩
    let list : SelectList := ⟨⟨[], name, some ⟨false, aliasName⟩⟩, []⟩
    let explicit : SelectList := ⟨⟨[], name, some ⟨true, aliasName⟩⟩, []⟩
    list.text = "a$ b" ∧ list.items.map (·.label.meaning) = ["b"] ∧
      (∃ scope, extract "SELECT a$ b FROM t" = [scope] ∧ scope.exposedColumns = []) ∧
      explicit.text = "a$ AS b" ∧
      ∃ scope, extract "SELECT a$ AS b FROM t" = [scope] ∧ scope.exposedColumns = ["b"] := by
  intro name aliasName list explicit
  have text : list.text = "a$ b" := by decide +kernel
  have explicitText : explicit.text = "a$ AS b" := by decide +kernel
  have overlooked : (list.items.filter (!·.isOverlooked)).map (·.label.meaning) = [] := by
    decide +kernel
  have seen : (explicit.items.filter (!·.isOverlooked)).map (·.label.meaning) = ["b"] := by
    decide +kernel
  obtain ⟨scope, extracted, columns, _⟩ := select_round_trip list
  obtain ⟨explicitScope, explicitExtracted, explicitColumns, _⟩ := select_round_trip explicit
  rw [text] at extracted
  rw [explicitText] at explicitExtracted
  exact ⟨text, by decide +kernel, ⟨scope, extracted, columns.trans overlooked⟩, explicitText,
    explicitScope, explicitExtracted, explicitColumns.trans seen⟩

end QueryScope.Written
