import Mathlib.Data.List.Forall2
import QueryScope.Proofs.WrittenEntries

/-!
# FROM clauses read back

A FROM clause is written as items with separators between them: a comma and a blank, or `JOIN` with
any modifiers. Whatever the names in it are, extraction finds one reference for each item, in
order, and each is the one that its item was written for.

The clause is split at its commas first and then at its joins. So the list of items is grouped into
chains, the runs of items that only joins separate, and the chains are the pieces between commas.
-/

namespace QueryScope

namespace Written

open EntryShape Bytes

/-- What separates two items of a FROM clause. -/
inductive Separator where
  | comma
  | join (modifiers : List Modifier)

/-- A separator as it is written. -/
def Separator.spelled : Separator → List Char
  | comma => [',', ' ']
  | join modifiers =>
    ' ' :: ((modifiers.flatMap fun modifier => modifier.spelling.toList ++ [' ']) ++
      ['J', 'O', 'I', 'N', ' '])

/-- The items of a FROM clause, each but the first one behind a separator. -/
structure FromList where
  first : Item
  others : List (Separator × Item)

namespace FromList

/-- The items in order. -/
def items (list : FromList) : List Item := list.first :: list.others.map (·.2)

/-- How a FROM clause is spelled when its names are spelled as given. -/
def spell (spelling : Name → List Char) (list : FromList) : List Char :=
  list.first.spell spelling ++ list.others.flatMap fun (separator, item) =>
    separator.spelled ++ item.spell spelling

/-- The FROM clause as a query spells it. -/
def text (list : FromList) : String := String.ofList (list.spell Name.written)

end FromList

/-! ## Chains of joined items -/

/-- Items that only joins separate. -/
structure Chain where
  first : Item
  others : List (List Modifier × Item)

namespace Chain

/-- The items in order. -/
def items (chain : Chain) : List Item := chain.first :: chain.others.map (·.2)

/-- How a chain is spelled when its names are spelled as given. -/
def spell (spelling : Name → List Char) (chain : Chain) : List Char :=
  chain.first.spell spelling ++ chain.others.flatMap fun (modifiers, item) =>
    (Separator.join modifiers).spelled ++ item.spell spelling

end Chain

/-- The items of a FROM clause grouped into chains: the first chain and those behind commas. -/
def chains (first : Item) : List (Separator × Item) → Chain × List Chain
  | [] => (⟨first, []⟩, [])
  | (.comma, next) :: others =>
    (⟨first, []⟩, (chains next others).1 :: (chains next others).2)
  | (.join modifiers, next) :: others =>
    (⟨first, (modifiers, (chains next others).1.first) :: (chains next others).1.others⟩,
      (chains next others).2)

/-- Grouping keeps the items. -/
theorem items_chains (first : Item) (others : List (Separator × Item)) :
    (chains first others).1.items ++ (chains first others).2.flatMap Chain.items =
      first :: others.map (·.2) := by
  induction others generalizing first with
  | nil => rfl
  | cons other others inductionHypothesis =>
    obtain ⟨separator, next⟩ := other
    cases separator with
    | comma =>
      rw [List.map_cons, ← inductionHypothesis next]
      rfl
    | join modifiers =>
      rw [List.map_cons, ← inductionHypothesis next]
      rfl

/-- Grouping keeps the spelling. -/
theorem spell_chains (spelling : Name → List Char) (first : Item)
    (others : List (Separator × Item)) :
    listed (Chain.spell spelling) (chains first others).1 (chains first others).2 =
      FromList.spell spelling ⟨first, others⟩ := by
  induction others generalizing first with
  | nil => simp only [listed, chains, Chain.spell, FromList.spell, List.flatMap_nil, List.append_nil]
  | cons other others inductionHypothesis =>
    obtain ⟨separator, next⟩ := other
    have behind := inductionHypothesis next
    cases separator with
    | comma =>
      simp only [listed, chains, Chain.spell, FromList.spell, List.flatMap_cons, List.flatMap_nil,
        List.append_nil, Separator.spelled, List.cons_append, List.nil_append,
        List.append_assoc] at behind ⊢
      rw [behind]
    | join modifiers =>
      simp only [listed, chains, Chain.spell, FromList.spell, List.flatMap_cons,
        List.append_assoc] at behind ⊢
      rw [behind]

/-! ## The items of a chain -/

/-- The word that joins two items. -/
def joinWord : Bytes := Bytes.ofString "JOIN"

/-- The bytes of a join. -/
theorem encoded_join (modifiers : List Modifier) :
    encoded (Separator.join modifiers).spelled =
      (modifierBytes modifiers ++ [Byte.space]) ++ (joinWord ++ [Byte.space]) := by
  have blank : encoded [' '] = [Byte.space] := by decide
  have word : encoded ['J', 'O', 'I', 'N', ' '] = joinWord ++ [Byte.space] := by decide
  have spelled : encoded (modifiers.flatMap fun modifier => modifier.spelling.toList ++ [' ']) =
      modifiers.flatMap fun modifier => modifier.bytes ++ [Byte.space] := by
    induction modifiers with
    | nil => rfl
    | cons modifier others inductionHypothesis =>
      rw [List.flatMap_cons, List.flatMap_cons, encoded_append, encoded_append, blank,
        inductionHypothesis]
      rfl
  rw [Separator.spelled, ← List.singleton_append, encoded_append, encoded_append, blank, word,
    spelled, modifierBytes_append_space, List.singleton_append, List.cons_append]

theorem unmetInEntry_join : UnmetInEntry [FromEntry.join] :=
  ⟨⟨by decide, by decide, by decide⟩, by decide, by decide⟩

/-- A chain is its first item, or its first item, a join and a shorter chain. -/
theorem encoded_chain_cons (spelling : Name → List Char) (first next : Item)
    (modifiers : List Modifier) (others : List (List Modifier × Item)) :
    encoded (Chain.spell spelling ⟨first, (modifiers, next) :: others⟩) =
      (encoded (first.spell spelling) ++ (modifierBytes modifiers ++ [Byte.space])) ++
        (joinWord ++ ([Byte.space] ++ encoded (Chain.spell spelling ⟨next, others⟩))) := by
  simp only [Chain.spell, List.flatMap_cons, List.append_assoc, encoded_append, encoded_join]

theorem encoded_chain_nil (spelling : Name → List Char) (first : Item) :
    encoded (Chain.spell spelling ⟨first, []⟩) = encoded (first.spell spelling) := by
  simp only [Chain.spell, List.flatMap_nil, List.append_nil]

/-- An item with what comes before it and behind it, up to the join. -/
def upToJoin (spelling : Name → List Char) (lead : Bytes) (item : Item)
    (modifiers : List Modifier) : Bytes :=
  lead ++ ((encoded (item.spell spelling) ++ modifierBytes modifiers) ++ [Byte.space])

theorem append_chain_cons (spelling : Name → List Char) (lead : Bytes) (first next : Item)
    (modifiers : List Modifier) (others : List (List Modifier × Item)) :
    lead ++ encoded (Chain.spell spelling ⟨first, (modifiers, next) :: others⟩) =
      upToJoin spelling lead first modifiers ++
        (joinWord ++ ([Byte.space] ++ encoded (Chain.spell spelling ⟨next, others⟩))) := by
  simp only [upToJoin, encoded_chain_cons, List.append_assoc]

/-- A longer chain between two pieces, divided in front of its first join and behind it. -/
theorem divided_at_join (spelling : Name → List Char) {whole front lead back : Bytes}
    {first next : Item} {modifiers : List Modifier} {others : List (List Modifier × Item)}
    (isWhole : whole = front ++
      ((lead ++ encoded (Chain.spell spelling ⟨first, (modifiers, next) :: others⟩)) ++ back)) :
    whole = front ++ (upToJoin spelling lead first modifiers ++
        (joinWord ++ (([Byte.space] ++ encoded (Chain.spell spelling ⟨next, others⟩)) ++ back))) ∧
      whole = (front ++ (upToJoin spelling lead first modifiers ++ joinWord)) ++
        (([Byte.space] ++ encoded (Chain.spell spelling ⟨next, others⟩)) ++ back) := by
  rw [isWhole, append_chain_cons]
  constructor <;> simp only [List.append_assoc]

theorem head?_modifierBytes (modifiers : List Modifier) (back : Bytes) :
    (modifierBytes modifiers ++ Byte.space :: back).head? = some Byte.space := by
  cases modifiers <;> rfl

/-- A search for a join from the beginning of a chain on. -/
theorem find?_join {front lead : Bytes} (blankLead : ∀ byte ∈ lead, Byte.isBlank byte = true)
    (before : lead = [] → front.getLast?.any Byte.isWordByte = false) (first : Item)
    (others : List (List Modifier × Item)) :
    Keyword.find? (front ++ (lead ++ encoded (Chain.spell Name.shown ⟨first, others⟩)))
        front.length [FromEntry.join] =
      others.head?.map fun other =>
        let start := front.length + (upToJoin Name.shown lead first other.1).length
        ⟨0, ⟨start, start + joinWord.length⟩⟩ := by
  have unmet := unmetInEntry_join
  rw [Keyword.find?_append, Keyword.searchFrom_blank unmet.solid _ _ _ lead before blankLead]
  cases others with
  | nil =>
    have blank := Byte.isBlank_of_mem_space
    have silent := first.silent_entry unmet [] (front.length + lead.length) []
    rw [List.append_nil] at silent
    rw [encoded_chain_nil, ← Keyword.searchFrom_append_blank unmet.solid blank]
    exact silent
  | cons other others =>
    obtain ⟨modifiers, next⟩ := other
    have isKeyword : FromEntry.join.words = [joinWord] := by decide
    have starts : front.length + lead.length + (encoded (first.spell Name.shown) ++
        (modifierBytes modifiers ++ [Byte.space])).length =
          front.length + (upToJoin Name.shown lead first modifiers).length := by
      simp only [upToJoin, List.length_append]
      omega
    rw [encoded_chain_cons, first.silent_entry unmet modifiers, starts]
    exact Keyword.searchFrom_spelled isKeyword (by decide) [] _ rfl

/-- An item stands where the text and the code around it say. -/
theorem entryAt_of_append (item : Item) (modifiers : List Modifier) (trail : Bytes)
    {text code frontText frontCode lead backText backCode : Bytes}
    (isText : text = frontText ++ ((lead ++ ((encoded (item.spell Name.written) ++
      modifierBytes modifiers) ++ trail)) ++ backText))
    (isCode : code = frontCode ++ ((lead ++ ((encoded (item.spell Name.shown) ++
      modifierBytes modifiers) ++ trail)) ++ backCode))
    (fronts : frontText.length = frontCode.length)
    (blankLead : ∀ byte ∈ lead, Byte.isBlank byte = true)
    (blankTrail : ∀ byte ∈ trail, Byte.isBlank byte = true)
    (before : lead = [] → frontCode.getLast?.any Byte.isWordByte = false)
    (behind : (modifierBytes modifiers ++ (trail ++ backCode)).head?.any Byte.isWordByte = false) :
    EntryAt text code ⟨frontCode.length, frontCode.length + (lead ++
      ((encoded (item.spell Name.shown) ++ modifierBytes modifiers) ++ trail)).length⟩ item lead
      modifiers trail where
  cut := by
    refine ⟨⟨frontText, backText, isText, fronts⟩, ⟨frontCode, backCode, isCode, rfl⟩, ?_, rfl⟩
    simp only [List.length_append, item.length_written]
  blankLead := blankLead
  blankTrail := blankTrail
  before := by
    rw [isCode, List.take_left]
    exact before
  behind := by
    have isBack (piece : Bytes) : (frontCode ++ (piece ++ backCode)).drop
        (frontCode.length + piece.length) = backCode := by
      rw [← List.append_assoc, ← List.length_append, List.drop_left]
    simp only [isCode, isBack]
    exact behind

/-- Cutting a chain at its joins yields the places of its items. -/
theorem forall₂_betweenJoins {text code : Bytes} (others : List (List Modifier × Item))
    (first : Item) {frontText frontCode lead backText backCode : Bytes}
    (isText : text = frontText ++
      ((lead ++ encoded (Chain.spell Name.written ⟨first, others⟩)) ++ backText))
    (isCode : code = frontCode ++
      ((lead ++ encoded (Chain.spell Name.shown ⟨first, others⟩)) ++ backCode))
    (fronts : frontText.length = frontCode.length)
    (blankLead : ∀ byte ∈ lead, Byte.isBlank byte = true)
    (before : lead = [] → frontCode.getLast?.any Byte.isWordByte = false)
    (behind : backCode.head?.any Byte.isWordByte = false) :
    List.Forall₂ (fun item span => ∃ lead modifiers trail,
        EntryAt text code span item lead modifiers trail)
      (Chain.items ⟨first, others⟩)
      (FromEntry.betweenJoins (frontCode ++
        (lead ++ encoded (Chain.spell Name.shown ⟨first, others⟩))) frontCode.length) := by
  -- The induction is on the joins; the part of the chain behind a join begins with a blank.
  induction others generalizing first frontText frontCode lead with
  | nil =>
    have found := find?_join blankLead before first []
    rw [encoded_chain_nil] at isText isCode found ⊢
    rw [FromEntry.betweenJoins_of_none found]
    have noModifiers (piece : Bytes) : (piece ++ modifierBytes []) ++ [] = piece := by
      simp only [modifierBytes, List.flatMap_nil, List.append_nil]
    rw [← noModifiers (encoded (first.spell Name.written))] at isText
    rw [← noModifiers (encoded (first.spell Name.shown))] at isCode
    have entry := entryAt_of_append first [] [] isText isCode fronts blankLead
      (fun byte member => absurd member List.not_mem_nil) before behind
    rw [noModifiers] at entry
    rw [List.length_append]
    exact .cons ⟨lead, [], [], entry⟩ .nil
  | cons other others inductionHypothesis =>
    obtain ⟨modifiers, next⟩ := other
    have found := find?_join blankLead before first ((modifiers, next) :: others)
    rw [List.head?_cons, Option.map_some] at found
    obtain ⟨isTextHere, isTextBehind⟩ := divided_at_join Name.written isText
    obtain ⟨isCodeHere, isCodeBehind⟩ := divided_at_join Name.shown isCode
    have entry := entryAt_of_append first modifiers [Byte.space] isTextHere isCodeHere fronts
      blankLead Byte.isBlank_of_mem_space before (by rw [List.singleton_append, head?_modifierBytes]; rfl)
    -- What comes up to the join, with the join itself, is the front of the shorter chain.
    have lengths : (frontText ++ (upToJoin Name.written lead first modifiers ++ joinWord)).length =
        (frontCode ++ (upToJoin Name.shown lead first modifiers ++ joinWord)).length := by
      simp only [upToJoin, List.length_append, fronts, first.length_written]
    have later := inductionHypothesis next isTextBehind isCodeBehind lengths
      Byte.isBlank_of_mem_space (fun noLead => absurd noLead (by decide))
    have regrouped : frontCode ++ (lead ++ encoded (Chain.spell Name.shown
        ⟨first, (modifiers, next) :: others⟩)) =
          (frontCode ++ (upToJoin Name.shown lead first modifiers ++ joinWord)) ++
            ([Byte.space] ++ encoded (Chain.spell Name.shown ⟨next, others⟩)) := by
      rw [append_chain_cons]
      simp only [List.append_assoc]
    have stops : frontCode.length + (upToJoin Name.shown lead first modifiers).length +
        joinWord.length =
          (frontCode ++ (upToJoin Name.shown lead first modifiers ++ joinWord)).length := by
      simp only [List.length_append, Nat.add_assoc]
    rw [FromEntry.betweenJoins_of_some found]
    simp only [stops]
    rw [regrouped]
    exact .cons ⟨lead, modifiers, [Byte.space], entry⟩ later

/-! ## The whole clause -/

/-- A chain takes as many bytes in the code view as in the query. -/
theorem length_chain (chain : Chain) :
    (encoded (chain.spell Name.written)).length = (encoded (chain.spell Name.shown)).length := by
  obtain ⟨first, others⟩ := chain
  induction others generalizing first with
  | nil => rw [encoded_chain_nil, encoded_chain_nil, first.length_written]
  | cons other others inductionHypothesis =>
    obtain ⟨modifiers, next⟩ := other
    rw [encoded_chain_cons, encoded_chain_cons]
    simp only [List.length_append, inductionHypothesis next, first.length_written]

/-- A join is spelled with letters and blanks. -/
theorem isLetter_or_eq_of_mem_join {modifiers : List Modifier} :
    ∀ byte ∈ encoded (Separator.join modifiers).spelled,
      Byte.isLetter byte = true ∨ byte = Byte.space := by
  have word : ∀ byte ∈ joinWord, Byte.isLetter byte = true :=
    List.all_eq_true.mp (by decide)
  intro byte member
  rw [encoded_join, modifierBytes] at member
  simp only [List.mem_append, List.mem_flatMap, List.mem_cons, List.not_mem_nil,
    or_false] at member
  rcases member with (⟨modifier, _, isBlank | inModifier⟩ | isBlank) | inWord | isBlank
  · exact .inr isBlank
  · exact .inl (isLetter_of_isJoinModifier modifier.isModifier byte inModifier)
  · exact .inr isBlank
  · exact .inl (word byte inWord)
  · exact .inr isBlank

/-- A join has no comma and no parenthesis, and it opens nothing. -/
theorem plain_of_mem_join {modifiers : List Modifier} :
    ∀ byte ∈ encoded (Separator.join modifiers).spelled,
      (byte ≠ Byte.comma ∧ isParenthesis byte = false) ∧ opensNothing byte = true := by
  intro byte member
  have plain := Byte.forall_of_all (fun byte => !(Byte.isLetter byte || byte == Byte.space) ||
    (byte != Byte.comma && !isParenthesis byte && opensNothing byte)) (by decide +kernel) byte
  have allowed : (Byte.isLetter byte || byte == Byte.space) = true := by
    rw [Bool.or_eq_true, beq_iff_eq]
    exact isLetter_or_eq_of_mem_join byte member
  simpa only [allowed, Bool.not_true, Bool.false_or, Bool.and_eq_true, bne_iff_ne,
    Bool.not_eq_true'] using plain

/-- A chain has no comma and no parenthesis in the code view. -/
theorem plain_of_mem_chain (chain : Chain) :
    ∀ byte ∈ encoded (chain.spell Name.shown),
      byte ≠ Byte.comma ∧ isParenthesis byte = false := by
  intro byte member
  rw [Chain.spell, encoded_append, List.mem_append] at member
  rcases member with inFirst | inOthers
  · exact chain.first.plain_of_mem byte inFirst
  · rw [encoded, List.flatMap_assoc, List.mem_flatMap] at inOthers
    obtain ⟨⟨modifiers, item⟩, _, inOther⟩ := inOthers
    rw [List.flatMap_append, List.mem_append] at inOther
    rcases inOther with inJoin | inItem
    · exact (plain_of_mem_join byte inJoin).1
    · exact item.plain_of_mem byte inItem

/-- The items of a FROM clause stand in its entries: the commas separate the chains, and the joins
separate the items of each chain. -/
theorem FromList.forall₂_spans (list : FromList) :
    List.Forall₂ (fun item span => ∃ lead modifiers trail, EntryAt
        (encoded (list.spell Name.written)) (encoded (list.spell Name.shown)) span item lead
        modifiers trail)
      list.items (FromEntry.spans (encoded (list.spell Name.shown))).value := by
  have layout := forall₂_listed length_chain plain_of_mem_chain (chains list.first list.others).1
    (chains list.first list.others).2
  rw [spell_chains, spell_chains] at layout
  have isItems : (((chains list.first list.others).1 :: (chains list.first list.others).2).map
      Chain.items).flatten = list.items := by
    rw [FromList.items, ← items_chains, List.map_cons, List.flatten_cons, List.flatMap_def]
  rw [FromEntry.value_spans, ← isItems]
  apply List.rel_flatten
  apply List.forall₂_map_left_iff.mpr
  apply List.forall₂_map_right_iff.mpr
  apply layout.imp
  rintro chain part ⟨lead, blankLead, tile⟩
  obtain ⟨frontText, backText, isText, startsText⟩ := tile.inText
  obtain ⟨frontCode, backCode, isCode, startsCode, isFront, upToEnd, isBack⟩ :=
    tile.toCut.exists_around
  have before := tile.before
  have behind := tile.behind
  rw [isFront] at before
  rw [isBack] at behind
  rw [Window.extract_zero, upToEnd, ← startsCode]
  exact forall₂_betweenJoins chain.others chain.first isText isCode
    (startsText.trans startsCode.symm) blankLead (fun _ => before) behind

/-- The entries of a FROM clause are the references that its items were written for. -/
theorem FromList.value_readAll (list : FromList) :
    (FromEntry.readAll (encoded (list.spell Name.written))
      (encoded (list.spell Name.shown))).value =
        list.items.map fun item => ⟨item.reference, none⟩ := by
  rw [← List.filterMap_eq_map]
  simp only [FromEntry.readAll, Checked.value_bind, Checked.value_eachSome]
  apply filterMap_eq_of_forall₂ list.forall₂_spans
  rintro item span ⟨lead, modifiers, trail, entry⟩
  exact entry.value_readAt

/-! ## The query -/

theorem unmetInEntry_terminators :
    UnmetInEntry (Clause.fromClause.terminators.map (·.keyword)) :=
  ⟨⟨FlatQuery.isOrderly_of_mem_terminators .fromClause, by decide, by decide⟩,
    by decide, by decide⟩

/-- A search for the end of a FROM clause passes over an item and the separator behind it. -/
theorem Item.silent_separator (item : Item) (separator : Separator) :
    Keyword.Silent (Clause.fromClause.terminators.map (·.keyword))
      (encoded (item.spell Name.shown ++ separator.spelled)) := by
  have unmet := unmetInEntry_terminators
  cases separator with
  | comma => exact item.silent_comma unmet.toUnmet
  | join modifiers =>
    have isWord : ∀ byte ∈ joinWord, Byte.isWordByte byte = true :=
      List.all_eq_true.mp (by decide)
    have foreign : ∀ keyword ∈ Clause.fromClause.terminators.map (·.keyword),
        keyword.isForeign joinWord = true := by decide
    have word := Keyword.silent_word unmet.orderly (by decide) isWord foreign
      (by decide : Keyword.isMark Byte.space = true)
    have silent := (item.silent_entry unmet modifiers).append word
    rwa [List.append_assoc, ← encoded_join, ← encoded_append] at silent

/-- A separator opens nothing and has no parenthesis. -/
theorem Separator.plain_of_mem (separator : Separator) :
    ∀ byte ∈ encoded separator.spelled,
      opensNothing byte = true ∧ isParenthesis byte = false := by
  cases separator with
  | comma => exact plain_of_mem_comma
  | join modifiers =>
    intro byte member
    have plain := plain_of_mem_join byte member
    exact ⟨plain.2, plain.1.2⟩

/-- The FROM clause is a clause of a query. -/
theorem FromList.spelled (list : FromList) :
    Spelled .fromClause (list.spell Name.written) (list.spell Name.shown) := by
  obtain ⟨first, others⟩ := list
  induction others generalizing first with
  | nil =>
    simp only [FromList.spell, List.flatMap_nil, List.append_nil]
    exact first.spelled unmetInEntry_terminators.toUnmet
  | cons other others inductionHypothesis =>
    obtain ⟨separator, next⟩ := other
    have isCons (spelling : Name → List Char) :
        FromList.spell spelling ⟨first, (separator, next) :: others⟩ =
          first.spell spelling ++ (separator.spelled ++ FromList.spell spelling ⟨next, others⟩) := by
      simp only [FromList.spell, List.flatMap_cons, List.append_assoc]
    have behind := inductionHypothesis next
    have silent := first.silent_separator separator
    have plain := separator.plain_of_mem
    rw [isCons, isCons]
    cases separator with
    | comma => exact behind.behind first rfl plain silent
    | join modifiers => exact behind.behind first rfl plain silent

/-- A star is a select list. -/
theorem spelled_star : Spelled .selectList ['*'] ['*'] where
  seen := seenAs_self (List.all_eq_true.mp (by decide))
  width_eq := rfl
  closed := by
    have marks : ∀ byte ∈ encoded ['*'] ++ [Byte.space], Keyword.isMark byte = true :=
      List.all_eq_true.mp (by decide)
    have solid : ∀ byte ∈ encoded ['*'], Byte.isBlank byte = false := by
      have checked : (encoded ['*']).all (fun byte => !Byte.isBlank byte) = true := by decide
      exact fun byte member => Bool.not_eq_true' _ ▸ List.all_eq_true.mp checked byte member
    exact ⟨Keyword.silent_marks (FlatQuery.isOrderly_of_mem_terminators .selectList) marks,
      .of_solid (by decide) solid⟩
  flat := FlatQuery.flat_of_all (by decide)

theorem unquantified_star : FlatQuery.Unquantified (encoded ['*']) := by
  rw [FlatQuery.Unquantified]
  decide

/-- Writing a FROM clause and extracting gives back what was written: one scope, whose tables are
the references that the items were written for. -/
theorem from_round_trip (list : FromList) :
    ∃ scope, extract ("SELECT * FROM " ++ list.text) = [scope] ∧
      scope.tables = list.items.map Item.reference := by
  have isQuery : "SELECT * FROM " ++ list.text =
      String.ofList (query ['*'] (list.spell Name.written)) := by
    apply String.toList_injective
    simp only [FromList.text, query, String.toList_append, String.toList_ofList]
    rfl
  obtain ⟨scope, extracted, _, masked, tables⟩ :=
    exists_scope spelled_star list.spelled unquantified_star
  refine ⟨scope, by rw [isQuery, extracted], ?_⟩
  rw [tables, list.value_readAll, List.map_map]
  rfl

end Written

end QueryScope
