import QueryScope.Proofs.Joints

/-!
# Reading entries and items is sound

The readers of FROM clauses and select lists read bytes of the code, find their offsets there and
cut pieces out of the code and the text. No loop reads past its guard. The offsets are joints: an
entry stands between commas, joins and conditions, loses whole words at its end, and its names begin
and end with characters that are no blanks. So every read and every cut of the readers is sound.
-/

namespace QueryScope

open Bytes EntryShape

/-- What is made of a value has no further cuts. -/
theorem Checked.sound_map {α β : Type} (make : α → β) (computed : Checked α) :
    (make <$> computed).sound = computed.sound :=
  Bool.and_true _

/-- A byte of a piece is a byte of the whole. -/
theorem Bytes.getElem?_of_extract {code : Bytes} {start stop offset : Nat} {byte : UInt8}
    (shown : (code.extract start stop)[offset]? = some byte) :
    code[start + offset]? = some byte := by
  rw [List.extract_eq_take_drop, List.getElem?_take] at shown
  split at shown
  · rwa [List.getElem?_drop] at shown
  · cases shown

/-- Characters may be told apart anywhere. -/
theorem Bytes.CutAt.of_encoded (front rest : List Char) :
    CutAt (encoded (front ++ rest)) (width front) := by
  refine .of_drop (isText_encoded _) ?_ ?_
  · rw [length_encoded, width_append]
    exact Nat.le_add_right _ _
  · rw [List.flatMap_append, ← length_encoded, List.drop_left]
    exact isText_encoded rest

/-- A name of the code stands between joints. -/
theorem Placed.cutBoth {characters : List Char} {text : Bytes}
    (overlay : Overlay (encoded characters) text) {span : Span}
    (placed : Placed 0 characters span) : CutBoth (encoded characters) text span := by
  obtain ⟨front, middle, back, rfl, rfl, solid⟩ := placed
  simp only [Nat.zero_add]
  have solidBytes := Written.solidEnds_encoded solid
  refine ⟨?_, ?_, by rw [width_append]; exact Nat.le_add_right _ _⟩
  · obtain ⟨first, rest, isFirst, firstSolid⟩ := solidBytes.first
    refine .at_solid overlay (.of_encoded front _) ?_ firstSolid
    rw [encoded_append, ← length_encoded, List.getElem?_append_right (Nat.le_refl _), Nat.sub_self,
      encoded_append, isFirst]
    rfl
  · obtain ⟨rest, last, isLast, lastSolid⟩ := solidBytes.last
    have isStop : width (front ++ middle) = width front + rest.length + 1 := by
      rw [width_append, ← length_encoded middle, isLast, List.length_append, List.length_singleton,
        Nat.add_assoc]
    have cut := CutAt.of_encoded (front ++ middle) back
    rw [List.append_assoc, isStop] at cut
    rw [isStop]
    refine .behind_solid overlay cut ?_ lastSolid
    rw [encoded_append, ← length_encoded, List.getElem?_append_right (Nat.le_add_right _ _),
      Nat.add_sub_cancel_left, encoded_append, isLast, List.append_assoc,
      List.getElem?_append_right (Nat.le_refl _), Nat.sub_self]
    rfl

variable {code text : Bytes}

/-- A scan that begins between two characters reads soundly, and so it cuts out the word that it
meets: the word is a run of whole characters. -/
theorem Word.sound_scan (spells : IsText code) {offset : Nat} (begins : CutAt code offset) :
    (scan code offset).sound = true := by
  have admitted : ∀ word, (scan code offset).value = some word →
      Bytes.admits code word.span = true :=
    fun word met => (cutOut_of_next? spells begins met).admits
  have whole : code.buffer.size ≤ code.buffer.size := Nat.le_refl _
  simp only [scan, Checked.value_bind, Checked.sound_bind, Buffer.sound_advance whole,
    Bool.true_and] at admitted ⊢
  generalize (code.buffer.advance Byte.isBlank offset code.buffer.size).value = start at admitted ⊢
  by_cases inside : start < code.buffer.size
  · rw [if_pos inside] at admitted ⊢
    have reads := (Buffer.sound_read_iff code.buffer start).mpr inside
    simp only [Checked.value_bind, Checked.sound_bind, reads, Bool.true_and] at admitted ⊢
    by_cases starts : Byte.startsWord (code.buffer.read start).value = true
    · rw [if_pos starts] at admitted ⊢
      have cut := admitted _ rfl
      simp only [Checked.sound_bind, Buffer.sound_advance whole, Checked.sound_pure, Bool.true_and,
        Bool.and_true]
      exact cut
    · rw [if_neg starts]
      rfl
  · rw [if_neg inside]
    rfl

/-! ## Items of a select list -/

namespace SelectItem

/-- The characters before an alias are cut off soundly. -/
theorem sound_readAlias (spells : IsText code) : (readAlias code).sound = true := by
  rw [readAlias]
  cases found : trailingAlias? 0 (decode code) with
  | none => rfl
  | some trailing =>
    obtain ⟨front, back, isCode, place, _⟩ := exists_append_of_trailingAlias? found
    have cut := CutAt.of_encoded front (back ++ trailing.name)
    rw [← isCode, EntryPlace.encoded_decode spells, ← Nat.zero_add (width front), ← place] at cut
    have before : CutOut code ⟨0, trailing.start⟩ := ⟨.zero spells, cut, Nat.zero_le _⟩
    simp only [Checked.sound_bind, Bytes.cut, before.admits, Checked.sound_pure, Bool.and_self]

/-- Reading the identifier at the end of an item is sound. -/
theorem sound_readName (spells : IsText code) : (readName code).sound = true := by
  rw [readName]
  split
  · rfl
  · rw [Checked.sound_bind, sound_readAlias spells, Bool.true_and]
    split
    · rfl
    · rfl

/-- The name of a column is cut out soundly. -/
theorem sound_columnName (overlay : Overlay code text) : (columnName text code).sound = true := by
  have isCode := EntryPlace.encoded_decode overlay.spellsCode
  rw [columnName, Checked.sound_bind, sound_readName overlay.spellsCode, Bool.true_and,
    value_readName overlay.spellsCode]
  cases visible : visibleName? (decode code) with
  | none => rfl
  | some name =>
    have length : code.length = width (decode code) := by rw [← length_encoded, isCode]
    have placed := (placed_of_visibleName? visible).cutBoth (isCode.symm ▸ overlay)
    rw [← length] at placed
    simp only [Checked.sound_bind, Bytes.cut, Checked.sound_pure, placed.inText.admits,
      Bool.and_self]

/-- Reading a select list is sound. -/
theorem sound_columnNames (overlay : Overlay code text) :
    (columnNames text code).sound = true := by
  rw [columnNames, Checked.sound_eachSome, List.all_eq_true]
  intro part member
  have untrimmed := TopLevel.cutBoth_of_mem_split overlay (by decide) part member
  have item := untrimmed.trim overlay
  simp only [Checked.sound_bind, Bytes.cut, sound_trim untrimmed.stop.inCode.within,
    item.inText.admits, item.inCode.admits, sound_columnName (item.overlay overlay), Bool.and_self]

end SelectItem

/-! ## Entries of a FROM clause -/

namespace FromEntry

/-- The pieces between joins begin and end at joints. -/
theorem cutBoth_betweenJoins (overlay : Overlay code text) {start stop : Nat}
    (both : CutBoth code text ⟨start, stop⟩) :
    ∀ piece ∈ betweenJoins (code.take stop) start, CutBoth code text piece := by
  have framed : [join].all Keyword.isFramed = true := by decide
  have length : (code.take stop).length = stop := by
    rw [List.length_take, Nat.min_eq_left both.stop.inCode.within]
  apply forall_betweenJoins
  · rwa [length]
  · intro start hit found ahead
    rw [length] at ahead ⊢
    have before := Keyword.cutBoth_before overlay takesSpace_join framed ahead
    rw [found] at before
    have behind := (Keyword.joints_of_find? overlay framed found).2
    have bounds := Keyword.span_of_find?_eq_some takesSpace_join found
    rw [length] at bounds
    exact ⟨before, behind, ahead.stop, bounds.2.2⟩

/-- The entries of a FROM clause, with what belongs to them, begin and end at joints. -/
theorem cutBoth_spans (overlay : Overlay code text) :
    ∀ span ∈ (spans code).value, CutBoth code text span := by
  intro span member
  rw [value_spans] at member
  obtain ⟨pieces, isPieces, isSpan⟩ := List.mem_flatten.mp member
  obtain ⟨part, isPart, rfl⟩ := List.mem_map.mp isPieces
  rw [Window.extract_zero] at isSpan
  exact cutBoth_betweenJoins overlay (TopLevel.cutBoth_of_mem_split overlay (by decide) part isPart)
    span isSpan

/-- Looking for joins is sound. -/
theorem sound_searchJoins (code : Bytes) (start : Nat) : (searchJoins code start).sound = true := by
  fun_induction searchJoins code start with
  | case1 start inductionHypothesis =>
    rw [Checked.sound_andThen, Keyword.sound_search, Bool.true_and]
    split
    · rfl
    · rename_i hit found _ _
      rw [Checked.sound_bind, inductionHypothesis hit found]
      rfl

/-- Finding the entries is sound. -/
theorem sound_spans (overlay : Overlay code text) : (spans code).sound = true := by
  rw [spans]
  simp only [Checked.sound_bind, Checked.sound_each, Checked.sound_pure, Bool.and_true,
    List.all_eq_true]
  intro part member
  have stop := (TopLevel.cutBoth_of_mem_split overlay (by decide) part member).stop
  have front : CutOut code ⟨0, part.stop⟩ :=
    ⟨.zero overlay.spellsCode, stop.inCode, Nat.zero_le _⟩
  simp only [Bytes.cut, front.admits, sound_searchJoins, Bool.and_self]

/-- A span up to the end of one of its runs begins and ends at joints. -/
theorem cutBoth_run (overlay : Overlay code text) {whole : Span} (both : CutBoth code text whole)
    {start : Nat} {run : Bytes}
    (member : (start, run) ∈ runs 0 (code.extract whole.start whole.stop)) :
    CutBoth code text ⟨whole.start, whole.start + (start + run.length)⟩ := by
  have cut := EntryPlace.cutAt_behind_run overlay.spellsCode both.inOrder both.stop.inCode member
  obtain ⟨⟨front, back, isPiece, place, _⟩, nonempty, solid⟩ := FromEntry.runIn_of_mem_runs member
  obtain ⟨others, last, rfl⟩ : ∃ others last, run = others ++ [last] :=
    ⟨_, _, (List.dropLast_append_getLast nonempty).symm⟩
  have shown : (code.extract whole.start whole.stop)[start + others.length]? = some last := by
    rw [isPiece, place, Nat.zero_add, List.getElem?_append_right (Nat.le_add_right _ _),
      Nat.add_sub_cancel_left, List.append_assoc, List.getElem?_append_right (Nat.le_refl _),
      Nat.sub_self]
    rfl
  refine ⟨both.start, ?_, Nat.le_add_right _ _⟩
  rw [List.length_append] at cut ⊢
  exact .behind_solid overlay cut (getElem?_of_extract shown) (solid last List.mem_concat_self)

/-- The word `LATERAL` ends at a joint. -/
theorem joint_behind_lateral (overlay : Overlay code text) {offset : Nat}
    (begins : CutAt code offset) (solid : ∀ byte ∈ code[offset]?, Byte.isBlank byte = false)
    (lateral : Word.nextIs code offset "LATERAL" = true) :
    Joint code text (offset + "LATERAL".length) := by
  obtain ⟨word, met, isLateral⟩ := (Option.any_eq_true _ _).mp lateral
  have joint := Word.joint_of_next? overlay begins met
  obtain ⟨blanks, behind, ahead, blank, _, _, _, place⟩ := Word.split_of_next?_eq_some met
  have noBlanks : blanks = [] := by
    cases blanks with
    | nil => rfl
    | cons first others =>
      rw [← List.head?_drop, ahead] at solid
      exact absurd (blank first List.mem_cons_self) (Bool.eq_false_iff.mp (solid first rfl))
  have length : word.spelling.length = "LATERAL".length :=
    length_eq_of_sameIgnoringCase isLateral
  rw [place, noBlanks, length] at joint
  exact joint

/-- What comes before the condition of an entry. -/
theorem cutBoth_beforeCondition (overlay : Overlay code text) {span : Span}
    (both : CutBoth code text span) :
    CutBoth code text ⟨span.start, ((Keyword.find? (code.extract 0 span.stop) span.start
      conditions).map (·.span.start)).getD span.stop⟩ := by
  rw [Window.extract_zero]
  exact Keyword.cutBoth_before overlay takesSpace_conditions (by decide) both

/-- The parts of a qualifier are cut out soundly. -/
theorem sound_readQualifier (overlay : Overlay code text) :
    (readQualifier text code).sound = true := by
  simp only [readQualifier, Checked.sound_bind, Checked.sound_each, Checked.sound_pure,
    Bool.and_true, List.all_eq_true]
  intro part member
  exact (TopLevel.cutBoth_of_mem_split overlay (by decide) part member).inText.admits

/-- The names of an entry are cut out soundly. -/
theorem sound_ofShape {characters : List Char} (overlay : Overlay (encoded characters) text)
    {shape : Shape} (placed : PlacedShape characters shape) (before : Bytes) :
    (ofShape text (encoded characters) before shape).sound = true := by
  have sameFilter : shape.aliasName.filter
      (fun fragment => fragment.isQuoted || !Word.isReserved fragment.text) =
        shape.aliasName.filter mayBeName := rfl
  have name : Bytes.admits text shape.name.span = true :=
    (placed.name.cutBoth overlay).inText.admits
  have aliasName : ∀ fragment ∈ shape.aliasName.filter mayBeName,
      Bytes.admits text fragment.span = true := by
    intro fragment isAlias
    exact ((placed.aliasName fragment (Option.filter_eq_some_iff.mp isAlias).1).cutBoth
      overlay).inText.admits
  have qualifier : ∀ span ∈ shape.qualifier, CutBoth (encoded characters) text span :=
    fun span isQualifier => (placed.qualifier span isQualifier).cutBoth overlay
  simp only [ofShape, sameFilter]
  generalize shape.aliasName.filter mayBeName = aliasFragment at aliasName ⊢
  generalize shape.qualifier = qualifierSpan at qualifier ⊢
  -- Whether there is an alias or not, the same cuts follow.
  rcases aliasFragment with _ | fragment
  all_goals
    simp only [Checked.sound_bind, Checked.sound_map, Checked.sound_pure, Bytes.cut, aliasName,
      Option.mem_def, Bool.true_and, Bool.and_true]
    split
    · rfl
    · split
      · rfl
      · rcases qualifierSpan with _ | span
        · simp only [Checked.sound_bind, Checked.sound_pure, name, Bool.and_self]
        · have both := qualifier span rfl
          simp only [Checked.sound_bind, Checked.sound_map, Checked.sound_pure, name,
            both.inText.admits, both.inCode.admits, sound_readQualifier (both.overlay overlay),
            Bool.and_self]

/-- Reading the entry proper is sound when it stands between joints. -/
theorem sound_atPlace (overlay : Overlay code text) {entry : Span}
    (both : CutBoth code text entry) :
    (do
      let entryCode ← Bytes.cut code entry
      let entryText ← Bytes.cut text entry
      match Shape.read? (Bytes.decode entryCode) with
      | none => return none
      | some shape =>
        let before ← Bytes.cut code ⟨0, entry.start⟩
        ofShape entryText entryCode before shape : Checked (Option FromEntry)).sound = true := by
  have front : CutOut code ⟨0, entry.start⟩ :=
    ⟨.zero overlay.spellsCode, both.start.inCode, Nat.zero_le _⟩
  have piece := both.overlay overlay
  have isCode := EntryPlace.encoded_decode piece.spellsCode
  simp only [Checked.sound_bind, Bytes.cut, both.inCode.admits, both.inText.admits, Bool.true_and]
  split
  · rfl
  · rename_i shape shaped
    rw [← isCode] at piece ⊢
    simp only [Checked.sound_bind, front.admits, Bool.true_and]
    exact sound_ofShape piece (placedShape_of_read? shaped) _

/-- What is left of an entry without the words at its end and without `LATERAL` in front. -/
theorem cutBoth_table (overlay : Overlay code text) {whole : Span} (both : CutBoth code text whole)
    (solid : ∀ byte ∈ (code.extract whole.start whole.stop).head?, Byte.isBlank byte = false)
    {length : Nat}
    (measured : lengthWithoutModifiers? (code.extract whole.start whole.stop) = some length) :
    CutBoth code text ⟨whole.start, whole.start + length⟩ ∧
      (Word.nextIs code whole.start "LATERAL" = true →
        Joint code text (whole.start + "LATERAL".length)) := by
  obtain ⟨start, run, member, rfl⟩ := FromEntry.exists_run_of_lengthWithoutModifiers? measured
  refine ⟨cutBoth_run overlay both member, ?_⟩
  apply joint_behind_lateral overlay both.start.inCode
  intro byte shown
  apply solid
  have something : whole.stop - whole.start ≠ 0 := by
    intro empty
    rw [List.extract_eq_take_drop, empty, List.take_zero] at member
    cases member
  rwa [List.extract_eq_take_drop, List.head?_take, if_neg something, List.head?_drop]

/-- What stands in front of the last blank of a span can be cut out. -/
theorem cutOut_before_last (spells : IsText code) {span : Span} (cutOut : CutOut code span)
    {offset : Nat} (isLast : lastBlank? (Bytes.cut code span).value = some offset) :
    CutOut code ⟨span.start, span.start + offset⟩ := by
  obtain ⟨front, blank, last, divided, rfl, isBlank, _⟩ := exists_of_lastBlank?_eq_some isLast
  have shown : (code.extract span.start span.stop)[front.length]? = some blank := by
    rw [show code.extract span.start span.stop = _ from divided,
      List.getElem?_append_right (Nat.le_refl _), Nat.sub_self]
    rfl
  have inCode := getElem?_of_extract shown
  exact ⟨cutOut.start, .at_ascii spells inCode (Byte.ascii_of_blank isBlank), Nat.le_add_right _ _⟩

/-- Cutting off the words of the next join is sound, and what is left can be cut out. Each word is
cut off in front of a blank, which is a character of its own. -/
theorem cutOut_dropModifiers (spells : IsText code) {span : Span} (cutOut : CutOut code span) :
    (dropModifiers code span).sound = true ∧
      ∀ table ∈ (dropModifiers code span).value, CutOut code table := by
  fun_induction dropModifiers code span with
  | case1 span inductionHypothesis =>
    have cut : (Bytes.cut code span).sound = true := cutOut.admits
    rw [Checked.sound_andThen, Checked.value_andThen, cut, Bool.true_and]
    split
    · refine ⟨rfl, ?_⟩
      intro table isTable
      rw [Checked.value_pure, Option.mem_def, Option.ite_none_left_eq_some] at isTable
      rwa [← Option.some.inj isTable.2]
    · rename_i offset isLast
      split
      · have front := cutOut_before_last spells cutOut isLast
        have shorter := inductionHypothesis _ rfl offset isLast _ rfl (front.trim spells)
        rw [Checked.sound_andThen, Checked.value_andThen, sound_trim front.stop.within,
          Bool.true_and]
        exact shorter
      · refine ⟨rfl, ?_⟩
        rintro table ⟨⟩
        exact cutOut

/-- Leaving out `LATERAL` is sound. -/
theorem sound_dropLateral (spells : IsText code) {table : Span} (cutOut : CutOut code table) :
    (dropLateral code table).sound = true := by
  rw [dropLateral, Checked.sound_bind, Word.sound_scan spells cutOut.start, Bool.true_and]
  split
  · exact sound_trim cutOut.stop.within
  · rfl

/-- Finding the place of an entry is sound. -/
theorem sound_locate (overlay : Overlay code text) {span : Span} (both : CutBoth code text span) :
    (locate code span).sound = true := by
  have spells := overlay.spellsCode
  have front : CutOut code ⟨0, span.stop⟩ := ⟨.zero spells, both.stop.inCode, Nat.zero_le _⟩
  have before := cutBoth_beforeCondition overlay both
  have whole := (before.trim overlay).inCode
  obtain ⟨dropped, tables⟩ := cutOut_dropModifiers spells whole
  simp only [locate, Checked.sound_bind, Bytes.cut, front.admits, Keyword.sound_search,
    Keyword.value_search, sound_trim before.stop.inCode.within, dropped, Bool.true_and]
  split
  · rfl
  · rename_i table isTable
    rw [Checked.sound_bind, sound_dropLateral spells (tables table isTable)]
    rfl

/-- The entry proper stands between joints. -/
theorem cutBoth_place (overlay : Overlay code text) {span place : Span}
    (both : CutBoth code text span) (found : place? code span = some place) :
    CutBoth code text place := by
  have before := cutBoth_beforeCondition overlay both
  rw [Window.extract_zero, ← Keyword.firstStart] at before
  have trimmed := trimmed_trim before.inOrder before.stop.inCode.within
  obtain ⟨whole, length, rfl, measured, either⟩ := exists_steps_of_place? found
  obtain ⟨table, behindLateral⟩ :=
    cutBoth_table overlay (before.trim overlay) trimmed.solid measured
  rcases either with rfl | ⟨lateral, remains, rfl⟩
  · exact table
  · exact CutBoth.trim overlay ⟨behindLateral lateral, table.stop, Nat.le_of_lt remains⟩

/-- Reading an entry is sound. -/
theorem sound_readAt (overlay : Overlay code text) {span : Span} (both : CutBoth code text span) :
    (readAt text code span).sound = true := by
  rw [readAt, Checked.sound_bind, sound_locate overlay both, Bool.true_and,
    value_locate both.stop.inCode.within]
  cases found : place? code span with
  | none => rfl
  | some place => exact sound_atPlace overlay (cutBoth_place overlay both found)

/-- Reading a FROM clause is sound. -/
theorem sound_readAll (overlay : Overlay code text) : (readAll text code).sound = true := by
  simp only [readAll, Checked.sound_bind, sound_spans overlay, Checked.sound_eachSome,
    Bool.true_and, List.all_eq_true]
  intro span member
  exact sound_readAt overlay (cutBoth_spans overlay span member)

end FromEntry

end QueryScope
