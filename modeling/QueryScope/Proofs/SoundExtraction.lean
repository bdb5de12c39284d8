import QueryScope.Proofs.SoundEntries

/-!
# Extraction is sound

Extraction reads the code of the query byte by byte, finds all its offsets there and cuts pieces out
of the query, out of its code and out of the masked blocks. Parentheses are joints of the query, so
a subquery and its contents can be cut out of text and code alike, and what is left when the
children of a scope are replaced is again some code and its text. The clauses of such a block stand
between joints, and reading the entries and the items in them is sound. So no read reaches past the
end, and no cut does or falls inside a character, for any query.
-/

namespace QueryScope

open Bytes EntryShape

/-- The code of a query and the query. -/
theorem overlay_codeOf (query : String) : Overlay (codeOf query) (ofString query) :=
  ⟨(DerivedLinks.legible_codeOf query).spells, ⟨query, rfl⟩, Veiled.veils_codeView _⟩

/-! ## Subqueries -/

namespace Subquery

variable {code : Bytes} (spells : IsText code)
include spells

/-- Looking behind an alias is sound where the alias ends between two characters. -/
theorem sound_checkAliasEnd {offset : Nat} (begins : CutAt code offset) :
    (checkAliasEnd code offset).sound = true := by
  have rest : CutOut code ⟨offset, code.length⟩ := ⟨begins, .length spells, begins.within⟩
  rw [checkAliasEnd, Checked.sound_bind, show (Bytes.cut code _).sound = true from rest.admits,
    Bool.true_and]
  split
  · rfl
  · split
    · rfl
    · rw [Checked.sound_bind, Word.sound_scan spells begins]
      rfl

/-- Reading an alias is sound: every word is looked for right behind the one before it. -/
theorem sound_readAlias {offset : Nat} (begins : CutAt code offset) :
    (readAlias code offset).sound = true := by
  rw [readAlias, Checked.sound_bind, Word.sound_scan spells begins, Bool.true_and, Word.value_scan]
  cases met : Word.next? code offset with
  | none => rfl
  | some first =>
    have behind := (Word.cutOut_of_next? spells begins met).stop
    have named : ∀ word ∈ (if first.is "AS" then Word.scan code first.span.stop
        else pure (some first) : Checked (Option Word)).value, CutAt code word.span.stop := by
      intro word isWord
      split at isWord
      · exact (Word.cutOut_of_next? spells behind isWord).stop
      · cases isWord
        exact behind
    have looked : (if first.is "AS" then Word.scan code first.span.stop
        else pure (some first) : Checked (Option Word)).sound = true := by
      split
      · exact Word.sound_scan spells behind
      · rfl
    simp only [Checked.sound_bind, looked, Bool.true_and]
    split
    · rfl
    · rename_i word isWord
      split
      · rfl
      · rw [Checked.sound_bind, sound_checkAliasEnd spells (named word isWord)]
        rfl

/-- Finding the subqueries is sound: the contents of two parentheses begin between two characters,
and so does what comes behind them. -/
theorem sound_all : (all code).sound = true := by
  rw [all, Checked.sound_eachSome, List.all_eq_true]
  rintro ⟨opening, closing⟩ found
  have matching := (Parentheses.mem_pairs_iff code opening closing).mp found
  have inside : CutOut code ⟨opening + 1, closing⟩ :=
    ⟨.behind_ascii spells matching.opens (by decide),
      .at_ascii spells matching.closes (by decide), matching.inOrder⟩
  have behind : CutAt code (closing + 1) := .behind_ascii spells matching.closes (by decide)
  simp only [ofPair, Checked.sound_bind, sound_trim inside.stop.within,
    Word.sound_scan spells (inside.trim spells).start, Bool.true_and]
  split
  · rw [Checked.sound_bind, sound_readAlias spells behind]
    rfl
  · rfl

end Subquery

section

variable {query : String}

/-- A subquery stands between joints, with its parentheses and without them. -/
theorem cutBoth_of_mem_subqueriesOf {subquery : Subquery} (member : subquery ∈ subqueriesOf query) :
    CutBoth (codeOf query) (ofString query) subquery.span ∧
      CutBoth (codeOf query) (ofString query)
        ⟨subquery.span.start + 1, subquery.span.stop - 1⟩ := by
  obtain ⟨opening, closing, isSpan, matching⟩ := SubquerySpans.exists_matches_of_mem_all member
  have overlay := overlay_codeOf query
  have inOrder : opening < closing := matching.inOrder
  rw [isSpan]
  constructor
  · exact ⟨.at_mark overlay matching.opens (by decide),
      .behind_mark overlay matching.closes (by decide), by simp only; omega⟩
  · exact ⟨.behind_mark overlay matching.opens (by decide),
      .at_mark overlay matching.closes (by decide), inOrder⟩

variable {outline : Outline}

/-- The body of a scope stands between joints. -/
theorem cutBoth_body (member : outline ∈ outlinesOf query) :
    CutBoth (codeOf query) (ofString query) outline.body := by
  have overlay := overlay_codeOf query
  rcases main_or_subquery_of_mem member with rfl | ⟨subquery, found, position, rfl⟩
  · rw [Outline.main, ← overlay.length_eq]
    exact .whole overlay
  · have content := (cutBoth_of_mem_subqueriesOf found).2.trim overlay
    rwa [← SubquerySpans.content_of_mem_all found] at content

/-- Cutting out the text of a scope is sound. -/
theorem sound_content (member : outline ∈ outlinesOf query) :
    (outline.content (ofString query)).sound = true := by
  rcases main_or_subquery_of_mem member with rfl | ⟨subquery, found, position, rfl⟩
  · rfl
  · have inside := (cutBoth_of_mem_subqueriesOf found).2.inText.admits
    simp only [Outline.content, Outline.ofSubquery, Checked.sound_bind, Bytes.cut, inside,
      Checked.sound_pure, Bool.and_self]

end

/-! ## Masked blocks -/

/-- Replacing children that stand between joints is sound, and it leaves some code and its text. -/
theorem Masked.overlay_maskFrom {code text : Bytes} (overlay : Overlay code text)
    {stop cursor : Nat} (begins : Joint code text cursor) (ends : Joint code text stop)
    (inOrder : cursor ≤ stop) {children : List (Span × Nat)}
    (between : ∀ child ∈ children, CutBoth code text child.1 ∧ child.1.stop ≤ stop) :
    (maskFrom text code stop cursor children).sound = true ∧
      Overlay (maskFrom text code stop cursor children).value.code
        (maskFrom text code stop cursor children).value.text := by
  induction children generalizing cursor with
  | nil =>
    have rest : CutBoth code text ⟨cursor, stop⟩ := ⟨begins, ends, inOrder⟩
    refine ⟨?_, rest.overlay overlay⟩
    simp only [maskFrom, Checked.sound_bind, Bytes.cut, rest.inText.admits, rest.inCode.admits,
      Checked.sound_pure, Bool.and_self]
  | cons child others inductionHypothesis =>
    have othersBetween := fun other member => between other (List.mem_cons_of_mem _ member)
    rcases Nat.lt_or_ge child.1.start cursor with overlaps | ahead
    · rw [maskFrom_cons_of_lt text code stop cursor others overlaps]
      exact inductionHypothesis begins inOrder othersBetween
    · obtain ⟨replaced, within⟩ := between child List.mem_cons_self
      have before : CutBoth code text ⟨cursor, child.1.start⟩ := ⟨begins, replaced.start, ahead⟩
      obtain ⟨soundBehind, behind⟩ := inductionHypothesis replaced.stop within othersBetween
      constructor
      · rw [maskFrom, if_neg (Nat.not_lt.mpr ahead)]
        simp only [Checked.sound_bind, Bytes.cut, before.inText.admits, before.inCode.admits,
          soundBehind, Checked.sound_pure, Bool.and_self]
      · rw [value_maskFrom_cons text code stop cursor others ahead]
        exact ((before.overlay overlay).append (.refl ⟨_, rfl⟩)).append behind

/-- Masking the block of a scope is sound, and it leaves some code and its text. -/
theorem overlay_maskedOf {query : String} {outline : Outline}
    (member : outline ∈ outlinesOf query) :
    (Masked.mask (ofString query) (codeOf query) outline.body
      ((childrenIn query outline).map fun child => (child.span, child.index))).sound = true ∧
      Overlay (maskedOf query outline).code (maskedOf query outline).text := by
  obtain ⟨begins, ends, inOrder⟩ := cutBoth_body member
  apply Masked.overlay_maskFrom (overlay_codeOf query) begins ends inOrder
  intro child replaced
  obtain ⟨⟨inner, isChild, isSpan, _⟩, replaceable⟩ :=
    DerivedLinks.exists_child_of_mem_replacedIn replaced
  obtain ⟨position, subquery, found, rfl⟩ := ScopeTree.exists_subquery_of_mem_childrenIn isChild
  refine ⟨?_, replaceable.within⟩
  rw [← isSpan]
  exact (cutBoth_of_mem_subqueriesOf (List.mem_of_getElem? found)).1

/-! ## Clauses -/

section

variable {code text : Bytes}

/-- Every keyword that ends a clause begins and ends with a mark, so the text can be cut in front of
it and behind it. -/
theorem Clause.isFramed_of_mem_terminators (clause : Clause) :
    (clause.terminators.map (·.keyword)).all Keyword.isFramed = true := by
  cases clause <;> decide

/-- What comes before the terminator of a clause, when the clause begins at a joint. -/
theorem Clause.cutBoth_untrimmed (overlay : Overlay code text) (clause : Clause) {offset : Nat}
    (begins : Joint code text offset) :
    CutBoth code text ⟨offset, ((Clause.find? code offset clause.terminators).map
      (·.span.start)).getD code.length⟩ := by
  have upToEnd : CutBoth code text ⟨offset, code.length⟩ :=
    ⟨begins, .length overlay, begins.inCode.within⟩
  have before := Keyword.cutBoth_before overlay
    (Keyword.takesSpace_of_isSolid clause.isSolid_of_mem_terminators)
    clause.isFramed_of_mem_terminators upToEnd
  rwa [List.take_length] at before

/-- What a keyword opens begins at a joint. -/
theorem Clause.joint_of_ofHit? (overlay : Overlay code text) {terminators : List Terminator}
    (framed : (terminators.map (·.keyword)).all Keyword.isFramed = true) {start : Nat} :
    ∀ opening ∈ (Clause.find? code start terminators).bind (Opening.ofHit? terminators),
      Joint code text opening.offset := by
  intro opening opened
  obtain ⟨hit, found, isOffset⟩ := Opening.exists_hit opened
  rw [isOffset]
  exact Keyword.joint_behind overlay framed found

/-- Reading a clause is sound wherever it begins. -/
theorem Clause.sound_read (clause : Clause) (code : Bytes) (offset : Nat) :
    (clause.read code offset).sound = true := by
  have spacious := Keyword.takesSpace_of_isSolid clause.isSolid_of_mem_terminators
  have within := Keyword.firstStart_le spacious code offset code.length
  rw [Keyword.firstStart_length] at within
  simp only [Clause.read, Clause.search, Checked.sound_bind, Keyword.sound_search,
    Checked.sound_pure, Bool.true_and, Bool.and_true]
  exact sound_trim within

/-- So is reading a clause if it is opened. -/
theorem Clause.sound_readOpened (clause : Clause) (code : Bytes) (opening : Option Opening) :
    (clause.readOpened code opening).sound = true := by
  cases opening with
  | none => rfl
  | some opening =>
    rw [Clause.readOpened]
    split
    · exact clause.sound_read code opening.offset
    · rfl

/-- Looking for the select list is sound. -/
theorem Clauses.sound_searchSelectList (spells : IsText code) :
    (Clauses.searchSelectList code).sound = true := by
  rw [Clauses.searchSelectList, Checked.sound_bind, Keyword.sound_search, Bool.true_and,
    Keyword.value_search]
  cases met : Keyword.find? code 0 [Keyword.ofString "SELECT"] with
  | none => rfl
  | some hit =>
    have behind : CutAt code hit.span.stop := by
      apply Keyword.cutAt_behind spells _ met
      rw [← List.all_eq_true]
      decide
    simp only [Checked.sound_bind, Word.sound_scan spells behind, Checked.sound_pure, Bool.and_self]

/-- Taking a block apart is sound. -/
theorem Clauses.sound_ofCode (spells : IsText code) : (Clauses.ofCode code).sound = true := by
  have selectList : (Clauses.readSelectList code).sound = true := by
    rw [Clauses.readSelectList, Checked.sound_bind, sound_searchSelectList spells, Bool.true_and]
    split
    · exact Clause.sound_read _ code _
    · simp only [Clause.search, Checked.sound_bind, Keyword.sound_search, Checked.sound_pure,
        Bool.and_self]
  simp only [Clauses.ofCode, Checked.sound_bind, selectList, Clause.sound_readOpened,
    Checked.sound_pure, Bool.and_self]

/-- A select list begins at a joint. -/
theorem Clauses.joint_of_selectListOffset? (overlay : Overlay code text) (offset : Nat)
    (found : Clauses.selectListOffset? code = some offset) : Joint code text offset := by
  rw [Clauses.selectListOffset?_eq] at found
  obtain ⟨hit, met, isOffset⟩ := Option.map_eq_some_iff.mp found
  have behindSelect := Keyword.joint_behind overlay (by decide) met
  rw [Clauses.behindQuantifier] at isOffset
  split at isOffset
  · rename_i word quantified
    subst isOffset
    exact Word.joint_of_next? overlay behindSelect.inCode
      (Option.eq_some_of_filter_eq_some quantified)
  · subst isOffset
    exact behindSelect

/-- Every clause of a block stands between joints. -/
theorem Clauses.cutBoth_ofCode (overlay : Overlay code text) :
    CutBoth code text (Clauses.ofCode code).value.selectList ∧
      CutBoth code text (Clauses.ofCode code).value.fromClause ∧
      CutBoth code text (Clauses.ofCode code).value.whereClause := by
  refine Clauses.forall_ofCode (.absent overlay) (joint_of_selectListOffset? overlay)
    (Clause.joint_of_ofHit? overlay (by decide)) ?_
  intro clause offset begins
  exact ⟨(clause.cutBoth_untrimmed overlay begins).trim overlay,
    Clause.joint_of_ofHit? overlay clause.isFramed_of_mem_terminators⟩

end

/-! ## Extraction -/

/-- Taking a scope apart is sound. -/
theorem sound_complete {query : String} {outline : Outline} (member : outline ∈ outlinesOf query) :
    (Outline.complete (ofString query) (codeOf query) (outlinesOf query) outline).sound = true := by
  obtain ⟨masking, overlay⟩ := overlay_maskedOf member
  obtain ⟨selectList, fromClause, whereClause⟩ := Clauses.cutBoth_ofCode overlay
  have beforeFrom : CutOut (maskedOf query outline).code
      ⟨0, (maskedOf query outline).clauses.fromClause.start⟩ :=
    ⟨.zero overlay.spellsCode, fromClause.start.inCode, Nat.zero_le _⟩
  simp only [Outline.complete, Checked.sound_bind, Checked.sound_pure, Bool.and_eq_true]
  exact ⟨sound_content member, masking, Clauses.sound_ofCode overlay.spellsCode,
    selectList.inText.admits, selectList.inCode.admits, fromClause.inText.admits,
    fromClause.inCode.admits, whereClause.inText.admits, beforeFrom.admits,
    FromEntry.sound_readAll (fromClause.overlay overlay),
    SelectItem.sound_columnNames (selectList.overlay overlay), trivial⟩

/-- Extraction is sound, whatever the query. Every byte that a scan reads lies inside the text that
is scanned, and every piece that is cut out lies inside its text and begins and ends between
characters. So do the names: their offsets are found in the code, where a character outside ASCII
may have become several blanks, and never fall inside a character of the text. -/
theorem sound_extraction (query : String) : (extraction query).sound = true := by
  simp only [extraction_eq_each, Checked.sound_bind, Checked.sound_each, Bool.and_eq_true,
    List.all_eq_true]
  exact ⟨Subquery.sound_all (overlay_codeOf query).spellsCode,
    fun outline member => sound_complete member⟩

end QueryScope
