import QueryScope.Proofs.CodeView
import QueryScope.Proofs.Window

/-!
# The code view of pieces

A piece of a query may look different alone than in the query, because it is read from code on and
because nothing follows it. It looks the same when it begins where the view of the query starts
afresh and ends where the byte ahead does not matter: before a byte that is shown and can neither be
blanked nor end a mark, or behind a byte that is shown and is no space. For a byte that begins a mark
is blanked, so a byte that is shown has not looked ahead.
-/

namespace QueryScope.CodeView

/-- The view of a query starts afresh at an offset: what follows looks as it does alone. -/
def Fresh (query : Bytes) (offset : Nat) : Prop :=
  codeView (query.drop offset) = (codeView query).drop offset

variable {query : Bytes} {start stop offset : Nat} {byte : UInt8}

/-- A view starts at the beginning. -/
theorem fresh_zero (query : Bytes) : Fresh query 0 := rfl

/-- A query can be cut at a genuine byte that is shown, also behind an offset where the view starts
afresh. -/
theorem Fresh.cut (fresh : Fresh query start) (inOrder : start ≤ offset)
    (shown : (codeView query)[offset]? = some byte) (genuine : isGenuine byte = true)
    (plain : endsMark byte = false) :
    query.drop start = query.extract start offset ++ byte :: query.drop (offset + 1) ∧
      regionBehind none .code (query.extract start offset) = .code ∧
      codeView (query.extract start offset) = (codeView query).extract start offset ∧
      codeView (query.drop (offset + 1)) = (codeView query).drop (offset + 1) := by
  obtain ⟨within, isByte⟩ := List.getElem?_eq_some_iff.mp shown
  have view : codeView (query.drop start) =
      (codeView query).extract start offset ++ byte :: (codeView query).drop (offset + 1) := by
    rw [fresh, ← Window.extract_append_drop _ inOrder, List.drop_eq_getElem_cons within, isByte]
  obtain ⟨front, back, whole, inCode, frontView, backView⟩ := codeView_cut genuine plain view
  have frontLength : front.length = offset - start := by
    rw [← length_codeView front, frontView, Window.length_extract _ _ (Nat.le_of_lt within)]
  have isFront : query.extract start offset = front := by
    rw [List.extract_eq_take_drop, whole, List.take_left' frontLength]
  have isBack : query.drop (offset + 1) = back := by
    have behind : query.drop (offset + 1) = (query.drop start).drop (front.length + 1) := by
      rw [List.drop_drop]
      congr 1
      omega
    rw [behind, whole, List.drop_append]
    simp
  rw [isFront, isBack]
  exact ⟨whole, inCode, frontView, backView⟩

/-- The view starts afresh at a genuine byte that is shown. -/
theorem fresh_at (shown : (codeView query)[offset]? = some byte) (genuine : isGenuine byte = true)
    (plain : endsMark byte = false) : Fresh query offset := by
  obtain ⟨whole, _, _, behind⟩ := (fresh_zero query).cut (Nat.zero_le offset) shown genuine plain
  obtain ⟨within, isByte⟩ := List.getElem?_eq_some_iff.mp shown
  have inQuery : query.drop offset = byte :: query.drop (offset + 1) := by
    rw [List.drop_zero, Window.extract_zero] at whole
    exact List.append_cancel_left ((List.take_append_drop offset query).trans whole)
  have alone : codeView (byte :: query.drop (offset + 1)) =
      byte :: codeView (query.drop (offset + 1)) :=
    @codeView_plain [] byte (query.drop (offset + 1)) plain rfl
  rw [Fresh, inQuery, alone, behind, List.drop_eq_getElem_cons within, isByte]

/-- The view starts afresh behind a genuine byte that is shown. -/
theorem fresh_behind (shown : (codeView query)[offset]? = some byte)
    (genuine : isGenuine byte = true) (plain : endsMark byte = false) : Fresh query (offset + 1) :=
  ((fresh_zero query).cut (Nat.zero_le offset) shown genuine plain).2.2.2

/-- Two pieces look as they do alone if the first one ends in code and the second one does not begin
with a byte that ends a mark. -/
theorem codeView_append {front back : Bytes} (inCode : regionBehind none .code front = .code)
    (plain : ∀ byte ∈ back.head?, endsMark byte = false) :
    codeView (front ++ back) = codeView front ++ codeView back := by
  cases back with
  | nil => simp [codeView, viewFrom]
  | cons byte rest =>
    have isPlain : endsMark byte = false := plain byte rfl
    have alone : codeView (byte :: rest) = byte :: codeView rest :=
      @codeView_plain [] byte rest isPlain rfl
    rw [codeView_plain rest isPlain inCode, alone]

/-- Bytes that end no mark are shown as they are at the beginning of a query. -/
theorem codeView_append_of_plain {front : Bytes} (back : Bytes)
    (plain : front.all (fun byte => !endsMark byte) = true) :
    codeView (front ++ back) = front ++ codeView back := by
  induction front with
  | nil => rfl
  | cons byte rest inductionHypothesis =>
    rw [List.all_cons, Bool.and_eq_true, Bool.not_eq_true'] at plain
    have first : codeView (byte :: (rest ++ back)) = byte :: codeView (rest ++ back) :=
      @codeView_plain [] byte (rest ++ back) plain.1 rfl
    rw [List.cons_append, first, inductionHypothesis plain.2, List.cons_append]

/-! ## Pieces that end with a byte that is shown -/

/-- A byte that is shown has not looked ahead. -/
theorem step_none_of_solid {region : Region} {next : Option UInt8}
    (solid : (step region byte next).1 ≠ Byte.space) :
    (step region byte none).1 = (step region byte next).1 := by
  cases region <;> grind [step]

/-- Bytes whose view ends with a byte that is shown look the same whatever follows. -/
theorem viewBefore_of_solid {region : Region} {next : Option UInt8} {bytes : Bytes}
    (solid : ∀ last ∈ (viewBefore next region bytes).getLast?, last ≠ Byte.space) :
    viewBefore next region bytes = viewFrom region bytes := by
  induction bytes generalizing region with
  | nil => rfl
  | cons byte rest inductionHypothesis =>
    cases rest with
    | nil =>
      have shown := step_none_of_solid (solid _ rfl)
      simpa [viewBefore, viewFrom] using shown.symm
    | cons second others =>
      have solidRest : ∀ last ∈ (viewBefore next (step region byte (some second)).2
          (second :: others)).getLast?, last ≠ Byte.space := by
        simpa [viewBefore] using solid
      have onward := inductionHypothesis solidRest
      simpa [viewBefore, viewFrom] using onward

/-- The front of a query looks as it does alone if its view ends with a byte that is shown. -/
theorem codeView_front {front back : Bytes}
    (solid : ∀ last ∈ ((codeView (front ++ back)).take front.length).getLast?, last ≠ Byte.space) :
    codeView front = (codeView (front ++ back)).take front.length := by
  have split : codeView (front ++ back) = viewBefore back.head? .code front ++
      viewFrom (regionBehind back.head? .code front) back := viewFrom_append .code front back
  have frontLength : (viewBefore back.head? .code front).length = front.length := by
    have total := congrArg List.length split
    rw [length_codeView, List.length_append, List.length_append, length_viewFrom] at total
    omega
  rw [split, List.take_left' frontLength] at solid ⊢
  exact (viewBefore_of_solid solid).symm

/-- A piece looks as it does in the query, if it begins where the view starts afresh, its view ends
with a byte that is shown, and a genuine byte that is shown comes later. -/
theorem Fresh.codeView_extract (fresh : Fresh query start) (inOrder : start ≤ stop)
    (before : stop ≤ offset) (shown : (codeView query)[offset]? = some byte)
    (genuine : isGenuine byte = true) (plain : endsMark byte = false)
    (solid : ∀ last ∈ ((codeView query).extract start stop).getLast?, last ≠ Byte.space) :
    codeView (query.extract start stop) = (codeView query).extract start stop := by
  obtain ⟨_, _, view, _⟩ := fresh.cut (Nat.le_trans inOrder before) shown genuine plain
  have within : stop ≤ query.length := by
    have inView := (List.getElem?_eq_some_iff.mp shown).1
    rw [length_codeView] at inView
    omega
  have frontLength : (query.extract start stop).length = stop - start :=
    Window.length_extract query start within
  have front : (codeView (query.extract start stop ++ query.extract stop offset)).take
      (query.extract start stop).length = (codeView query).extract start stop := by
    rw [Window.extract_append_extract query inOrder before, view, frontLength,
      List.extract_eq_take_drop, List.extract_eq_take_drop, List.take_take]
    congr 1
    omega
  rw [← front] at solid ⊢
  exact codeView_front solid

end QueryScope.CodeView
