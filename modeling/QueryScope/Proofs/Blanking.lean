import QueryScope.Proofs.CodeView

/-!
# What blanking keeps

The code view of a text is a text of the same length that has the byte of the text or a space at
every place, and all its line ends. Making the view again changes nothing. For what was blanked is
read as code or as the inside of quotes, where blanks are shown as they are; and no mark comes into
being, because a byte of the view that could end one stood in the text at the same place. So a quote
that closes is not taken for the first of a pair, and a hyphen or a slash that was shown does not open a
comment.
-/

namespace QueryScope

namespace CodeView

/-- The region in which the view of a region's bytes is read. Comments are blanked whole, so their
view is code, and so is that of a mark, unless it is a quote written twice. -/
def shownIn : Region → Region
  | .quoted quote => .quoted quote
  | .mark (.quoted quote) => .quoted quote
  | _ => .code

/-- Where the view of a region's bytes is read, blanks are shown as they are. -/
theorem step_blank {region : Region} (reachable : Reachable region) {byte : UInt8}
    (blank : byte = Byte.space ∨ byte = Byte.lineFeed) (next : Option UInt8) :
    step (shownIn region) byte next = (byte, shownIn region) := by
  have inCode : step .code byte next = (byte, .code) := by
    rcases blank with rfl | rfl <;> rfl
  have inQuotes {quote : UInt8} (quotes : quote = Byte.singleQuote ∨ quote = Byte.doubleQuote) :
      step (.quoted quote) byte next = (byte, .quoted quote) := by
    rcases blank with rfl | rfl <;> rcases quotes with rfl | rfl <;> rfl
  cases region with
  | quoted quote => exact inQuotes reachable
  | mark behind =>
    cases behind with
    | quoted quote => exact inQuotes reachable
    | mark further => exact reachable.elim
    | code => exact inCode
    | lineComment => exact inCode
    | blockComment => exact inCode
  | code => exact inCode
  | lineComment => exact inCode
  | blockComment => exact inCode

/-- What a byte is blanked to is a blank. -/
theorem blanked_eq (byte : UInt8) : blanked byte = Byte.space ∨ blanked byte = Byte.lineFeed := by
  by_cases lineEnd : byte = Byte.lineFeed
  · exact .inr (by rw [blanked, if_pos lineEnd, lineEnd])
  · exact .inl (by rw [blanked, if_neg lineEnd])

/-- The step law: what a byte is shown as is shown as itself, and it leads to where the view of what
follows is read. The byte ahead in the view is the one ahead in the query, unless it is a space. -/
theorem step_shown {region : Region} (reachable : Reachable region) (byte : UInt8)
    {next ahead : Option UInt8}
    (kept : ∀ shown ≠ Byte.space, ahead = some shown → next = some shown) :
    step (shownIn region) (step region byte next).1 ahead =
      ((step region byte next).1, shownIn (step region byte next).2) := by
  have space := step_blank reachable (.inl rfl) ahead
  have blank := step_blank reachable (blanked_eq byte) ahead
  cases region with
  | code =>
    by_cases quote : byte = Byte.singleQuote ∨ byte = Byte.doubleQuote
    · simp [step, shownIn, quote]
    · by_cases line : byte = Byte.hyphen ∧ next = some Byte.hyphen
      · have shown : step .code byte next = (Byte.space, .mark .lineComment) := by
          simp only [step, if_neg quote, if_pos line]
        rw [shown]
        exact space
      · by_cases block : byte = Byte.slash ∧ next = some Byte.asterisk
        · have shown : step .code byte next = (Byte.space, .mark .blockComment) := by
            simp only [step, if_neg quote, if_neg line, if_pos block]
          rw [shown]
          exact space
        · -- the byte stays, and the one ahead in the view opens no comment with it either
          have notLine : ¬(byte = Byte.hyphen ∧ ahead = some Byte.hyphen) :=
            fun opens => line ⟨opens.1, kept _ (by decide) opens.2⟩
          have notBlock : ¬(byte = Byte.slash ∧ ahead = some Byte.asterisk) :=
            fun opens => block ⟨opens.1, kept _ (by decide) opens.2⟩
          have shown : step .code byte next = (byte, .code) := by
            simp only [step, if_neg quote, if_neg line, if_neg block]
          rw [shown]
          simp only [step, shownIn, if_neg quote, if_neg notLine, if_neg notBlock]
  | quoted quote =>
    have notSpace : quote ≠ Byte.space := by
      rcases reachable with rfl | rfl <;> decide
    by_cases closes : byte = quote
    · by_cases doubled : next = some quote
      · simpa [step, shownIn, closes, doubled] using space
      · have single : ahead ≠ some quote := fun again => doubled (kept _ notSpace again)
        simp [step, shownIn, closes, doubled, single]
    · simpa [step, shownIn, closes] using blank
  | lineComment =>
    by_cases lineEnd : byte = Byte.lineFeed
    · simpa [step, shownIn, blanked, lineEnd] using blank
    · simpa [step, shownIn, lineEnd] using blank
  | blockComment =>
    by_cases closes : byte = Byte.asterisk ∧ next = some Byte.slash
    · simpa [step, shownIn, closes] using space
    · simpa [step, shownIn, closes] using blank
  | mark behind =>
    cases behind with
    | mark further => exact reachable.elim
    | quoted quote => exact space
    | code => exact space
    | lineComment => exact space
    | blockComment => exact space

/-- The byte ahead in a view is the one ahead in the query, unless it is a space. -/
theorem head?_of_head?_viewFrom (region : Region) (bytes : Bytes) :
    ∀ shown ≠ Byte.space, (viewFrom region bytes).head? = some shown → bytes.head? = some shown := by
  intro shown notSpace ahead
  cases bytes with
  | nil => cases ahead
  | cons byte rest =>
    cases ahead
    rcases step_eq_or_space region byte rest.head? with same | isSpace
    · rw [same, List.head?_cons]
    · exact absurd isSpace notSpace

/-- A view is its own view, when it is read in the region that its bytes are shown in. -/
theorem viewFrom_viewFrom {region : Region} (reachable : Reachable region) (bytes : Bytes) :
    viewFrom (shownIn region) (viewFrom region bytes) = viewFrom region bytes := by
  induction bytes generalizing region with
  | nil => rfl
  | cons byte rest inductionHypothesis =>
    have kept := head?_of_head?_viewFrom (step region byte rest.head?).2 rest
    have law := step_shown reachable byte kept
    simp only [viewFrom, law, inductionHypothesis (reachable_step reachable byte rest.head?)]

/-- The code view of a code view is that code view. -/
theorem codeView_codeView (query : Bytes) : codeView (codeView query) = codeView query :=
  viewFrom_viewFrom reachable_code query

/-! ## Line ends -/

/-- A byte is shown as a line end exactly if it is one. The second byte of a mark is none. -/
theorem step_eq_lineFeed_iff {region : Region} (reachable : Reachable region) {byte : UInt8}
    (anchored : ∀ behind, region = .mark behind → endsMark byte = true) (next : Option UInt8) :
    (step region byte next).1 = Byte.lineFeed ↔ byte = Byte.lineFeed := by
  constructor
  · intro shown
    rcases step_eq_or_space region byte next with same | isSpace
    · exact same.symm.trans shown
    · exact absurd (isSpace.symm.trans shown) (by decide)
  · rintro rfl
    cases region with
    | code => rfl
    | quoted quote => rcases reachable with rfl | rfl <;> rfl
    | lineComment => rfl
    | blockComment => rfl
    | mark behind => exact absurd (anchored behind rfl) (by decide)

/-- A view has its line ends where the query has them. -/
theorem lineFeeds_viewFrom {region : Region} (reachable : Reachable region) (bytes : Bytes)
    (anchored : ∀ behind, region = .mark behind → ∀ first ∈ bytes.head?, endsMark first = true) :
    List.Forall₂ (fun shown byte => shown = Byte.lineFeed ↔ byte = Byte.lineFeed)
      (viewFrom region bytes) bytes := by
  induction bytes generalizing region with
  | nil => exact .nil
  | cons byte rest inductionHypothesis =>
    constructor
    · exact step_eq_lineFeed_iff reachable (fun behind isMark => anchored behind isMark byte rfl) _
    · apply inductionHypothesis (reachable_step reachable byte rest.head?)
      intro behind begun
      exact endsMark_of_step_eq_mark reachable begun

end CodeView

/-- The code view of a text, as a text. -/
def blankedText (text : String) : String := Bytes.text (codeView (Bytes.ofString text))

/-- The bytes of a blanked text are the code view of the text. -/
theorem ofString_blankedText (text : String) :
    Bytes.ofString (blankedText text) = codeView (Bytes.ofString text) :=
  (CodeView.isText_codeView ⟨text, rfl⟩).ofString_text

/-- What relates a view to its query byte by byte relates the bytes at every offset. -/
theorem CodeView.getElem?_of_forall₂ {related : UInt8 → UInt8 → Prop} {view query : Bytes}
    (all : List.Forall₂ related view query) {offset : Nat} (within : offset < query.length) :
    ∃ shown byte, view[offset]? = some shown ∧ query[offset]? = some byte ∧ related shown byte := by
  have inView : offset < view.length := all.length_eq ▸ within
  refine ⟨view[offset], query[offset], List.getElem?_eq_getElem inView,
    List.getElem?_eq_getElem within, ?_⟩
  exact (List.forall₂_iff_get.mp all).2 offset inView within

/-- What blanking makes of a text, both given by their bytes. -/
structure Blanks (text blanked : Bytes) : Prop where
  length_eq : blanked.length = text.length
  byte_or_space : ∀ offset : Nat, offset < text.length →
    blanked[offset]? = text[offset]? ∨ blanked[offset]? = some Byte.space
  lineFeed_iff : ∀ offset : Nat,
    blanked[offset]? = some Byte.lineFeed ↔ text[offset]? = some Byte.lineFeed

/-- The code view of a query blanks it. -/
theorem blanks_codeView (query : Bytes) : Blanks query (codeView query) where
  length_eq := CodeView.length_codeView query
  byte_or_space := by
    intro offset within
    obtain ⟨shown, byte, inView, inQuery, same | isSpace⟩ :=
      CodeView.getElem?_of_forall₂ (CodeView.veils_viewFrom .code query) within
    · exact .inl (by rw [codeView, inView, inQuery, same])
    · exact .inr (by rw [codeView, inView, isSpace])
  lineFeed_iff := by
    intro offset
    by_cases within : offset < query.length
    · have lineFeeds := CodeView.lineFeeds_viewFrom CodeView.reachable_code query (by simp)
      obtain ⟨shown, byte, inView, inQuery, lineEnds⟩ :=
        CodeView.getElem?_of_forall₂ lineFeeds within
      rw [codeView, inView, inQuery, Option.some.injEq, Option.some.injEq]
      exact lineEnds
    · have behindQuery : query.length ≤ offset := Nat.not_lt.mp within
      have behindView : (codeView query).length ≤ offset := by
        rwa [CodeView.length_codeView]
      simp [List.getElem?_eq_none behindQuery, List.getElem?_eq_none behindView]

/-- Blanking keeps the length, shows at every offset the text's own byte or a space, keeps the line
ends and adds none. Blanking again changes nothing. -/
theorem blankedText_blanks (text : String) :
    Blanks (Bytes.ofString text) (Bytes.ofString (blankedText text)) ∧
      blankedText (blankedText text) = blankedText text := by
  constructor
  · rw [ofString_blankedText]
    exact blanks_codeView (Bytes.ofString text)
  · rw [blankedText, ofString_blankedText, CodeView.codeView_codeView, ← blankedText]

/-- A quote that is written twice goes on, and what is left open is blanked to the end. -/
example : codeView (Bytes.ofString "'a''b' -- \"c\n/*/ é") = Bytes.ofString "'    '      \n      " := by
  decide +kernel

end QueryScope
