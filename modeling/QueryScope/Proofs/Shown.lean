import Mathlib.Data.List.Forall2
import QueryScope.Proofs.CodeView
import QueryScope.Proofs.EntryShapes
import QueryScope.Proofs.Masking

/-!
# What code shows of a text

Structure is found in the code of a query, but names are cut out of its text. The two have the
same layout, and where the code shows a genuine byte, the text has this byte too. This is all that
code tells about a text: behind a blank there may be anything. It holds of a query and its code
view, of pieces cut out of both and of both with subqueries masked. So a name without blanks and
quotes is the same in all texts that have the same code.
-/

namespace QueryScope

open CodeView EntryShape

/-- What relates code to text byte by byte, and every byte to itself, relates masked code to masked
text. -/
theorem Masked.forall₂_maskFrom {related : UInt8 → UInt8 → Prop}
    (same : ∀ byte, related byte byte) {code text : Bytes} (all : List.Forall₂ related code text)
    (stop cursor : Nat) (children : List (Span × Nat)) :
    List.Forall₂ related (maskFrom text code stop cursor children).value.code
      (maskFrom text code stop cursor children).value.text := by
  have pieces (start stop : Nat) :
      List.Forall₂ related (code.extract start stop) (text.extract start stop) := by
    rw [List.extract_eq_take_drop, List.extract_eq_take_drop]
    exact List.forall₂_take _ (List.forall₂_drop start all)
  induction children generalizing cursor with
  | nil => exact pieces cursor stop
  | cons child others inductionHypothesis =>
    rcases Nat.lt_or_ge child.1.start cursor with overlaps | ahead
    · rw [maskFrom_cons_of_lt text code stop cursor others overlaps]
      exact inductionHypothesis cursor
    · rw [value_maskFrom_cons text code stop cursor others ahead]
      have placeholder : List.Forall₂ related Placeholder.bytes Placeholder.bytes :=
        List.forall₂_same.mpr fun byte _ => same byte
      exact List.rel_append (List.rel_append (pieces cursor child.1.start) placeholder)
        (inductionHypothesis child.1.stop)

/-- Code shows a text when they are equally long and every genuine byte of the code is the byte of
the text at its place. -/
def Shows (code text : Bytes) : Prop :=
  List.Forall₂ (fun shown byte => isGenuine shown = true → byte = shown) code text

namespace Shows

/-- A view shows the bytes that it is made of. -/
theorem viewFrom {region : Region} (reachable : Reachable region) (bytes : Bytes) :
    Shows (CodeView.viewFrom region bytes) bytes := by
  induction bytes generalizing region with
  | nil => exact .nil
  | cons byte rest inductionHypothesis =>
    constructor
    · intro genuine
      exact (step_eq_genuine reachable genuine rfl).2.1
    · exact inductionHypothesis (reachable_step reachable byte rest.head?)

/-- The code view of a query shows the query. -/
theorem codeView (query : Bytes) : Shows (QueryScope.codeView query) query :=
  viewFrom reachable_code query

/-- Every text is shown by itself. -/
theorem refl (bytes : Bytes) : Shows bytes bytes :=
  List.forall₂_same.mpr fun _ _ _ => rfl

variable {code text : Bytes}

/-- A piece of the code shows the same piece of the text. -/
theorem extract (shows : Shows code text) (start stop : Nat) :
    Shows (code.extract start stop) (text.extract start stop) := by
  rw [List.extract_eq_take_drop, List.extract_eq_take_drop]
  exact List.forall₂_take _ (List.forall₂_drop start shows)

/-- What follows an offset of the code shows what follows it in the text. -/
theorem drop (shows : Shows code text) (offset : Nat) : Shows (code.drop offset) (text.drop offset) :=
  List.forall₂_drop offset shows

/-- A genuine byte of the code is the byte of the text at its place. -/
theorem getElem?_eq (shows : Shows code text) {offset : Nat} {byte : UInt8}
    (shown : code[offset]? = some byte) (genuine : isGenuine byte = true) :
    text[offset]? = some byte := by
  induction shows generalizing offset with
  | nil => cases shown
  | cons same _ inductionHypothesis =>
    cases offset with
    | zero =>
      cases shown
      rw [List.getElem?_cons_zero, same genuine]
    | succ offset =>
      rw [List.getElem?_cons_succ] at shown ⊢
      exact inductionHypothesis shown

/-- Code that has only genuine bytes is the text itself. -/
theorem eq_of_genuine (shows : Shows code text)
    (genuine : ∀ byte ∈ code, isGenuine byte = true) : text = code := by
  induction shows with
  | nil => rfl
  | cons same _ inductionHypothesis =>
    rw [same (genuine _ List.mem_cons_self),
      inductionHypothesis fun byte member => genuine byte (List.mem_cons_of_mem _ member)]

/-- Masking replaces the same in the code as in the text. -/
theorem maskFrom (shows : Shows code text) (stop cursor : Nat) (children : List (Span × Nat)) :
    Shows (Masked.maskFrom text code stop cursor children).value.code
      (Masked.maskFrom text code stop cursor children).value.text :=
  Masked.forall₂_maskFrom (fun _ _ => rfl) shows stop cursor children

end Shows

/-- What masking makes of the code, and the children that it remembers, do not depend on the
text. -/
theorem Masked.maskFrom_eq_update (text other code : Bytes) (stop cursor : Nat)
    (children : List (Span × Nat)) :
    (maskFrom other code stop cursor children).value =
      { (maskFrom text code stop cursor children).value with
        text := (maskFrom other code stop cursor children).value.text } := by
  induction children generalizing cursor with
  | nil => rfl
  | cons child others inductionHypothesis =>
    rcases Nat.lt_or_ge child.1.start cursor with overlaps | ahead
    · rw [maskFrom_cons_of_lt other code stop cursor others overlaps,
        maskFrom_cons_of_lt text code stop cursor others overlaps]
      exact inductionHypothesis cursor
    · rw [value_maskFrom_cons other code stop cursor others ahead,
        value_maskFrom_cons text code stop cursor others ahead, inductionHypothesis child.1.stop]

/-- A character that is neither a quote nor one of the blanks that stand for something else. -/
def isPlain (character : Char) : Bool :=
  character != ' ' && character != '\n' && character != '\'' && character != '"'

/-- Plain characters have genuine bytes. -/
theorem isGenuine_of_mem_encoded {characters : List Char}
    (plain : ∀ character ∈ characters, isPlain character = true) :
    ∀ byte ∈ encoded characters, isGenuine byte = true := by
  intro byte member
  by_contra notGenuine
  have exceptional : byte = Byte.space ∨ byte = Byte.lineFeed ∨ byte = Byte.singleQuote ∨
      byte = Byte.doubleQuote := by
    simpa [isGenuine, imp_iff_not_or, or_assoc] using notGenuine
  have absent (exception : UInt8) (ascii : exception < 0x80)
      (notPlain : isPlain (Char.ofNat exception.toNat) = false) : byte ≠ exception := by
    rintro rfl
    have shown := plain _ (mem_of_mem_encoded ascii member)
    rw [notPlain] at shown
    cases shown
  rcases exceptional with isSpace | isLineFeed | isSingle | isDouble
  · exact absent _ (by decide) (by decide) isSpace
  · exact absent _ (by decide) (by decide) isLineFeed
  · exact absent _ (by decide) (by decide) isSingle
  · exact absent _ (by decide) (by decide) isDouble

/-- Plain characters are cut out of the text as the code has them. -/
theorem Shows.extract_eq {text : Bytes} {front name behind : List Char}
    (shows : Shows (encoded (front ++ (name ++ behind))) text)
    (plain : ∀ character ∈ name, isPlain character = true) :
    text.extract (Bytes.width front) (Bytes.width front + Bytes.width name) = encoded name := by
  have whole : encoded (front ++ (name ++ behind)) =
      encoded front ++ (encoded name ++ encoded behind) := by
    simp only [encoded, List.flatMap_append]
  have piece : (encoded (front ++ (name ++ behind))).extract (Bytes.width front)
      (Bytes.width front + Bytes.width name) = encoded name := by
    apply Window.extract_eq_of_append whole
    · rw [length_encoded]
    · rw [length_encoded]
  have shown := shows.extract (Bytes.width front) (Bytes.width front + Bytes.width name)
  rw [piece] at shown
  exact shown.eq_of_genuine (isGenuine_of_mem_encoded plain)

end QueryScope
