import Mathlib.Data.List.Basic
import QueryScope.Proofs.CodeView
import QueryScope.Proofs.Boundaries

/-!
# Quotes in the code view

The code view keeps quotes and blanks what is between them. So the view itself tells at every offset
whether a quote is open there, and a byte other than a blank or a quote always stands outside. This
survives when the view is cut at places outside quotes and put together again.
-/

namespace QueryScope.Quotes

/-- Whether a byte is a quote of either kind. -/
def isQuote (byte : UInt8) : Bool := byte == Byte.singleQuote || byte == Byte.doubleQuote

/-- The quote that is open behind a byte, when `opened` is the one that is open in front of it. -/
def openAfter (opened : Option UInt8) (byte : UInt8) : Option UInt8 :=
  match opened with
  | none => if isQuote byte then some byte else none
  | some quote => if byte = quote then none else some quote

/-- The quote that is open behind some bytes. -/
def openBehind (opened : Option UInt8) : Bytes → Option UInt8
  | [] => opened
  | byte :: rest => openBehind (openAfter opened byte) rest

/-- Between quotes there are only blanks. -/
def Hollow (opened : Option UInt8) : Bytes → Prop
  | [] => True
  | byte :: rest =>
    (∀ quote ∈ opened, byte = quote ∨ Byte.isBlank byte = true) ∧
      Hollow (openAfter opened byte) rest

/-- A byte that is no quote opens none. -/
theorem openAfter_plain {byte : UInt8} (plain : isQuote byte = false) :
    openAfter none byte = none := by
  rw [openAfter, plain]
  rfl

/-- A quote opens itself. -/
theorem openAfter_quote {byte : UInt8} (quoted : isQuote byte = true) :
    openAfter none byte = some byte := by
  rw [openAfter, if_pos quoted]

/-- One piece of code after another. -/
theorem openBehind_append (opened : Option UInt8) (first second : Bytes) :
    openBehind opened (first ++ second) = openBehind (openBehind opened first) second := by
  induction first generalizing opened with
  | nil => rfl
  | cons byte rest inductionHypothesis => exact inductionHypothesis _

/-- Two pieces in a row are hollow when each is hollow where it stands. -/
theorem hollow_append {opened : Option UInt8} {first second : Bytes} :
    Hollow opened (first ++ second) ↔
      Hollow opened first ∧ Hollow (openBehind opened first) second := by
  induction first generalizing opened with
  | nil => exact ⟨fun hollow => ⟨trivial, hollow⟩, fun both => both.2⟩
  | cons byte rest inductionHypothesis =>
    rw [List.cons_append, Hollow, Hollow, inductionHypothesis, and_assoc]
    rfl

/-- Bytes that are no quotes open none. -/
theorem openBehind_of_plain {bytes : Bytes} (plain : ∀ byte ∈ bytes, isQuote byte = false) :
    openBehind none bytes = none := by
  induction bytes with
  | nil => rfl
  | cons byte rest inductionHypothesis =>
    have notQuote := plain byte List.mem_cons_self
    rw [openBehind, openAfter_plain notQuote]
    exact inductionHypothesis fun other member => plain other (List.mem_cons_of_mem _ member)

/-- Bytes that are no quotes are hollow where no quote is open. -/
theorem hollow_of_plain {bytes : Bytes} (plain : ∀ byte ∈ bytes, isQuote byte = false) :
    Hollow none bytes := by
  induction bytes with
  | nil => trivial
  | cons byte rest inductionHypothesis =>
    have notQuote := plain byte List.mem_cons_self
    rw [Hollow, openAfter_plain notQuote]
    refine ⟨by rintro quote ⟨⟩, ?_⟩
    exact inductionHypothesis fun other member => plain other (List.mem_cons_of_mem _ member)

/-- A blank is no quote. -/
theorem not_isQuote_of_blank {byte : UInt8} (blank : Byte.isBlank byte = true) :
    isQuote byte = false := by
  rcases Byte.blank_eq blank with rfl | rfl | rfl | rfl | rfl <;> decide

/-- What is open is a quote. -/
theorem isQuote_of_openBehind {opened : Option UInt8} {bytes : Bytes} {quote : UInt8}
    (quotes : ∀ other ∈ opened, isQuote other = true)
    (isOpen : openBehind opened bytes = some quote) : isQuote quote = true := by
  induction bytes generalizing opened with
  | nil => exact quotes quote isOpen
  | cons byte rest inductionHypothesis =>
    refine inductionHypothesis ?_ isOpen
    intro other member
    cases opened with
    | none =>
      rw [openAfter] at member
      split at member
      · cases member
        assumption
      · cases member
    | some quote =>
      rw [openAfter] at member
      split at member
      · cases member
      · cases member
        exact quotes _ rfl

/-- The quote that is open inside a region of a query. -/
def openIn : Region → Option UInt8
  | .quoted quote => some quote
  | .mark (.quoted quote) => some quote
  | _ => none

/-- What a byte that is not code is replaced by is blank. -/
theorem isBlank_blanked (byte : UInt8) : Byte.isBlank (CodeView.blanked byte) = true := by
  rw [CodeView.blanked]
  split
  · rename_i lineEnd
    rw [lineEnd]
    decide
  · decide

/-- A blank leaves a quote open. -/
theorem openAfter_some_of_blank {quote shown : UInt8} (quoted : isQuote quote = true)
    (blank : Byte.isBlank shown = true) : openAfter (some quote) shown = some quote := by
  rw [openAfter, if_neg]
  rintro rfl
  rw [not_isQuote_of_blank blank] at quoted
  cases quoted

/-- What the view shows of a byte agrees with the region that it leads to. -/
theorem openAfter_step {region : Region} (reachable : CodeView.Reachable region) (byte : UInt8)
    (next : Option UInt8) :
    openAfter (openIn region) (CodeView.step region byte next).1 =
        openIn (CodeView.step region byte next).2 ∧
      ∀ quote ∈ openIn region, (CodeView.step region byte next).1 = quote ∨
        Byte.isBlank (CodeView.step region byte next).1 = true := by
  have outside {shown : UInt8} (blank : Byte.isBlank shown = true) :
      openAfter none shown = none := openAfter_plain (not_isQuote_of_blank blank)
  have isQuoteOf {quote : UInt8} (either : quote = Byte.singleQuote ∨ quote = Byte.doubleQuote) :
      isQuote quote = true := by
    rcases either with rfl | rfl <;> rfl
  cases region with
  | code =>
    refine ⟨?_, by rintro quote ⟨⟩⟩
    simp only [CodeView.step]
    split
    · rename_i quoted
      exact openAfter_quote (isQuoteOf quoted)
    · rename_i notQuote
      split
      · exact outside rfl
      · split
        · exact outside rfl
        · have plain : isQuote byte = false := by
            rw [isQuote, Bool.or_eq_false_iff, beq_eq_false_iff_ne, beq_eq_false_iff_ne]
            exact not_or.mp notQuote
          exact openAfter_plain plain
  | quoted quote =>
    have quoted : isQuote quote = true := isQuoteOf reachable
    simp only [CodeView.step]
    split
    · refine ⟨openAfter_some_of_blank quoted (isBlank_blanked byte), ?_⟩
      intro other _
      exact .inr (isBlank_blanked byte)
    · rename_i same
      rw [ne_eq, not_not] at same
      split
      · refine ⟨openAfter_some_of_blank quoted rfl, ?_⟩
        intro other _
        exact .inr rfl
      · refine ⟨by rw [openIn, openAfter, if_pos same]; rfl, ?_⟩
        rintro other ⟨⟩
        exact .inl same
  | lineComment =>
    refine ⟨?_, by rintro quote ⟨⟩⟩
    simp only [CodeView.step]
    split
    · rename_i lineEnd
      rw [lineEnd]
      rfl
    · exact outside (isBlank_blanked byte)
  | blockComment =>
    refine ⟨?_, by rintro quote ⟨⟩⟩
    simp only [CodeView.step]
    split
    · exact outside rfl
    · exact outside (isBlank_blanked byte)
  | mark behind =>
    simp only [CodeView.step]
    cases behind with
    | quoted quote =>
      exact ⟨openAfter_some_of_blank (isQuoteOf reachable) rfl, fun other _ => .inr rfl⟩
    | mark further => exact absurd reachable id
    | code => exact ⟨outside rfl, by rintro quote ⟨⟩⟩
    | lineComment => exact ⟨outside rfl, by rintro quote ⟨⟩⟩
    | blockComment => exact ⟨outside rfl, by rintro quote ⟨⟩⟩

/-- A view is hollow from every region on. -/
theorem hollow_viewFrom {region : Region} (reachable : CodeView.Reachable region) (bytes : Bytes) :
    Hollow (openIn region) (CodeView.viewFrom region bytes) := by
  induction bytes generalizing region with
  | nil => trivial
  | cons byte rest inductionHypothesis =>
    obtain ⟨agrees, shown⟩ := openAfter_step reachable byte rest.head?
    refine ⟨shown, ?_⟩
    rw [agrees]
    exact inductionHypothesis (CodeView.reachable_step reachable byte rest.head?)

/-- The code view of a query is hollow. -/
theorem hollow_codeView (query : Bytes) : Hollow none (codeView query) :=
  hollow_viewFrom CodeView.reachable_code query

/-- An offset at which no quote is open. -/
def Outside (code : Bytes) (offset : Nat) : Prop := openBehind none (code.take offset) = none

namespace Outside

variable {code : Bytes}

theorem zero (code : Bytes) : Outside code 0 := rfl

/-- A byte other than a blank or a quote stands outside quotes. -/
theorem at_solid (hollow : Hollow none code) {offset : Nat} {byte : UInt8}
    (shown : code[offset]? = some byte) (solid : Byte.isBlank byte = false)
    (plain : isQuote byte = false) : Outside code offset := by
  obtain ⟨within, isByte⟩ := List.getElem?_eq_some_iff.mp shown
  rw [← List.take_append_drop offset code, List.drop_eq_getElem_cons within, isByte,
    hollow_append] at hollow
  cases isOpen : openBehind none (code.take offset) with
  | none => exact isOpen
  | some quote =>
    have quoted : isQuote quote = true := isQuote_of_openBehind (by rintro other ⟨⟩) isOpen
    rcases hollow.2.1 quote isOpen with same | blank
    · rw [same, quoted] at plain
      cases plain
    · rw [blank] at solid
      cases solid

/-- Behind such a byte no quote is open either. -/
theorem behind_solid (hollow : Hollow none code) {offset : Nat} {byte : UInt8}
    (shown : code[offset]? = some byte) (solid : Byte.isBlank byte = false)
    (plain : isQuote byte = false) : Outside code (offset + 1) := by
  have before : openBehind none (code.take offset) = none := at_solid hollow shown solid plain
  rw [Outside, List.take_add_one, shown, openBehind_append, before]
  exact openAfter_plain plain

/-- Blanks do not change what is open. -/
theorem behind_blanks {start offset : Nat} (outside : Outside code start)
    (blank : ∀ byte ∈ code.extract start offset, Byte.isBlank byte = true)
    (inOrder : start ≤ offset) : Outside code offset := by
  rw [Outside, ← Window.take_append_extract code inOrder, openBehind_append, outside]
  apply openBehind_of_plain
  intro byte member
  exact not_isQuote_of_blank (blank byte member)

/-- What begins outside quotes is hollow. -/
theorem hollow_extract (hollow : Hollow none code) {start stop : Nat}
    (outside : Outside code start) (inOrder : start ≤ stop) :
    Hollow none (code.extract start stop) := by
  rw [← Window.take_extract_drop code inOrder, hollow_append, hollow_append, outside] at hollow
  exact hollow.2.1

/-- What begins and ends outside quotes leaves none open. -/
theorem openBehind_extract {start stop : Nat} (first : Outside code start)
    (second : Outside code stop) (inOrder : start ≤ stop) :
    openBehind none (code.extract start stop) = none := by
  rw [Outside, ← Window.take_append_extract code inOrder, openBehind_append, first] at second
  exact second

end Outside

/-- Code as the readers expect it: it spells a text and has only blanks between quotes. -/
structure Legible (code : Bytes) : Prop where
  spells : Bytes.IsText code
  hollow : Hollow none code

/-- A place where code may be cut in two and read from again. -/
structure Seam (code : Bytes) (offset : Nat) : Prop where
  cut : Bytes.CutAt code offset
  outside : Outside code offset

namespace Legible

variable {code : Bytes}

/-- The code view of a text is legible. -/
theorem codeView {query : Bytes} (spells : Bytes.IsText query) : Legible (codeView query) :=
  ⟨CodeView.isText_codeView spells, hollow_codeView query⟩

/-- What stands between a seam and a cut is legible. -/
theorem extract (legible : Legible code) {start stop : Nat} (first : Seam code start)
    (second : Bytes.CutAt code stop) (inOrder : start ≤ stop) :
    Legible (code.extract start stop) :=
  ⟨first.cut.isText_extract second inOrder, first.outside.hollow_extract legible.hollow inOrder⟩

/-- Legible code goes on behind legible code that leaves no quote open. -/
theorem append {first second : Bytes} (front : Legible first)
    (closed : openBehind none first = none) (back : Legible second) :
    Legible (first ++ second) := by
  refine ⟨front.spells.append back.spells, hollow_append.mpr ⟨front.hollow, ?_⟩⟩
  rw [closed]
  exact back.hollow

/-- There is a seam at the beginning. -/
theorem seam_zero (legible : Legible code) : Seam code 0 :=
  ⟨.zero legible.spells, .zero code⟩

variable {offset : Nat} {byte : UInt8}

/-- There is a seam in front of a byte of ASCII other than a blank or a quote. -/
theorem seam_at (legible : Legible code) (shown : code[offset]? = some byte) (ascii : byte < 0x80)
    (solid : Byte.isBlank byte = false) (plain : isQuote byte = false) : Seam code offset :=
  ⟨.at_ascii legible.spells shown ascii, .at_solid legible.hollow shown solid plain⟩

/-- There is a seam behind such a byte, too. -/
theorem seam_behind (legible : Legible code) (shown : code[offset]? = some byte)
    (ascii : byte < 0x80) (solid : Byte.isBlank byte = false) (plain : isQuote byte = false) :
    Seam code (offset + 1) :=
  ⟨.behind_ascii legible.spells shown ascii, .behind_solid legible.hollow shown solid plain⟩

/-- Blanks lead from one seam to another one. -/
theorem seam_behind_blanks (legible : Legible code) {start : Nat} (first : Seam code start)
    (within : offset ≤ code.length)
    (blank : ∀ byte ∈ code.extract start offset, Byte.isBlank byte = true)
    (inOrder : start ≤ offset) : Seam code offset :=
  ⟨first.cut.behind_blanks legible.spells within blank inOrder,
    first.outside.behind_blanks blank inOrder⟩

end Legible

end QueryScope.Quotes
