import Mathlib.Data.List.Basic
import Mathlib.Data.List.Forall2
import QueryScope.Sql.CodeView
import QueryScope.Proofs.Utf8

/-!
# Laws of the code view

The view of a query is made byte by byte, but a byte may need a look at the next one. This module
says how far that look reaches. A byte that is shown as itself and is neither a blank nor a quote
was met in code, and there the view starts afresh behind it; a byte in front of it looks the same
as at the end of a query. So the view of what stands between two parentheses is the view of the
whole, cut at the parentheses.

The view of a text is again a text: a longer character is kept whole or blanked whole.
-/

namespace QueryScope.CodeView

/-- Regions that a scan from code can reach: quotes are single or double quotes, and no mark is
followed by the second half of another one. -/
def Reachable : Region → Prop
  | .quoted quote => quote = Byte.singleQuote ∨ quote = Byte.doubleQuote
  | .mark (.mark _) => False
  | .mark (.quoted quote) => quote = Byte.singleQuote ∨ quote = Byte.doubleQuote
  | _ => True

/-- A query begins in code. -/
theorem reachable_code : Reachable .code := trivial

/-- Every byte leads from a reachable region to a reachable one. -/
theorem reachable_step {region : Region} (reachable : Reachable region) (byte : UInt8)
    (next : Option UInt8) : Reachable (step region byte next).2 := by
  cases region with
  | code =>
    simp only [step]
    split
    · assumption
    · split
      · trivial
      · split <;> trivial
  | quoted quote =>
    simp only [step]
    split
    · exact reachable
    · split
      · exact reachable
      · trivial
  | lineComment =>
    simp only [step]
    split <;> trivial
  | blockComment =>
    simp only [step]
    split <;> trivial
  | mark behind =>
    cases behind with
    | mark => exact reachable.elim
    | quoted => exact reachable
    | code => trivial
    | lineComment => trivial
    | blockComment => trivial

/-- Bytes that can be the second of a mark. Only these matter as the byte ahead. -/
def endsMark (byte : UInt8) : Bool :=
  byte == Byte.hyphen || byte == Byte.asterisk || byte == Byte.slash || byte == Byte.singleQuote
    || byte == Byte.doubleQuote

/-- A byte ahead that cannot end a mark is as good as none. -/
theorem step_of_not_endsMark {region : Region} (reachable : Reachable region) (byte : UInt8)
    {next : UInt8} (plain : endsMark next = false) :
    step region byte (some next) = step region byte none := by
  simp only [endsMark, Bool.or_eq_false_iff, beq_eq_false_iff_ne, ne_eq] at plain
  obtain ⟨⟨⟨⟨notHyphen, notAsterisk⟩, notSlash⟩, notSingle⟩, notDouble⟩ := plain
  cases region with
  | code => simp [step, notHyphen, notAsterisk]
  | quoted quote =>
    have notQuote : next ≠ quote := by
      rcases reachable with rfl | rfl
      · exact notSingle
      · exact notDouble
    simp [step, notQuote]
  | lineComment => rfl
  | blockComment => simp [step, notSlash]
  | mark behind => rfl

/-- The region of the byte behind some bytes, when that byte is `next`. -/
def regionBehind (next : Option UInt8) (region : Region) : Bytes → Region
  | [] => region
  | byte :: rest => regionBehind next (step region byte (rest.head?.or next)).2 rest

/-- The view of bytes behind which `next` follows. -/
def viewBefore (next : Option UInt8) (region : Region) : Bytes → Bytes
  | [] => []
  | byte :: rest =>
    (step region byte (rest.head?.or next)).1 ::
      viewBefore next (step region byte (rest.head?.or next)).2 rest

/-- The view of two pieces: the second one is read in the region that the first one leads to. -/
theorem viewFrom_append (region : Region) (first second : Bytes) :
    viewFrom region (first ++ second) =
      viewBefore second.head? region first ++
        viewFrom (regionBehind second.head? region first) second := by
  induction first generalizing region with
  | nil => rfl
  | cons byte rest inductionHypothesis =>
    have ahead : (rest ++ second).head? = rest.head?.or second.head? := List.head?_append
    simp only [List.cons_append, viewFrom, viewBefore, regionBehind, ahead, inductionHypothesis]

/-- Every reachable region leads to a reachable one. -/
theorem reachable_regionBehind {region : Region} (reachable : Reachable region)
    (next : Option UInt8) (bytes : Bytes) : Reachable (regionBehind next region bytes) := by
  induction bytes generalizing region with
  | nil => exact reachable
  | cons byte rest inductionHypothesis =>
    exact inductionHypothesis (reachable_step reachable byte _)

/-- What comes behind some bytes does not matter to a step in front of them if it cannot end a
mark. -/
theorem step_or_of_not_endsMark {region : Region} (reachable : Reachable region) (byte : UInt8)
    (rest : Bytes) {next : UInt8} (plain : endsMark next = false) :
    step region byte (rest.head?.or (some next)) = step region byte rest.head? := by
  cases rest with
  | nil => exact step_of_not_endsMark reachable byte plain
  | cons => rfl

/-- Bytes look the same before a byte that cannot end a mark as at the end of a query. -/
theorem viewBefore_of_not_endsMark {region : Region} (reachable : Reachable region) (bytes : Bytes)
    {next : UInt8} (plain : endsMark next = false) :
    viewBefore (some next) region bytes = viewFrom region bytes := by
  induction bytes generalizing region with
  | nil => rfl
  | cons byte rest inductionHypothesis =>
    simp only [viewBefore, viewFrom, step_or_of_not_endsMark reachable byte rest plain]
    rw [inductionHypothesis (reachable_step reachable byte _)]

/-- Bytes lead to the same region before a byte that cannot end a mark as at the end of a query. -/
theorem regionBehind_of_not_endsMark {region : Region} (reachable : Reachable region)
    (bytes : Bytes) {next : UInt8} (plain : endsMark next = false) :
    regionBehind (some next) region bytes = regionBehind none region bytes := by
  induction bytes generalizing region with
  | nil => rfl
  | cons byte rest inductionHypothesis =>
    simp only [regionBehind, step_or_of_not_endsMark reachable byte rest plain, Option.or_none]
    exact inductionHypothesis (reachable_step reachable byte _)

/-- Bytes that the view never puts in the place of others: neither a blank that stands for
something else nor a quote. -/
def isGenuine (byte : UInt8) : Bool :=
  byte != Byte.space && byte != Byte.lineFeed && byte != Byte.singleQuote
    && byte != Byte.doubleQuote

/-- A genuine byte is shown only where it stands in code, and then code goes on behind it. -/
theorem step_eq_genuine {region : Region} (reachable : Reachable region) {byte shown : UInt8}
    {next : Option UInt8} (genuine : isGenuine shown = true)
    (seen : (step region byte next).1 = shown) :
    region = .code ∧ byte = shown ∧ (step region byte next).2 = .code := by
  simp only [isGenuine, Bool.and_eq_true, bne_iff_ne, ne_eq] at genuine
  obtain ⟨⟨⟨notSpace, notLineFeed⟩, notSingle⟩, notDouble⟩ := genuine
  have notBlanked : blanked byte ≠ shown := by
    intro same
    simp only [blanked] at same
    split at same
    · rename_i lineEnd
      exact notLineFeed (same ▸ lineEnd)
    · exact notSpace same.symm
  cases region with
  | code =>
    simp only [step] at seen
    split at seen
    · rename_i quote
      rcases quote with single | double
      · exact absurd (seen.symm.trans single) notSingle
      · exact absurd (seen.symm.trans double) notDouble
    · rename_i notQuote
      split at seen
      · exact absurd seen.symm notSpace
      · rename_i notLine
        split at seen
        · exact absurd seen.symm notSpace
        · rename_i notBlock
          refine ⟨rfl, seen, ?_⟩
          simp only [step, if_neg notQuote, if_neg notLine, if_neg notBlock]
  | quoted quote =>
    simp only [step] at seen
    split at seen
    · exact absurd seen notBlanked
    · rename_i isQuote
      split at seen
      · exact absurd seen.symm notSpace
      · have same : shown = quote := seen.symm.trans (not_not.mp isQuote)
        rcases reachable with single | double
        · exact absurd (same.trans single) notSingle
        · exact absurd (same.trans double) notDouble
  | lineComment =>
    simp only [step] at seen
    split at seen
    · rename_i lineEnd
      exact absurd (seen.symm.trans lineEnd) notLineFeed
    · exact absurd seen notBlanked
  | blockComment =>
    simp only [step] at seen
    split at seen
    · exact absurd seen.symm notSpace
    · exact absurd seen notBlanked
  | mark behind => exact absurd seen.symm notSpace

/-- The view has as many bytes as the query. -/
theorem length_viewFrom (region : Region) (bytes : Bytes) :
    (viewFrom region bytes).length = bytes.length := by
  induction bytes generalizing region with
  | nil => rfl
  | cons byte rest inductionHypothesis => simp only [viewFrom, List.length_cons, inductionHypothesis]

/-- The code view is as long as the query. -/
theorem length_codeView (query : Bytes) : (codeView query).length = query.length :=
  length_viewFrom .code query

/-- Where the view shows a genuine byte, the query has it too and can be cut there: the part in front
leads back to code, the view in front is that of this part, and the view behind it is that of the
part behind. -/
theorem codeView_cut {query before behind : Bytes} {shown : UInt8}
    (genuine : isGenuine shown = true) (plain : endsMark shown = false)
    (view : codeView query = before ++ shown :: behind) :
    ∃ front back, query = front ++ shown :: back ∧ regionBehind none .code front = .code ∧
      codeView front = before ∧ codeView back = behind := by
  have lengths := congrArg List.length view
  rw [codeView, length_viewFrom, List.length_append, List.length_cons] at lengths
  obtain ⟨byte, back, cut⟩ : ∃ byte back, query.drop before.length = byte :: back :=
    List.exists_cons_of_length_pos (by rw [List.length_drop]; omega)
  have whole : query.take before.length ++ byte :: back = query := by
    rw [← cut, List.take_append_drop]
  have frontLength : (query.take before.length).length = before.length := by
    rw [List.length_take]
    omega
  generalize query.take before.length = front at whole frontLength
  subst whole
  rw [codeView, viewFrom_append] at view
  have viewLength : (viewBefore (byte :: back).head? .code front).length = before.length := by
    have total := congrArg List.length (viewFrom_append .code front (byte :: back))
    simp only [List.length_append, length_viewFrom] at total
    omega
  obtain ⟨frontView, backView⟩ := List.append_inj view viewLength
  rw [viewFrom, List.cons_eq_cons] at backView
  obtain ⟨seen, backView⟩ := backView
  have reachable : Reachable (regionBehind (byte :: back).head? .code front) :=
    reachable_regionBehind reachable_code _ front
  obtain ⟨inCode, rfl, onward⟩ := step_eq_genuine reachable genuine seen
  refine ⟨front, back, rfl, ?_, ?_, ?_⟩
  · rwa [List.head?_cons, regionBehind_of_not_endsMark reachable_code front plain] at inCode
  · rw [← frontView, List.head?_cons, viewBefore_of_not_endsMark reachable_code front plain, codeView]
  · rw [← backView, onward, codeView]

/-- A plain byte that is put into code is shown as itself, and the view starts afresh behind it. -/
theorem codeView_plain {front : Bytes} {byte : UInt8} (back : Bytes) (plain : endsMark byte = false)
    (inCode : regionBehind none .code front = .code) :
    codeView (front ++ byte :: back) = codeView front ++ byte :: codeView back := by
  have outside : byte ≠ Byte.singleQuote ∧ byte ≠ Byte.doubleQuote ∧ byte ≠ Byte.hyphen ∧
      byte ≠ Byte.slash := by
    simp only [endsMark, Bool.or_eq_false_iff, beq_eq_false_iff_ne, ne_eq] at plain
    obtain ⟨⟨⟨⟨notHyphen, _⟩, notSlash⟩, notSingle⟩, notDouble⟩ := plain
    exact ⟨notSingle, notDouble, notHyphen, notSlash⟩
  obtain ⟨notSingle, notDouble, notHyphen, notSlash⟩ := outside
  rw [codeView, viewFrom_append, List.head?_cons, regionBehind_of_not_endsMark reachable_code front
    plain, inCode, viewBefore_of_not_endsMark reachable_code front plain, viewFrom]
  simp [step, notSingle, notDouble, notHyphen, notSlash, codeView]

/-- A mark has only begun where a byte that ends one comes next. -/
theorem endsMark_of_step_eq_mark {region behind : Region} (reachable : Reachable region)
    {byte : UInt8} {next : Option UInt8} (begun : (step region byte next).2 = .mark behind) :
    ∀ second ∈ next, endsMark second = true := by
  have ends {mark : UInt8} (isEnd : endsMark mark = true) (ahead : next = some mark) :
      ∀ second ∈ next, endsMark second = true := by
    intro second member
    rw [ahead, Option.mem_some] at member
    exact member ▸ isEnd
  cases region with
  | code =>
    simp only [step] at begun
    split at begun
    · cases begun
    · split at begun
      · rename_i comment
        exact ends rfl comment.2
      · split at begun
        · rename_i comment
          exact ends rfl comment.2
        · cases begun
  | quoted quote =>
    simp only [step] at begun
    split at begun
    · cases begun
    · split at begun
      · rename_i doubled
        rcases reachable with rfl | rfl <;> exact ends rfl doubled
      · cases begun
  | lineComment =>
    simp only [step] at begun
    split at begun <;> cases begun
  | blockComment =>
    simp only [step] at begun
    split at begun
    · rename_i closing
      exact ends rfl closing.2
    · cases begun
  | mark inner =>
    have same : inner = .mark behind := begun
    subst same
    exact reachable.elim

/-- When a mark has begun, the byte that comes next is one of ASCII. -/
theorem ascii_of_step_eq_mark {region behind : Region} (reachable : Reachable region)
    {byte : UInt8} {next : Option UInt8} (begun : (step region byte next).2 = .mark behind) :
    ∀ second ∈ next, second < 0x80 := by
  intro second member
  have isEnd := endsMark_of_step_eq_mark reachable begun second member
  simp only [endsMark, Bool.or_eq_true, beq_iff_eq] at isEnd
  rcases isEnd with (((rfl | rfl) | rfl) | rfl) | rfl <;> decide

/-- Every byte is shown as itself or as a space. -/
theorem step_eq_or_space (region : Region) (byte : UInt8) (next : Option UInt8) :
    (step region byte next).1 = byte ∨ (step region byte next).1 = Byte.space := by
  have shown : blanked byte = byte ∨ blanked byte = Byte.space := by
    rw [blanked]
    split
    · exact .inl rfl
    · exact .inr rfl
  cases region <;> grind [step]

/-- A view has the byte of the query or a space at every place. -/
theorem veils_viewFrom (region : Region) (bytes : Bytes) :
    List.Forall₂ (fun shown byte => shown = byte ∨ shown = Byte.space) (viewFrom region bytes)
      bytes := by
  induction bytes generalizing region with
  | nil => exact .nil
  | cons byte rest inductionHypothesis =>
    exact .cons (step_eq_or_space region byte rest.head?) (inductionHypothesis _)

/-- A byte of ASCII is shown as a byte of ASCII. -/
theorem step_ascii (region : Region) {byte : UInt8} (ascii : byte < 0x80) (next : Option UInt8) :
    (step region byte next).1 < 0x80 := by
  have blankedAscii : blanked byte < 0x80 := by
    simp only [blanked]
    split
    · exact ascii
    · decide
  have spaceAscii : Byte.space < 0x80 := by decide
  cases region with
  | code =>
    simp only [step]
    split
    · exact ascii
    · split
      · exact spaceAscii
      · split
        · exact spaceAscii
        · exact ascii
  | quoted quote =>
    simp only [step]
    split
    · exact blankedAscii
    · split
      · exact spaceAscii
      · exact ascii
  | lineComment =>
    simp only [step]
    split
    · exact ascii
    · exact blankedAscii
  | blockComment =>
    simp only [step]
    split
    · exact spaceAscii
    · exact blankedAscii
  | mark behind => exact spaceAscii

/-- What bytes outside ASCII look like, all of one region: in code they stay, elsewhere they are
blanked. They never change the region. -/
theorem viewFrom_wide {region : Region} (reachable : Reachable region)
    (noMark : ∀ behind, region ≠ .mark behind) (wide rest : Bytes)
    (outside : ∀ byte ∈ wide, 0x80 ≤ byte) :
    viewFrom region (wide ++ rest) =
      (if region = .code then wide else List.replicate wide.length Byte.space) ++
        viewFrom region rest := by
  induction wide with
  | nil => simp
  | cons byte others inductionHypothesis =>
    have high : 0x80 ≤ byte := outside byte List.mem_cons_self
    have differs {mark : UInt8} (small : mark < 0x80) : byte ≠ mark := by
      rintro rfl
      exact absurd small (UInt8.not_lt.mpr high)
    have notLineFeed : byte ≠ Byte.lineFeed := differs (by decide)
    have notSingle : byte ≠ Byte.singleQuote := differs (by decide)
    have notDouble : byte ≠ Byte.doubleQuote := differs (by decide)
    have notHyphen : byte ≠ Byte.hyphen := differs (by decide)
    have notSlash : byte ≠ Byte.slash := differs (by decide)
    have notAsterisk : byte ≠ Byte.asterisk := differs (by decide)
    have onward := inductionHypothesis fun other member =>
      outside other (List.mem_cons_of_mem _ member)
    cases region with
    | code =>
      simp only [if_true] at onward
      simp [viewFrom, step, notSingle, notDouble, notHyphen, notSlash, onward]
    | quoted quote =>
      have notQuote : byte ≠ quote := by
        rcases reachable with rfl | rfl
        · exact notSingle
        · exact notDouble
      simp only [reduceCtorEq, if_false] at onward
      simp [viewFrom, step, blanked, notQuote, notLineFeed, onward, List.replicate_succ]
    | lineComment =>
      simp only [reduceCtorEq, if_false] at onward
      simp [viewFrom, step, blanked, notLineFeed, onward, List.replicate_succ]
    | blockComment =>
      simp only [reduceCtorEq, if_false] at onward
      simp [viewFrom, step, blanked, notLineFeed, notAsterisk, onward, List.replicate_succ]
    | mark behind => exact absurd rfl (noMark behind)

/-- The view of characters is a text. The region is that of the first byte of a character; a mark
can only have begun when that character is one of ASCII, so a longer one is never met in the
middle of a mark. -/
theorem isText_viewFrom {region : Region} (reachable : Reachable region) (characters : List Char)
    (anchored : ∀ behind, region = .mark behind →
      ∀ first ∈ (characters.flatMap String.utf8EncodeChar).head?, first < 0x80) :
    Bytes.IsText (viewFrom region (characters.flatMap String.utf8EncodeChar)) := by
  induction characters generalizing region with
  | nil => exact Bytes.isText_encoded []
  | cons character others inductionHypothesis =>
    rw [List.flatMap_cons] at anchored ⊢
    rcases Bytes.utf8EncodeChar_ascii_or_wide character with ⟨byte, single, ascii⟩ | wide
    · rw [single, List.singleton_append, viewFrom, ← List.singleton_append]
      refine (Bytes.isText_of_ascii ?_).append
        (inductionHypothesis (reachable_step reachable byte _) ?_)
      · intro shown member
        rw [List.mem_singleton.mp member]
        exact step_ascii region ascii _
      · intro behind begun
        exact ascii_of_step_eq_mark reachable begun
    · have noMark : ∀ behind, region ≠ .mark behind := by
        intro behind isMark
        cases encoded : String.utf8EncodeChar character with
        | nil => exact String.utf8EncodeChar_ne_nil encoded
        | cons first front =>
          have small := anchored behind isMark first (by simp [encoded])
          have high := wide first (by simp [encoded])
          exact absurd small (UInt8.not_lt.mpr high)
      rw [viewFrom_wide reachable noMark _ _ wide]
      refine Bytes.IsText.append ?_ (inductionHypothesis reachable fun behind isMark =>
        absurd isMark (noMark behind))
      split
      · rw [← List.append_nil (String.utf8EncodeChar character)]
        exact Bytes.isText_encoded [character]
      · refine Bytes.isText_of_ascii ?_
        intro shown member
        rw [List.eq_of_mem_replicate member]
        decide

/-- The code view of a text is a text. -/
theorem isText_codeView {query : Bytes} (spells : Bytes.IsText query) :
    Bytes.IsText (codeView query) := by
  obtain ⟨text, rfl⟩ := spells
  exact isText_viewFrom reachable_code text.toList (by simp)

end QueryScope.CodeView
