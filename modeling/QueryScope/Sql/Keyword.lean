import QueryScope.Text.Blank
import QueryScope.Text.Buffer
import QueryScope.Sql.TopLevel

/-!
# Keywords

A keyword is a sequence of words, such as `ORDER BY`, that a query may write in any case and with
any blanks between the words. The search finds the first keyword of a list at top level, at or
after an offset, and prefers the keyword that comes first in the list. A hit lies inside the
text, behind the offset at which the search began.
-/

namespace QueryScope

/-- A keyword to look for. -/
structure Keyword where
  /-- The words in order. Without any, the keyword is met everywhere and takes up nothing. -/
  words : List Bytes
  /-- Whether the keyword must not begin inside a word. -/
  beginsWord : Bool
deriving DecidableEq, Repr

namespace Keyword

/-- Whether bytes begin with a letter. -/
def startsWithLetter (bytes : Bytes) : Bool := bytes.head?.any Byte.isLetter

/-- The keyword that a text spells, with its words separated by blanks. -/
def ofString (text : String) : Keyword where
  words := (Text.blankSeparated text.toList).map fun word => Bytes.ofString (String.ofList word)
  beginsWord := startsWithLetter (Bytes.ofString text)

/-- The offset behind `word` when the bytes at `offset` are those of the word in any case. A word
that begins with a letter must not go on. -/
def matchWord (buffer : Buffer) (offset : Nat) (word : Bytes) : Checked (Option Nat) := do
  let stop := offset + word.length
  if buffer.size < stop then
    return none
  else
    let spelled ← buffer.slice ⟨offset, stop⟩
    if !Bytes.sameIgnoringCase spelled word then
      return none
    else if startsWithLetter word && decide (stop < buffer.size) then
      let next ← buffer.read stop
      return if Byte.isWordByte next then none else some stop
    else
      return some stop

/-- The offset behind all the words, when they come at `offset`, each after at least one blank. -/
def matchSpaced (buffer : Buffer) (offset : Nat) : List Bytes → Checked (Option Nat)
  | [] => return some offset
  | word :: words => do
    let start ← buffer.advance Byte.isBlank offset buffer.size
    if start = offset then
      return none
    else match ← matchWord buffer start word with
      | none => return none
      | some stop => matchSpaced buffer stop words

/-- The offset behind the keyword, when it comes at `offset`. -/
def matchAt (buffer : Buffer) (offset : Nat) (keyword : Keyword) : Checked (Option Nat) :=
  match keyword.words with
  | [] => return some offset
  | first :: others => do
    match ← matchWord buffer offset first with
    | none => return none
    | some stop => matchSpaced buffer stop others

/-- The first keyword of the list that comes at `offset`, as its position counted from `index`, and
the offset behind it. -/
def matchFirst (buffer : Buffer) (offset : Nat) (insideWord : Bool) (index : Nat) :
    List Keyword → Checked (Option (Nat × Nat))
  | [] => return none
  | keyword :: others =>
    if keyword.beginsWord && insideWord then
      matchFirst buffer offset insideWord (index + 1) others
    else do
      match ← keyword.matchAt buffer offset with
      | some stop => return some (index, stop)
      | none => matchFirst buffer offset insideWord (index + 1) others

/-- Whether the byte in front of `offset` belongs to a word. -/
def isInsideWord (buffer : Buffer) (offset : Nat) : Checked Bool :=
  if offset = 0 then
    return false
  else do
    let before ← buffer.read (offset - 1)
    return Byte.isWordByte before

/-- Where a keyword was found, and which of the list it is. -/
structure Hit where
  index : Nat
  span : Span
deriving DecidableEq, Repr

/-- What `matchFirst` gives at `offset`, where `byte` stands at the given depth. Nothing is matched
inside parentheses, nor at a parenthesis. -/
def matchTopLevel (keywords : List Keyword) (buffer : Buffer) (offset depth : Nat) (byte : UInt8) :
    Checked (Option (Nat × Nat)) :=
  if !isParenthesis byte && depth == 0 then do
    let insideWord ← isInsideWord buffer offset
    matchFirst buffer offset insideWord 0 keywords
  else
    return none

/-- Search from `offset` on, where the depth is given. -/
def searchAt (keywords : List Keyword) (buffer : Buffer) (offset depth : Nat) :
    Checked (Option Hit) :=
  if offset < buffer.size then do
    let byte ← buffer.read offset
    match ← matchTopLevel keywords buffer offset depth byte with
    | some (index, stop) => return some ⟨index, ⟨offset, stop⟩⟩
    | none => searchAt keywords buffer (offset + 1) (depthAfter depth byte)
  else
    return none
termination_by buffer.size - offset

/-- Search for the first keyword of the list at top level, at or after `offset`. Depth is counted
from `offset`, and an offset past the end is taken as the end. -/
def search (code : Bytes) (offset : Nat) (keywords : List Keyword) : Checked (Option Hit) :=
  let buffer := code.buffer
  searchAt keywords buffer (min offset buffer.size) 0

/-- The first keyword of the list at top level, at or after `offset`. -/
def find? (code : Bytes) (offset : Nat) (keywords : List Keyword) : Option Hit :=
  (search code offset keywords).value

@[simp] theorem value_search (code : Bytes) (offset : Nat) (keywords : List Keyword) :
    (search code offset keywords).value = find? code offset keywords := by rw [find?]

/-- Every keyword of a list takes up at least one byte when its first word is not empty. -/
def TakesSpace (keywords : List Keyword) : Prop :=
  ∀ keyword ∈ keywords, 0 < (keyword.words.head?.getD []).length

/-- A word takes up as many bytes as it has, and ends inside the text. -/
theorem stop_of_matchWord {buffer : Buffer} {offset stop : Nat} {word : Bytes}
    (matched : (matchWord buffer offset word).value = some stop) :
    stop = offset + word.length ∧ stop ≤ buffer.size := by
  simp only [matchWord] at matched
  split at matched
  · cases matched
  · rename_i fits
    rw [Checked.value_bind] at matched
    split at matched
    · cases matched
    · split at matched
      · rw [Checked.value_bind, Checked.value_pure, Option.ite_none_left_eq_some] at matched
        cases matched.2
        exact ⟨rfl, Nat.le_of_not_lt fits⟩
      · cases matched
        exact ⟨rfl, Nat.le_of_not_lt fits⟩

/-- Further words never lead back, and they end inside the text. -/
theorem stop_of_matchSpaced {buffer : Buffer} {words : List Bytes} {offset stop : Nat}
    (matched : (matchSpaced buffer offset words).value = some stop) :
    offset ≤ stop ∧ (offset ≤ buffer.size → stop ≤ buffer.size) := by
  induction words generalizing offset with
  | nil =>
    cases matched
    exact ⟨Nat.le_refl _, id⟩
  | cons word words inductionHypothesis =>
    have skipped := Buffer.le_advance Byte.isBlank buffer offset buffer.size
    rw [matchSpaced, Checked.value_bind] at matched
    split at matched
    · cases matched
    · rw [Checked.value_bind] at matched
      split at matched
      · cases matched
      · rename_i between matchedWord
        obtain ⟨isBetween, within⟩ := stop_of_matchWord matchedWord
        obtain ⟨further, inside⟩ := inductionHypothesis matched
        exact ⟨by omega, fun _ => inside within⟩

/-- A keyword takes up its first word at least, and ends inside the text. -/
theorem stop_of_matchAt {buffer : Buffer} {offset stop : Nat} {keyword : Keyword}
    (matched : (keyword.matchAt buffer offset).value = some stop) (within : offset ≤ buffer.size) :
    offset + (keyword.words.head?.getD []).length ≤ stop ∧ stop ≤ buffer.size := by
  simp only [matchAt] at matched
  split at matched
  · rename_i noWords
    cases matched
    simp [noWords, within]
  · rename_i first others words
    rw [Checked.value_bind] at matched
    split at matched
    · cases matched
    · rename_i between matchedFirst
      obtain ⟨isBetween, inside⟩ := stop_of_matchWord matchedFirst
      obtain ⟨further, insideStill⟩ := stop_of_matchSpaced matched
      simp only [words, List.head?_cons, Option.getD_some]
      exact ⟨by omega, insideStill inside⟩

/-- The keyword that is chosen takes up space and ends inside the text. -/
theorem stop_of_matchFirst {buffer : Buffer} {offset index start stop : Nat} {insideWord : Bool}
    {keywords : List Keyword} (spacious : TakesSpace keywords) (within : offset ≤ buffer.size)
    (matched : (matchFirst buffer offset insideWord start keywords).value = some (index, stop)) :
    offset < stop ∧ stop ≤ buffer.size := by
  induction keywords generalizing start with
  | nil => cases matched
  | cons keyword others inductionHypothesis =>
    have spaciousOthers : TakesSpace others :=
      fun other member => spacious other (List.mem_cons_of_mem _ member)
    rw [matchFirst] at matched
    split at matched
    · exact inductionHypothesis spaciousOthers matched
    · rw [Checked.value_bind] at matched
      split at matched
      · rename_i found
        cases matched
        have positive := spacious keyword List.mem_cons_self
        obtain ⟨taken, inside⟩ := stop_of_matchAt found within
        exact ⟨by omega, inside⟩
      · exact inductionHypothesis spaciousOthers matched

/-- A hit of a search begins no earlier than the search, takes up space and ends inside the
text. -/
theorem span_of_searchAt_eq_some {keywords : List Keyword} {buffer : Buffer} {offset depth : Nat}
    {hit : Hit} (spacious : TakesSpace keywords)
    (found : (searchAt keywords buffer offset depth).value = some hit) :
    offset ≤ hit.span.start ∧ hit.span.start < hit.span.stop ∧ hit.span.stop ≤ buffer.size := by
  fun_induction searchAt keywords buffer offset depth with
  | case1 offset depth inside inductionHypothesis =>
    rw [Checked.value_bind, Checked.value_bind] at found
    split at found
    · rename_i index stop met
      cases found
      rw [matchTopLevel] at met
      split at met
      · have bounds := stop_of_matchFirst spacious (Nat.le_of_lt inside) met
        exact ⟨Nat.le_refl _, bounds⟩
      · cases met
    · obtain ⟨later, bounds⟩ := inductionHypothesis _ found
      exact ⟨Nat.le_of_succ_le later, bounds⟩
  | case2 offset depth behind => cases found

/-- A hit begins no earlier than the search, takes up space and ends inside the text. -/
theorem span_of_find?_eq_some {code : Bytes} {offset : Nat} {keywords : List Keyword} {hit : Hit}
    (spacious : TakesSpace keywords) (found : find? code offset keywords = some hit) :
    offset ≤ hit.span.start ∧ hit.span.start < hit.span.stop ∧ hit.span.stop ≤ code.length := by
  obtain ⟨begins, inOrder, ends⟩ := span_of_searchAt_eq_some spacious found
  rw [Bytes.buffer, List.size_toArray] at begins ends
  exact ⟨by omega, inOrder, ends⟩

end Keyword

end QueryScope
