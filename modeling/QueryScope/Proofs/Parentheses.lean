import Mathlib.Data.List.Basic
import QueryScope.Scope.Subquery

/-!
# Matching parentheses

The scan for parentheses keeps the open ones on a stack. This module relates it to a definition
that knows of no scan: two parentheses match when the code between them is balanced. Both
directions are proved for every code, with any number of parentheses that have no partner.

Balanced code leaves the stack as it found it, so the pairs inside it are the same in every
surrounding. That is the law from which the pairs of a part are read off the pairs of the whole.
-/

namespace QueryScope.Parentheses

open Subquery

/-- Code whose parentheses match among themselves: every initial part has at least as many opening
as closing ones, and in total there are as many of either kind. -/
structure Balanced (code : Bytes) : Prop where
  covered : ∀ initial, initial <+: code →
    initial.count Byte.closeParen ≤ initial.count Byte.openParen
  even : code.count Byte.closeParen = code.count Byte.openParen

/-- How many parentheses are open behind the code when `depth` are open before it, or nothing when
the code closes one that is not open. -/
def depthBehind? (depth : Nat) : Bytes → Option Nat
  | [] => some depth
  | byte :: rest =>
    if byte = Byte.openParen then depthBehind? (depth + 1) rest
    else if byte = Byte.closeParen then
      match depth with
      | 0 => none
      | outer + 1 => depthBehind? outer rest
    else depthBehind? depth rest

/-- The two parentheses are different bytes, so a byte that is one of them is not the other. -/
theorem openParen_ne_closeParen : Byte.openParen ≠ Byte.closeParen := by decide

/-- The depth is known exactly when no initial part closes more than it and the surrounding have
opened, and then it is what the counts say. -/
theorem depthBehind?_eq_some_iff (depth behind : Nat) (code : Bytes) :
    depthBehind? depth code = some behind ↔
      (∀ initial, initial <+: code →
        initial.count Byte.closeParen ≤ depth + initial.count Byte.openParen) ∧
      code.count Byte.closeParen + behind = depth + code.count Byte.openParen := by
  induction code generalizing depth with
  | nil => simp [depthBehind?, eq_comm]
  | cons byte rest inductionHypothesis =>
    have initialParts (property : Bytes → Prop) :
        (∀ initial, initial <+: byte :: rest → property initial) ↔
          property [] ∧ ∀ initial, initial <+: rest → property (byte :: initial) := by
      constructor
      · intro all
        exact ⟨all [] List.nil_prefix, fun initial part =>
          all _ (List.cons_prefix_cons.mpr ⟨rfl, part⟩)⟩
      · rintro ⟨first, others⟩ initial part
        rcases List.prefix_cons_iff.mp part with rfl | ⟨tail, rfl, tailPart⟩
        · exact first
        · exact others tail tailPart
    rw [initialParts]
    by_cases opens : byte = Byte.openParen
    · simp only [depthBehind?, opens, if_true, inductionHypothesis, List.count_cons_self,
        List.count_cons_of_ne openParen_ne_closeParen, List.count_nil]
      constructor
      · rintro ⟨covered, total⟩
        exact ⟨⟨by omega, fun initial part => by have := covered initial part; omega⟩, by omega⟩
      · rintro ⟨⟨_, covered⟩, total⟩
        exact ⟨fun initial part => by have := covered initial part; omega, by omega⟩
    · by_cases closes : byte = Byte.closeParen
      · subst closes
        cases depth with
        | zero =>
          simp only [depthBehind?, opens, if_false, if_true, List.count_cons_self,
            List.count_cons_of_ne opens, reduceCtorEq, false_iff, not_and]
          rintro ⟨_, covered⟩
          have first := covered [] List.nil_prefix
          simp at first
        | succ outer =>
          simp only [depthBehind?, opens, if_false, if_true, inductionHypothesis,
            List.count_cons_self, List.count_cons_of_ne opens, List.count_nil]
          constructor
          · rintro ⟨covered, total⟩
            exact ⟨⟨by omega, fun initial part => by have := covered initial part; omega⟩,
              by omega⟩
          · rintro ⟨⟨_, covered⟩, total⟩
            exact ⟨fun initial part => by have := covered initial part; omega, by omega⟩
      · simp only [depthBehind?, opens, closes, if_false, inductionHypothesis,
          List.count_cons_of_ne opens, List.count_cons_of_ne closes, List.count_nil]
        simp

/-- Balanced code is the code that a count from zero brings back to zero. -/
theorem balanced_iff (code : Bytes) : Balanced code ↔ depthBehind? 0 code = some 0 := by
  rw [depthBehind?_eq_some_iff]
  constructor
  · intro balanced
    exact ⟨fun initial part => by simpa using balanced.covered initial part,
      by simpa using balanced.even⟩
  · rintro ⟨covered, total⟩
    exact ⟨fun initial part => by simpa using covered initial part, by simpa using total⟩

/-- Counting through two pieces is counting through one after the other. -/
theorem depthBehind?_append (depth : Nat) (first second : Bytes) :
    depthBehind? depth (first ++ second) =
      (depthBehind? depth first).bind (depthBehind? · second) := by
  induction first generalizing depth with
  | nil => rfl
  | cons byte rest inductionHypothesis =>
    by_cases opens : byte = Byte.openParen
    · simp only [List.cons_append, depthBehind?, opens, if_true, inductionHypothesis]
    · by_cases closes : byte = Byte.closeParen
      · cases depth <;>
          simp only [List.cons_append, depthBehind?, closes, openParen_ne_closeParen.symm,
            if_false, if_true, inductionHypothesis, Option.bind_none]
      · simp only [List.cons_append, depthBehind?, opens, closes, if_false, inductionHypothesis]

/-- Code that gets along with the parentheses that are open gets along with more of them. -/
theorem depthBehind?_add {depth behind : Nat} {code : Bytes}
    (counted : depthBehind? depth code = some behind) (more : Nat) :
    depthBehind? (depth + more) code = some (behind + more) := by
  rw [depthBehind?_eq_some_iff] at counted ⊢
  obtain ⟨covered, total⟩ := counted
  exact ⟨fun initial part => by have := covered initial part; omega, by omega⟩

/-- No code at all is balanced. -/
theorem balanced_nil : Balanced [] := (balanced_iff []).mpr rfl

/-- A byte that is no parenthesis is balanced. -/
theorem balanced_singleton {byte : UInt8} (notOpen : byte ≠ Byte.openParen)
    (notClose : byte ≠ Byte.closeParen) : Balanced [byte] := by
  rw [balanced_iff]
  simp only [depthBehind?, notOpen, notClose, if_false]

/-- Balanced code behind balanced code is balanced. -/
theorem Balanced.append {first second : Bytes} (left : Balanced first) (right : Balanced second) :
    Balanced (first ++ second) := by
  rw [balanced_iff] at left right ⊢
  rw [depthBehind?_append, left, Option.bind_some, right]

/-- Balanced code stays balanced in parentheses. -/
theorem Balanced.wrap {inside : Bytes} (balanced : Balanced inside) :
    Balanced (Byte.openParen :: (inside ++ [Byte.closeParen])) := by
  rw [balanced_iff] at balanced ⊢
  have insideOne := depthBehind?_add balanced 1
  rw [Nat.zero_add] at insideOne
  simp only [depthBehind?, if_true, Nat.zero_add, depthBehind?_append, insideOne,
    Option.bind_some, openParen_ne_closeParen.symm, if_false]

/-- The parentheses that are open behind the code, the last one first, when those in `waiting` are
open before it. This is the stack that the scan has built when it is through. -/
def waitingBehind (offset : Nat) (waiting : List Nat) : Bytes → List Nat
  | [] => waiting
  | byte :: rest =>
    if byte = Byte.openParen then waitingBehind (offset + 1) (offset :: waiting) rest
    else if byte = Byte.closeParen then waitingBehind (offset + 1) waiting.tail rest
    else waitingBehind (offset + 1) waiting rest

/-- The scan of two pieces is the scan of the first and then that of the second, which starts with
the parentheses that the first has left open. -/
theorem pairsFrom_append (offset : Nat) (waiting : List Nat) (first second : Bytes) :
    pairsFrom offset waiting (first ++ second) =
      pairsFrom offset waiting first ++
        pairsFrom (offset + first.length) (waitingBehind offset waiting first) second := by
  induction first generalizing offset waiting with
  | nil => simp [pairsFrom, waitingBehind]
  | cons byte rest inductionHypothesis =>
    have moved : offset + (byte :: rest).length = offset + 1 + rest.length := by
      simp only [List.length_cons]
      omega
    rw [moved, List.cons_append]
    by_cases opens : byte = Byte.openParen
    · simp only [pairsFrom, waitingBehind, opens, if_true, inductionHypothesis]
    · by_cases closes : byte = Byte.closeParen
      · cases waiting <;>
          simp only [pairsFrom, waitingBehind, closes, openParen_ne_closeParen.symm, if_false,
            if_true, List.tail_nil, List.tail_cons, inductionHypothesis, List.cons_append]
      · simp only [pairsFrom, waitingBehind, opens, closes, if_false, inductionHypothesis]

/-- Code that closes no more than the first of the waiting parentheses never looks at the others:
its pairs are the same without them, and they are still waiting behind it. -/
theorem pairsFrom_frame (offset behind : Nat) (own others : List Nat) (code : Bytes)
    (counted : depthBehind? own.length code = some behind) :
    pairsFrom offset (own ++ others) code = pairsFrom offset own code ∧
      waitingBehind offset (own ++ others) code = waitingBehind offset own code ++ others ∧
      (waitingBehind offset own code).length = behind := by
  induction code generalizing offset own with
  | nil => simpa [pairsFrom, waitingBehind, depthBehind?] using counted
  | cons byte rest inductionHypothesis =>
    by_cases opens : byte = Byte.openParen
    · simp only [depthBehind?, opens, if_true] at counted
      simpa only [pairsFrom, waitingBehind, opens, if_true, List.cons_append] using
        inductionHypothesis (offset + 1) (offset :: own) counted
    · by_cases closes : byte = Byte.closeParen
      · cases own with
        | nil => simp [depthBehind?, closes, openParen_ne_closeParen.symm] at counted
        | cons innermost outer =>
          simp only [depthBehind?, closes, openParen_ne_closeParen.symm, if_false, if_true,
            List.length_cons] at counted
          obtain ⟨samePairs, stillWaiting, count⟩ := inductionHypothesis (offset + 1) outer counted
          simp only [pairsFrom, waitingBehind, closes, openParen_ne_closeParen.symm,
            if_false, if_true, List.cons_append, List.tail_cons, samePairs, stillWaiting, count,
            and_self]
      · simp only [depthBehind?, opens, closes, if_false] at counted
        simpa only [pairsFrom, waitingBehind, opens, closes, if_false] using
          inductionHypothesis (offset + 1) own counted

/-- Balanced code adds its own pairs, which do not depend on what is open around it, and leaves the
stack alone. -/
theorem pairsFrom_balanced_append (offset : Nat) (waiting : List Nat) {inside : Bytes}
    (balanced : Balanced inside) (behind : Bytes) :
    pairsFrom offset waiting (inside ++ behind) =
      pairsFrom offset [] inside ++ pairsFrom (offset + inside.length) waiting behind := by
  obtain ⟨samePairs, stillWaiting, count⟩ :=
    pairsFrom_frame offset 0 [] waiting inside ((balanced_iff inside).mp balanced)
  rw [List.nil_append] at samePairs stillWaiting
  rw [pairsFrom_append, samePairs, stillWaiting, List.length_eq_zero_iff.mp count, List.nil_append]

/-- A pair of offsets moved to the right by `distance`. -/
def shiftPair (distance : Nat) (pair : Nat × Nat) : Nat × Nat :=
  (pair.1 + distance, pair.2 + distance)

/-- A scan that starts further to the right finds the same pairs further to the right. -/
theorem pairsFrom_shift (offset distance : Nat) (waiting : List Nat) (code : Bytes) :
    pairsFrom (offset + distance) (waiting.map (· + distance)) code =
      (pairsFrom offset waiting code).map (shiftPair distance) := by
  induction code generalizing offset waiting with
  | nil => rfl
  | cons byte rest inductionHypothesis =>
    have moved : offset + distance + 1 = offset + 1 + distance := by omega
    by_cases opens : byte = Byte.openParen
    · simpa only [pairsFrom, opens, if_true, moved, List.map_cons] using
        inductionHypothesis (offset + 1) (offset :: waiting)
    · by_cases closes : byte = Byte.closeParen
      · cases waiting with
        | nil =>
          simpa only [pairsFrom, opens, closes, openParen_ne_closeParen.symm, if_false, if_true,
            moved, List.map_nil] using inductionHypothesis (offset + 1) []
        | cons innermost outer =>
          simp only [pairsFrom, closes, openParen_ne_closeParen.symm, if_false, if_true,
            moved, List.map_cons, inductionHypothesis (offset + 1) outer, shiftPair]
      · simpa only [pairsFrom, opens, closes, if_false, moved] using
          inductionHypothesis (offset + 1) waiting

/-- The pairs of a code that holds balanced code between two parentheses: first those that are
closed before, then those inside at their new place, then the two parentheses themselves, and
then those that are closed behind. -/
theorem pairs_around_balanced (before behind : Bytes) {inside : Bytes}
    (balanced : Balanced inside) :
    pairs (before ++ Byte.openParen :: (inside ++ Byte.closeParen :: behind)) =
      pairs before ++ (pairs inside).map (shiftPair (before.length + 1)) ++
        (before.length, before.length + 1 + inside.length) ::
          pairsFrom (before.length + 1 + inside.length + 1) (waitingBehind 0 [] before) behind := by
  have insideShifted := pairsFrom_shift 0 (before.length + 1) [] inside
  rw [Nat.zero_add, List.map_nil] at insideShifted
  rw [pairs, pairsFrom_append, Nat.zero_add]
  simp only [pairsFrom, if_true, openParen_ne_closeParen.symm, if_false,
    pairsFrom_balanced_append _ _ balanced, insideShifted, pairs, List.append_assoc]

/-- Two matching parentheses: an opening one and, behind it, a closing one, with balanced code
between them. -/
structure Matches (code : Bytes) (opening closing : Nat) : Prop where
  opens : code[opening]? = some Byte.openParen
  closes : code[closing]? = some Byte.closeParen
  inOrder : opening < closing
  balanced : Balanced (code.extract (opening + 1) closing)

/-- Matching parentheses cut the code into what is before, inside and behind them. -/
theorem matches_iff_split (code : Bytes) (opening closing : Nat) :
    Matches code opening closing ↔
      ∃ before inside behind,
        code = before ++ Byte.openParen :: (inside ++ Byte.closeParen :: behind) ∧
        Balanced inside ∧ opening = before.length ∧ closing = before.length + 1 + inside.length := by
  constructor
  · rintro ⟨opens, closes, inOrder, balanced⟩
    obtain ⟨openingInside, openingByte⟩ := List.getElem?_eq_some_iff.mp opens
    obtain ⟨closingInside, closingByte⟩ := List.getElem?_eq_some_iff.mp closes
    refine ⟨code.take opening, code.extract (opening + 1) closing, code.drop (closing + 1), ?_,
      balanced, ?_, ?_⟩
    · have cutAtOpening : code.drop opening = Byte.openParen :: code.drop (opening + 1) := by
        rw [List.drop_eq_getElem_cons openingInside, openingByte]
      have cutAtClosing : code.drop closing = Byte.closeParen :: code.drop (closing + 1) := by
        rw [List.drop_eq_getElem_cons closingInside, closingByte]
      have between : code.drop (opening + 1) =
          code.extract (opening + 1) closing ++ code.drop closing := by
        rw [List.extract_eq_take_drop]
        conv_lhs => rw [← List.take_append_drop (closing - (opening + 1)) (code.drop (opening + 1))]
        rw [List.drop_drop]
        congr 2
        omega
      rw [← cutAtClosing, ← between, ← cutAtOpening, List.take_append_drop]
    · rw [List.length_take]
      omega
    · rw [List.extract_eq_take_drop]
      simp only [List.length_take, List.length_drop]
      omega
  · rintro ⟨before, inside, behind, rfl, balanced, rfl, rfl⟩
    refine ⟨by simp, ?_, by omega, ?_⟩
    · rw [List.getElem?_append_right (by omega)]
      simp [show before.length + 1 + inside.length - before.length = inside.length + 1 by omega]
    · have inner : (before ++ Byte.openParen :: (inside ++ Byte.closeParen :: behind)).extract
          (before.length + 1) (before.length + 1 + inside.length) = inside := by
        rw [List.extract_eq_take_drop, ← List.singleton_append, ← List.append_assoc,
          List.drop_left' (by simp), Nat.add_sub_cancel_left, List.take_left]
      rw [inner]
      exact balanced

/-- A stack that the scan can have built at the end of the code: its parentheses stand in the code,
and from each of them up to the next, or to the end, the code is balanced. Nothing is said about
the code in front of the first one, where closing parentheses may lack a partner. -/
inductive Waiting : Bytes → List Nat → Prop where
  | empty (code : Bytes) : Waiting code []
  | opened {before inside : Bytes} {waiting : List Nat} (outer : Waiting before waiting)
      (balanced : Balanced inside) :
      Waiting (before ++ Byte.openParen :: inside) (before.length :: waiting)

/-- More balanced code leaves the same parentheses open. -/
theorem Waiting.append {code more : Bytes} {waiting : List Nat} (stack : Waiting code waiting)
    (balanced : Balanced more) : Waiting (code ++ more) waiting := by
  cases stack with
  | empty => exact .empty _
  | opened outer balancedInside =>
    rw [List.append_assoc, List.cons_append]
    exact .opened outer (balancedInside.append balanced)

/-- What one byte does to the stack: an opening parenthesis is put on it, a closing one takes the
last one off and makes balanced code out of what they enclose, and any other byte is balanced by
itself. In each case the stack is still one that the scan can have built. -/
theorem Waiting.step {processed : Bytes} {waiting : List Nat} (stack : Waiting processed waiting)
    (byte : UInt8) :
    Waiting (processed ++ [byte]) (waitingBehind processed.length waiting [byte]) := by
  by_cases opens : byte = Byte.openParen
  · simp only [waitingBehind, opens, if_true]
    exact .opened stack balanced_nil
  · by_cases closes : byte = Byte.closeParen
    · simp only [waitingBehind, closes, openParen_ne_closeParen.symm, if_false, if_true]
      cases stack with
      | empty => exact .empty _
      | opened outer balanced =>
        rw [List.append_assoc, List.cons_append, List.tail_cons]
        exact outer.append balanced.wrap
    · simp only [waitingBehind, opens, closes, if_false]
      exact stack.append (balanced_singleton opens closes)

/-- The stack behind two pieces is built from the one behind the first. -/
theorem waitingBehind_cons (offset : Nat) (waiting : List Nat) (byte : UInt8) (rest : Bytes) :
    waitingBehind offset waiting (byte :: rest) =
      waitingBehind (offset + 1) (waitingBehind offset waiting [byte]) rest := by
  by_cases opens : byte = Byte.openParen
  · simp only [waitingBehind, opens, if_true]
  · by_cases closes : byte = Byte.closeParen
    · simp only [waitingBehind, closes, openParen_ne_closeParen.symm, if_false, if_true]
    · simp only [waitingBehind, opens, closes, if_false]

/-- Through any code, the stack stays one that the scan can have built. -/
theorem Waiting.run {processed : Bytes} {waiting : List Nat} (stack : Waiting processed waiting)
    (ahead : Bytes) :
    Waiting (processed ++ ahead) (waitingBehind processed.length waiting ahead) := by
  induction ahead generalizing processed waiting with
  | nil =>
    rw [List.append_nil]
    exact stack
  | cons byte rest inductionHypothesis =>
    have onward := inductionHypothesis (stack.step byte)
    rw [List.append_assoc, List.singleton_append, List.length_append, List.length_singleton]
      at onward
    rw [waitingBehind_cons]
    exact onward

/-- Every pair that the scan reports matches, when the stack it starts with is one that it can have
built. -/
theorem matches_of_mem_pairsFrom {processed ahead : Bytes} {waiting : List Nat}
    (stack : Waiting processed waiting) {pair : Nat × Nat}
    (found : pair ∈ pairsFrom processed.length waiting ahead) :
    Matches (processed ++ ahead) pair.1 pair.2 := by
  induction ahead generalizing processed waiting with
  | nil => cases found
  | cons byte rest inductionHypothesis =>
    have onward (later : pair ∈ pairsFrom (processed.length + 1)
        (waitingBehind processed.length waiting [byte]) rest) :
        Matches (processed ++ byte :: rest) pair.1 pair.2 := by
      have advanced : (processed ++ [byte]).length = processed.length + 1 := by simp
      rw [← advanced] at later
      simpa only [List.append_assoc, List.singleton_append] using
        inductionHypothesis (stack.step byte) later
    by_cases opens : byte = Byte.openParen
    · simp only [waitingBehind, opens, if_true] at onward
      simp only [pairsFrom, opens, if_true] at found ⊢
      exact onward found
    · by_cases closes : byte = Byte.closeParen
      · subst closes
        simp only [waitingBehind, opens, if_false, if_true] at onward
        cases stack with
        | empty =>
          simp only [pairsFrom, opens, if_false, if_true] at found
          exact onward found
        | @opened before inside outerWaiting outer balanced =>
          simp only [pairsFrom, opens, if_false, if_true, List.mem_cons] at found
          rcases found with rfl | later
          · rw [matches_iff_split]
            refine ⟨before, inside, rest, by simp, balanced, rfl, ?_⟩
            simp only [List.length_append, List.length_cons]
            omega
          · exact onward later
      · simp only [waitingBehind, opens, closes, if_false] at onward
        simp only [pairsFrom, opens, closes, if_false] at found
        exact onward found

/-- The scan reports exactly the matching parentheses. -/
theorem mem_pairs_iff (code : Bytes) (opening closing : Nat) :
    (opening, closing) ∈ pairs code ↔ Matches code opening closing := by
  constructor
  · intro found
    exact matches_of_mem_pairsFrom (.empty []) found
  · intro matching
    obtain ⟨before, inside, behind, rfl, balanced, rfl, rfl⟩ :=
      (matches_iff_split code opening closing).mp matching
    rw [pairs_around_balanced before behind balanced]
    simp

/-- How two pairs lie when the first is closed before the second: the second is opened before the
first, and so encloses it, or it is opened when the first is already closed. -/
def ClosedBefore (first second : Nat × Nat) : Prop :=
  first.2 < second.2 ∧ (second.1 < first.1 ∨ first.2 < second.1)

/-- Where the pairs lie that a scan from an offset on reports: they are closed there or behind, and
opened there or behind unless they were waiting. -/
structure ReportedFrom (offset : Nat) (waiting : List Nat) (pair : Nat × Nat) : Prop where
  closes : offset ≤ pair.2
  inOrder : pair.1 < pair.2
  opens : pair.1 ∈ waiting ∨ offset ≤ pair.1

/-- A pair that the rest of the scan reports. -/
theorem ReportedFrom.of_rest {offset : Nat} {waiting further : List Nat} {pair : Nat × Nat}
    (reported : ReportedFrom (offset + 1) further pair)
    (kept : ∀ opening ∈ further, opening ∈ waiting ∨ offset ≤ opening) :
    ReportedFrom offset waiting pair := by
  refine ⟨Nat.le_of_succ_le reported.closes, reported.inOrder, ?_⟩
  rcases reported.opens with wasWaiting | later
  · exact kept pair.1 wasWaiting
  · exact .inr (Nat.le_of_succ_le later)

/-- Every pair that the scan reports lies there. -/
theorem reportedFrom_of_mem_pairsFrom (offset : Nat) (waiting : List Nat) (code : Bytes)
    (earlier : ∀ opening ∈ waiting, opening < offset) :
    ∀ pair ∈ pairsFrom offset waiting code, ReportedFrom offset waiting pair := by
  fun_induction pairsFrom offset waiting code with
  | case1 => simp
  | case2 offset waiting rest inductionHypothesis =>
    intro pair member
    refine (inductionHypothesis ?_ pair member).of_rest ?_
    · exact List.forall_mem_cons.mpr ⟨Nat.lt_succ_self _, fun opening isWaiting =>
        Nat.lt_succ_of_lt (earlier opening isWaiting)⟩
    · exact List.forall_mem_cons.mpr ⟨.inr (Nat.le_refl _), fun _ => .inl⟩
  | case3 offset rest _ inductionHypothesis =>
    intro pair member
    exact (inductionHypothesis (by simp) pair member).of_rest fun _ => .inl
  | case4 offset rest innermost outer _ inductionHypothesis =>
    have earlierOuter : ∀ opening ∈ outer, opening < offset + 1 := fun opening isWaiting =>
      Nat.lt_succ_of_lt (earlier opening (List.mem_cons_of_mem _ isWaiting))
    intro pair member
    rcases List.mem_cons.mp member with rfl | later
    · exact ⟨Nat.le_refl _, earlier innermost List.mem_cons_self, .inl List.mem_cons_self⟩
    · exact (inductionHypothesis earlierOuter pair later).of_rest fun _ isWaiting =>
        .inl (List.mem_cons_of_mem _ isWaiting)
  | case5 offset waiting byte rest _ _ inductionHypothesis =>
    intro pair member
    refine (inductionHypothesis ?_ pair member).of_rest fun _ => .inl
    exact fun opening isWaiting => Nat.lt_succ_of_lt (earlier opening isWaiting)

/-- The scan reports pairs in the order of closing, and no two of them cross. -/
theorem pairsFrom_pairwise (offset : Nat) (waiting : List Nat) (code : Bytes)
    (descending : waiting.Pairwise (· > ·)) (earlier : ∀ opening ∈ waiting, opening < offset) :
    (pairsFrom offset waiting code).Pairwise ClosedBefore := by
  fun_induction pairsFrom offset waiting code with
  | case1 => exact .nil
  | case2 offset waiting rest inductionHypothesis =>
    apply inductionHypothesis (List.pairwise_cons.mpr ⟨earlier, descending⟩)
    exact List.forall_mem_cons.mpr ⟨Nat.lt_succ_self _, fun opening isWaiting =>
      Nat.lt_succ_of_lt (earlier opening isWaiting)⟩
  | case3 offset rest _ inductionHypothesis => exact inductionHypothesis .nil (by simp)
  | case4 offset rest innermost outer _ inductionHypothesis =>
    obtain ⟨innermostLast, descendingOuter⟩ := List.pairwise_cons.mp descending
    have innermostEarlier : innermost < offset := earlier innermost List.mem_cons_self
    have earlierOuter : ∀ opening ∈ outer, opening < offset + 1 := fun opening isWaiting =>
      Nat.lt_succ_of_lt (earlier opening (List.mem_cons_of_mem _ isWaiting))
    refine List.pairwise_cons.mpr ⟨?_, inductionHypothesis descendingOuter earlierOuter⟩
    intro pair member
    have reported := reportedFrom_of_mem_pairsFrom _ _ _ earlierOuter pair member
    refine ⟨reported.closes, ?_⟩
    rcases reported.opens with wasWaiting | later
    · exact .inl (innermostLast pair.1 wasWaiting)
    · exact .inr later
  | case5 offset waiting byte rest _ _ inductionHypothesis =>
    apply inductionHypothesis descending
    exact fun opening isWaiting => Nat.lt_succ_of_lt (earlier opening isWaiting)

/-- The pairs of a code come in the order of closing, and no two of them cross. -/
theorem pairs_pairwise (code : Bytes) : (pairs code).Pairwise ClosedBefore :=
  pairsFrom_pairwise 0 [] code .nil (by simp)

/-- Code that ends with less open than it found has a closing parenthesis for what it found: in front
of the first such one, all that the code has opened itself is closed. Here `own` parentheses of
the code are already open, and `depth + 1` were open before it. -/
theorem exists_closing (own : Nat) {depth behind : Nat} {code : Bytes}
    (counted : depthBehind? (depth + 1 + own) code = some behind) (less : behind ≤ depth) :
    ∃ inside rest, code = inside ++ Byte.closeParen :: rest ∧
      depthBehind? own inside = some 0 := by
  induction code generalizing own with
  | nil =>
    simp only [depthBehind?, Option.some.injEq] at counted
    omega
  | cons byte rest inductionHypothesis =>
    by_cases opens : byte = Byte.openParen
    · simp only [depthBehind?, opens, if_true] at counted
      obtain ⟨inside, behindClosing, rfl, closed⟩ := inductionHypothesis (own + 1) counted
      refine ⟨byte :: inside, behindClosing, rfl, ?_⟩
      simp only [depthBehind?, opens, if_true]
      exact closed
    · by_cases closes : byte = Byte.closeParen
      · cases own with
        | zero => exact ⟨[], rest, closes ▸ rfl, rfl⟩
        | succ inner =>
          rw [show depth + 1 + (inner + 1) = depth + 1 + inner + 1 by omega] at counted
          simp only [depthBehind?, closes, openParen_ne_closeParen.symm, if_false, if_true]
            at counted
          obtain ⟨inside, behindClosing, rfl, closed⟩ := inductionHypothesis _ counted
          refine ⟨byte :: inside, behindClosing, rfl, ?_⟩
          simp only [depthBehind?, closes, openParen_ne_closeParen.symm, if_false, if_true]
          exact closed
      · simp only [depthBehind?, opens, closes, if_false] at counted
        obtain ⟨inside, behindClosing, rfl, closed⟩ := inductionHypothesis _ counted
        refine ⟨byte :: inside, behindClosing, rfl, ?_⟩
        simp only [depthBehind?, opens, closes, if_false]
        exact closed

/-- In balanced code every opening parenthesis is closed. -/
theorem exists_closing_of_balanced {before behind : Bytes}
    (balanced : Balanced (before ++ Byte.openParen :: behind)) :
    ∃ inside rest, behind = inside ++ Byte.closeParen :: rest ∧ Balanced inside := by
  rw [balanced_iff, depthBehind?_append] at balanced
  obtain ⟨depth, _, counted⟩ := Option.bind_eq_some_iff.mp balanced
  simp only [depthBehind?, if_true] at counted
  obtain ⟨inside, rest, cut, closed⟩ := exists_closing 0 counted (Nat.zero_le _)
  exact ⟨inside, rest, cut, (balanced_iff inside).mpr closed⟩

/-- In balanced code every closing parenthesis has been opened. -/
theorem exists_opening_of_balanced {before behind : Bytes}
    (balanced : Balanced (before ++ Byte.closeParen :: behind)) :
    ∃ rest inside, before = rest ++ Byte.openParen :: inside ∧ Balanced inside := by
  rw [balanced_iff, depthBehind?_append] at balanced
  obtain ⟨depth, counted, onward⟩ := Option.bind_eq_some_iff.mp balanced
  cases depth with
  | zero => simp [depthBehind?, openParen_ne_closeParen.symm] at onward
  | succ outer =>
    have stack : Waiting before (waitingBehind 0 [] before) := (Waiting.empty []).run before
    have height := (pairsFrom_frame 0 (outer + 1) [] [] before counted).2.2
    generalize waitingBehind 0 [] before = waiting at stack height
    cases stack with
    | empty => cases height
    | opened _ balancedInside => exact ⟨_, _, rfl, balancedInside⟩

/-- A parenthesis that has no partner. -/
def Unmatched (code : Bytes) (offset : Nat) : Prop :=
  (code[offset]? = some Byte.openParen ∨ code[offset]? = some Byte.closeParen) ∧
    ∀ opening closing, Matches code opening closing → offset ≠ opening ∧ offset ≠ closing

/-- No parenthesis between two matching ones lacks a partner. -/
theorem Matches.not_unmatched {code : Bytes} {opening closing offset : Nat}
    (matching : Matches code opening closing) (behindOpening : opening < offset)
    (beforeClosing : offset < closing) : ¬ Unmatched code offset := by
  rintro ⟨parenthesis, alone⟩
  obtain ⟨before, inside, behind, rfl, balanced, rfl, rfl⟩ :=
    (matches_iff_split code opening closing).mp matching
  obtain ⟨distance, rfl⟩ : ∃ distance, offset = before.length + 1 + distance :=
    ⟨offset - (before.length + 1), by omega⟩
  have within : distance < inside.length := by omega
  have atOffset : (before ++ Byte.openParen :: (inside ++ Byte.closeParen :: behind))[
      before.length + 1 + distance]? = some inside[distance] := by
    rw [List.getElem?_append_right (by omega),
      show before.length + 1 + distance - before.length = distance + 1 by omega,
      List.getElem?_cons_succ, List.getElem?_append_left within, List.getElem?_eq_getElem within]
  have cut : inside = inside.take distance ++ inside[distance] :: inside.drop (distance + 1) := by
    rw [← List.drop_eq_getElem_cons within, List.take_append_drop]
  have cutLength : (inside.take distance).length = distance := by
    rw [List.length_take]
    omega
  rw [atOffset, Option.some.injEq, Option.some.injEq] at parenthesis
  rcases parenthesis with opens | closes
  · rw [opens] at cut
    rw [cut] at balanced
    obtain ⟨own, rest, rest_eq, ownBalanced⟩ := exists_closing_of_balanced balanced
    refine (alone (before.length + 1 + distance) (before.length + 1 + distance + 1 + own.length)
      ?_).1 rfl
    rw [matches_iff_split]
    refine ⟨before ++ Byte.openParen :: inside.take distance, own,
      rest ++ Byte.closeParen :: behind, ?_, ownBalanced, ?_, ?_⟩
    · conv_lhs => rw [cut, rest_eq]
      simp only [List.append_assoc, List.cons_append]
    · simp only [List.length_append, List.length_cons, cutLength]
      omega
    · simp only [List.length_append, List.length_cons, cutLength]
      omega
  · rw [closes] at cut
    rw [cut] at balanced
    obtain ⟨rest, own, rest_eq, ownBalanced⟩ := exists_opening_of_balanced balanced
    have restLength := congrArg List.length rest_eq
    simp only [cutLength, List.length_append, List.length_cons] at restLength
    refine (alone (before.length + 1 + rest.length) (before.length + 1 + distance) ?_).2 rfl
    rw [matches_iff_split]
    refine ⟨before ++ Byte.openParen :: rest, own,
      inside.drop (distance + 1) ++ Byte.closeParen :: behind, ?_, ownBalanced, ?_, ?_⟩
    · conv_lhs => rw [cut, rest_eq]
      simp only [List.append_assoc, List.cons_append]
    · simp only [List.length_append, List.length_cons]
      omega
    · simp only [List.length_append, List.length_cons]
      omega

/-- An opening parenthesis on the stack that no pair comes from might as well not be there. -/
theorem pairsFrom_forget {offset opening : Nat} (own : List Nat) {others : List Nat} {code : Bytes}
    (alone : ∀ pair ∈ pairsFrom offset (own ++ opening :: others) code, pair.1 ≠ opening) :
    pairsFrom offset (own ++ opening :: others) code = pairsFrom offset (own ++ others) code := by
  induction code generalizing offset own with
  | nil => rfl
  | cons byte rest inductionHypothesis =>
    by_cases opens : byte = Byte.openParen
    · simp only [pairsFrom, opens, if_true] at alone ⊢
      exact inductionHypothesis (offset :: own) alone
    · by_cases closes : byte = Byte.closeParen
      · subst closes
        cases own with
        | nil =>
          simp only [pairsFrom, opens, if_false, if_true, List.nil_append] at alone
          exact absurd rfl (alone (opening, offset) List.mem_cons_self)
        | cons innermost outer =>
          simp only [pairsFrom, opens, if_false, if_true, List.cons_append] at alone ⊢
          rw [inductionHypothesis outer fun pair member => alone pair (List.mem_cons_of_mem _ member)]
      · simp only [pairsFrom, opens, closes, if_false] at alone ⊢
        exact inductionHypothesis own alone

/-- Putting a byte that is no parenthesis in the place of one without a partner changes no pair. -/
theorem pairs_replace_unmatched (front back : Bytes) (byte : UInt8) {other : UInt8}
    (alone : Unmatched (front ++ byte :: back) front.length) (notOpen : other ≠ Byte.openParen)
    (notClose : other ≠ Byte.closeParen) :
    pairs (front ++ other :: back) = pairs (front ++ byte :: back) := by
  obtain ⟨parenthesis, noPartner⟩ := alone
  have apart (pair : Nat × Nat) (found : pair ∈ pairs (front ++ byte :: back)) :
      front.length ≠ pair.1 ∧ front.length ≠ pair.2 :=
    noPartner pair.1 pair.2 ((mem_pairs_iff _ _ _).mp found)
  rw [pairs, pairs, pairsFrom_append, pairsFrom_append]
  rw [pairs, pairsFrom_append] at apart
  congr 1
  simp only [List.getElem?_append_right (Nat.le_refl _), Nat.sub_self, List.getElem?_cons_zero,
    Option.some.injEq] at parenthesis
  rcases parenthesis with rfl | rfl
  · simp only [pairsFrom, notOpen, notClose, if_false, if_true] at apart ⊢
    refine (pairsFrom_forget [] ?_).symm
    intro pair found
    rw [Nat.zero_add] at found ⊢
    exact (apart pair (List.mem_append_right _ (by rwa [Nat.zero_add]))).1.symm
  · cases waiting : waitingBehind 0 [] front with
    | nil =>
      simp only [pairsFrom, notOpen, notClose, openParen_ne_closeParen.symm, if_false, if_true]
    | cons innermost outer =>
      simp only [waiting, pairsFrom, openParen_ne_closeParen.symm, if_false, if_true] at apart
      exact absurd (Nat.zero_add _).symm
        (apart _ (List.mem_append_right _ List.mem_cons_self)).2

end QueryScope.Parentheses
