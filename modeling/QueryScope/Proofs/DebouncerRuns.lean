import Mathlib.Data.List.Induction
import QueryScope.Completion.Debouncer

/-!
# What a debouncer owes to its history

A debouncer keeps one time only, but its answers are a matter of the whole past: which edits there
were, and which of them have been dealt with by a take that answered yes. This module says so for
every sequence of edits, polls and takes, with times that may jump in either direction.

The step law is what one more call does to the past: an edit is the last one from then on and
waits, a take that answers yes leaves nothing waiting, and everything else changes nothing. The
debouncer follows it step by step, so it always holds the time of the last edit if that edit waits
and nothing otherwise.
-/

namespace QueryScope.Debouncer

/-- Something that a host asks of a debouncer, and at what time. -/
inductive Call where
  | edit (now : Nat)
  | poll (now : Nat)
  | take (now : Nat)
deriving DecidableEq, Repr

/-- Whether the call tells of an edit. -/
def Call.isEdit : Call → Bool
  | edit _ => true
  | _ => false

/-- A call with its answer. An edit is not answered. -/
structure Event where
  call : Call
  answer : Option Bool
deriving DecidableEq, Repr

/-- Whether the event is a take that answered yes. -/
def Event.isTaken : Event → Bool
  | ⟨.take _, some true⟩ => true
  | _ => false

/-- Serve one call. -/
def serve (debouncer : Debouncer) : Call → Option Bool × Debouncer
  | .edit now => (none, debouncer.recordEdit now)
  | .poll now => (some (debouncer.shouldRun now), debouncer)
  | .take now => (some (debouncer.takeReady now).1, (debouncer.takeReady now).2)

/-- What happens when calls are served one after the other. -/
def history (debouncer : Debouncer) : List Call → List Event
  | [] => []
  | call :: others => ⟨call, (debouncer.serve call).1⟩ :: (debouncer.serve call).2.history others

/-- The debouncer behind some calls. -/
def after (debouncer : Debouncer) : List Call → Debouncer
  | [] => debouncer
  | call :: others => (debouncer.serve call).2.after others

/-- There was an edit at a position of the past, and it told the given time. -/
def EditedAt (past : List Event) (position time : Nat) : Prop :=
  ∃ event, past[position]? = some event ∧ event.call = .edit time

/-- There was a take at a position of the past, and it answered yes. -/
def TakenAt (past : List Event) (position : Nat) : Prop :=
  ∃ event, past[position]? = some event ∧ event.isTaken = true

/-- Some edit came after every take that answered yes. -/
def Waits (past : List Event) : Prop :=
  ∃ position, (∃ time, EditedAt past position time) ∧ ∀ taken, TakenAt past taken → taken < position

/-- The last edit of the past told the given time. -/
def LastEdited (past : List Event) (time : Nat) : Prop :=
  ∃ position, EditedAt past position time ∧
    ∀ other otherTime, EditedAt past other otherTime → other ≤ position

variable {past : List Event} {event : Event} {debouncer : Debouncer}

/-! ## One more event -/

/-- Something happened at a position of a past with one more event: it happened before, or it is
what the event is. -/
theorem exists_getElem?_concat {happened : Event → Prop} {position : Nat} :
    (∃ found, (past ++ [event])[position]? = some found ∧ happened found) ↔
      (∃ found, past[position]? = some found ∧ happened found) ∨
        position = past.length ∧ happened event := by
  rcases Nat.lt_trichotomy position past.length with inPast | isLast | behind
  · simp [List.getElem?_append_left inPast, Nat.ne_of_lt inPast]
  · simp [isLast]
  · have nothing : (past ++ [event])[position]? = none := by
      rw [List.getElem?_eq_none_iff, List.length_append]
      exact behind
    have nothingBefore : past[position]? = none :=
      List.getElem?_eq_none (Nat.le_of_lt behind)
    simp [nothing, nothingBefore, Nat.ne_of_gt behind]

/-- The positions of a past end before its length. -/
theorem EditedAt.lt_length {position time : Nat} (edited : EditedAt past position time) :
    position < past.length := by
  obtain ⟨found, isFound, _⟩ := edited
  exact (List.getElem?_eq_some_iff.mp isFound).1

theorem TakenAt.lt_length {position : Nat} (taken : TakenAt past position) :
    position < past.length := by
  obtain ⟨found, isFound, _⟩ := taken
  exact (List.getElem?_eq_some_iff.mp isFound).1

/-- An edit is not a take. -/
theorem isTaken_of_edit {time : Nat} (edits : event.call = .edit time) : event.isTaken = false := by
  obtain ⟨call, answer⟩ := event
  cases edits
  rfl

/-- An edit waits after one more event if the event is an edit, or if an edit waited before and the
event is not a take that answered yes. -/
theorem waits_concat : Waits (past ++ [event]) ↔
    (∃ time, event.call = .edit time) ∨ Waits past ∧ event.isTaken = false := by
  constructor
  · rintro ⟨position, ⟨time, edited⟩, behindTakes⟩
    rcases exists_getElem?_concat.mp edited with inPast | ⟨_, isEdit⟩
    · -- the edit stands before the event, so the event cannot be a take that answered yes
      refine .inr ⟨⟨position, ⟨time, inPast⟩, ?_⟩, ?_⟩
      · intro taken isTaken
        exact behindTakes taken (exists_getElem?_concat.mpr (.inl isTaken))
      · by_contra notFalse
        have taken : event.isTaken = true := by simpa using notFalse
        have before := behindTakes past.length (exists_getElem?_concat.mpr (.inr ⟨rfl, taken⟩))
        exact absurd (EditedAt.lt_length inPast) (Nat.lt_asymm before)
    · exact .inl ⟨time, isEdit⟩
  · rintro (⟨time, isEdit⟩ | ⟨⟨position, ⟨time, edited⟩, behindTakes⟩, notTaken⟩)
    · refine ⟨past.length, ⟨time, exists_getElem?_concat.mpr (.inr ⟨rfl, isEdit⟩)⟩, ?_⟩
      intro taken isTaken
      rcases exists_getElem?_concat.mp isTaken with inPast | ⟨_, takes⟩
      · exact TakenAt.lt_length inPast
      · rw [isTaken_of_edit isEdit] at takes
        cases takes
    · refine ⟨position, ⟨time, exists_getElem?_concat.mpr (.inl edited)⟩, ?_⟩
      intro taken isTaken
      rcases exists_getElem?_concat.mp isTaken with inPast | ⟨_, takes⟩
      · exact behindTakes taken inPast
      · rw [notTaken] at takes
        cases takes

/-- The last edit after one more event is that event, if it is an edit, and the one before
otherwise. -/
theorem lastEdited_concat {time : Nat} : LastEdited (past ++ [event]) time ↔
    event.call = .edit time ∨ LastEdited past time ∧ ∀ other, event.call ≠ .edit other := by
  constructor
  · rintro ⟨position, edited, isLast⟩
    rcases exists_getElem?_concat.mp edited with inPast | ⟨_, isEdit⟩
    · refine .inr ⟨⟨position, inPast, ?_⟩, ?_⟩
      · intro other otherTime otherEdited
        exact isLast other otherTime (exists_getElem?_concat.mpr (.inl otherEdited))
      · intro otherTime isEdit
        have later := isLast past.length otherTime (exists_getElem?_concat.mpr (.inr ⟨rfl, isEdit⟩))
        exact absurd (EditedAt.lt_length inPast) (Nat.not_lt.mpr later)
    · exact .inl isEdit
  · rintro (isEdit | ⟨⟨position, edited, isLast⟩, notEdit⟩)
    · refine ⟨past.length, exists_getElem?_concat.mpr (.inr ⟨rfl, isEdit⟩), ?_⟩
      intro other otherTime otherEdited
      rcases exists_getElem?_concat.mp otherEdited with inPast | ⟨atEnd, _⟩
      · exact Nat.le_of_lt (EditedAt.lt_length inPast)
      · exact Nat.le_of_eq atEnd
    · refine ⟨position, exists_getElem?_concat.mpr (.inl edited), ?_⟩
      intro other otherTime otherEdited
      rcases exists_getElem?_concat.mp otherEdited with inPast | ⟨_, isEdit⟩
      · exact isLast other otherTime inPast
      · exact absurd isEdit (notEdit otherTime)

/-! ## The debouncer follows its past -/

/-- What a debouncer with the given interval holds after some events: the time of the last edit, if
an edit waits. -/
structure Follows (interval : Nat) (past : List Event) (debouncer : Debouncer) : Prop where
  interval_eq : debouncer.interval = interval
  lastEdit_iff : ∀ time, debouncer.lastEdit = some time ↔ Waits past ∧ LastEdited past time

variable {interval : Nat}

/-- A new debouncer has no past. -/
theorem follows_nil (interval : Nat) : Follows interval [] { interval } where
  interval_eq := rfl
  lastEdit_iff := by
    intro time
    constructor
    · intro impossible
      cases impossible
    · rintro ⟨_, position, edited, _⟩
      exact absurd (EditedAt.lt_length edited) (Nat.not_lt_zero position)

/-- Whether it is time to deal with an edit depends on the past alone. -/
theorem Follows.shouldRun_iff (follows : Follows interval past debouncer) (now : Nat) :
    debouncer.shouldRun now = true ↔
      Waits past ∧ ∃ time, LastEdited past time ∧ (interval : Int) ≤ max 0 ((now : Int) - time) := by
  have enough (time : Nat) :
      (interval : Int) ≤ max 0 ((now : Int) - time) ↔ interval ≤ now - time := by omega
  simp only [shouldRun, Option.any_eq_true, decide_eq_true_eq, follows.interval_eq,
    follows.lastEdit_iff, enough]
  constructor
  · rintro ⟨time, ⟨waits, last⟩, ready⟩
    exact ⟨waits, time, last, ready⟩
  · rintro ⟨waits, time, last, ready⟩
    exact ⟨time, ⟨waits, last⟩, ready⟩

/-- The step law: a debouncer that follows its past goes on to do so. -/
theorem Follows.serve (follows : Follows interval past debouncer) (call : Call) :
    Follows interval (past ++ [⟨call, (debouncer.serve call).1⟩]) (debouncer.serve call).2 := by
  have unchanged {answer : Option Bool} {next : Call} (notEdit : ∀ time, next ≠ .edit time)
      (notTaken : Event.isTaken ⟨next, answer⟩ = false) :
      Follows interval (past ++ [⟨next, answer⟩]) debouncer := by
    refine ⟨follows.interval_eq, fun time => ?_⟩
    rw [follows.lastEdit_iff, waits_concat, lastEdited_concat]
    simp [notEdit, notTaken]
  cases call with
  | edit now =>
    refine ⟨follows.interval_eq, fun time => ?_⟩
    rw [waits_concat, lastEdited_concat]
    simp [Debouncer.serve, recordEdit]
  | poll now => exact unchanged (by simp) rfl
  | take now =>
    by_cases ready : debouncer.shouldRun now = true
    · -- nothing waits any more, whatever the last edit was
      refine ⟨?_, fun time => ?_⟩
      · simp [Debouncer.serve, takeReady, ready, follows.interval_eq]
      · rw [waits_concat]
        simp [Debouncer.serve, takeReady, ready, Event.isTaken]
    · have served : debouncer.serve (.take now) = (some false, debouncer) := by
        simp [Debouncer.serve, takeReady, ready]
      rw [served]
      exact unchanged (by simp) rfl

/-- A history ends with what happens last. -/
theorem history_append (debouncer : Debouncer) (first second : List Call) :
    debouncer.history (first ++ second) =
      debouncer.history first ++ (debouncer.after first).history second := by
  induction first generalizing debouncer with
  | nil => rfl
  | cons call others inductionHypothesis =>
    simp only [List.cons_append, history, after, inductionHypothesis]

/-- The run law: a new debouncer follows its history, whatever it is asked. -/
theorem follows_history (interval : Nat) (calls : List Call) :
    Follows interval (history { interval } calls) (after { interval } calls) := by
  have general (past : List Event) (debouncer : Debouncer)
      (follows : Follows interval past debouncer) :
      Follows interval (past ++ debouncer.history calls) (debouncer.after calls) := by
    induction calls generalizing past debouncer with
    | nil => simpa [history, after] using follows
    | cons call others inductionHypothesis =>
      have onward := inductionHypothesis _ _ (follows.serve call)
      simpa [history, after] using onward
  exact general [] { interval } (follows_nil interval)

/-- Every call has its event, in order. -/
theorem map_call_history (debouncer : Debouncer) (calls : List Call) :
    (debouncer.history calls).map (·.call) = calls := by
  induction calls generalizing debouncer with
  | nil => rfl
  | cons call others inductionHypothesis => simp [history, inductionHypothesis]

theorem length_history (debouncer : Debouncer) (calls : List Call) :
    (debouncer.history calls).length = calls.length := by
  have events := congrArg List.length (map_call_history debouncer calls)
  rwa [List.length_map] at events

/-- The event at a position of a history: its answer is that of a debouncer that follows the events
before it. -/
theorem exists_follows_of_getElem? {calls : List Call} {position : Nat} {event : Event}
    (found : (history { interval } calls)[position]? = some event) :
    ∃ debouncer, Follows interval ((history { interval } calls).take position) debouncer ∧
      event.answer = (debouncer.serve event.call).1 := by
  have within : position < calls.length := by
    rw [← length_history { interval } calls]
    exact (List.getElem?_eq_some_iff.mp found).1
  have split : calls.take position ++ calls[position] :: calls.drop (position + 1) = calls := by
    rw [← List.drop_eq_getElem_cons within, List.take_append_drop]
  have whole := history_append { interval } (calls.take position)
    (calls[position] :: calls.drop (position + 1))
  have frontLength : (history { interval } (calls.take position)).length = position := by
    rw [length_history, List.length_take_of_le (Nat.le_of_lt within)]
  rw [split, history] at whole
  refine ⟨after { interval } (calls.take position), ?_, ?_⟩
  · rw [whole, List.take_left' frontLength]
    exact follows_history interval (calls.take position)
  · rw [whole, List.getElem?_append_right (Nat.le_of_eq frontLength), frontLength,
      Nat.sub_self, List.getElem?_cons_zero, Option.some.injEq] at found
    rw [← found]

/-! ## Polls and takes -/

/-- A poll leaves no trace but its own event. -/
theorem history_eraseIdx (debouncer : Debouncer) {calls : List Call} {position now : Nat}
    (polled : calls[position]? = some (.poll now)) :
    debouncer.history (calls.eraseIdx position) =
      (debouncer.history calls).eraseIdx position := by
  induction calls generalizing debouncer position with
  | nil => cases polled
  | cons call others inductionHypothesis =>
    cases position with
    | zero =>
      cases polled
      rfl
    | succ position =>
      have inOthers : others[position]? = some (.poll now) := polled
      simp only [List.eraseIdx_cons_succ, history, inductionHypothesis _ inOthers]

/-- The number of edits that a debouncer holds. -/
def held (debouncer : Debouncer) : Nat := debouncer.lastEdit.toList.length

/-- Every take that answers yes uses up an edit: one of the calls, or the one that was held at the
beginning. -/
theorem countP_isTaken_le (debouncer : Debouncer) (calls : List Call) :
    (debouncer.history calls).countP Event.isTaken ≤ calls.countP Call.isEdit + debouncer.held := by
  induction calls generalizing debouncer with
  | nil => exact Nat.zero_le _
  | cons call others inductionHypothesis =>
    have onward := inductionHypothesis (debouncer.serve call).2
    have step : (if Event.isTaken ⟨call, (debouncer.serve call).1⟩ then 1 else 0) +
        (debouncer.serve call).2.held ≤ (if call.isEdit then 1 else 0) + debouncer.held := by
      cases call with
      | edit now => simp [serve, recordEdit, held, Event.isTaken, Call.isEdit]
      | poll now => simp [serve, Event.isTaken]
      | take now =>
        by_cases ready : debouncer.shouldRun now = true
        · cases isHeld : debouncer.lastEdit with
          | none => simp [shouldRun, isHeld] at ready
          | some time => simp [serve, takeReady, ready, held, isHeld, Event.isTaken]
        · simp [serve, takeReady, ready, Event.isTaken]
    rw [history, List.countP_cons, List.countP_cons]
    omega

/-- What can be said about the answers of a debouncer that is asked things one after the other. -/
structure Debounces (interval : Nat) (calls : List Call) : Prop where
  /-- The events of the history are the calls, in order. -/
  calls_eq : (history { interval } calls).map (·.call) = calls
  /-- Every poll and every take is answered. The answer is yes exactly if some edit came after every
  take before it that answered yes, and the time since the last edit, which is none if the clock
  went back behind it, is at least the interval. -/
  ready_iff : ∀ (position now : Nat) (event : Event),
    (history { interval } calls)[position]? = some event →
    event.call = .poll now ∨ event.call = .take now →
      event.answer.isSome ∧ (event.answer = some true ↔
        Waits ((history { interval } calls).take position) ∧
          ∃ time, LastEdited ((history { interval } calls).take position) time ∧
            (interval : Int) ≤ max 0 ((now : Int) - time))
  /-- Leaving out a poll changes nothing else. -/
  polls_inert : ∀ position now, calls[position]? = some (.poll now) →
    history { interval } (calls.eraseIdx position) =
      (history { interval } calls).eraseIdx position
  /-- There are no more takes that answer yes than edits. -/
  taken_le_edits :
    (history { interval } calls).countP Event.isTaken ≤ calls.countP Call.isEdit

/-- Every debouncer answers by its history. -/
theorem debounces (interval : Nat) (calls : List Call) : Debounces interval calls where
  calls_eq := map_call_history { interval } calls
  ready_iff := by
    intro position now event found asked
    obtain ⟨debouncer, follows, answered⟩ := exists_follows_of_getElem? found
    have shown : event.answer = some (debouncer.shouldRun now) := by
      rcases asked with isPoll | isTake
      · rw [answered, isPoll, serve]
      · rw [answered, isTake, serve, takeReady]
        split <;> simp_all
    rw [shown, Option.some.injEq, follows.shouldRun_iff now]
    exact ⟨rfl, Iff.rfl⟩
  polls_inert := by
    intro position now polled
    exact history_eraseIdx { interval } polled
  taken_le_edits := countP_isTaken_le { interval } calls

/-- A second edit makes the wait begin anew, and a clock that goes back makes no pause. -/
example : (history { interval := 300 } [.edit 0, .edit 200, .poll 400, .take 500, .take 900,
    .edit 900, .take 100]).map (·.answer) =
      [none, none, some false, some true, some false, none, some false] := by decide

end QueryScope.Debouncer
