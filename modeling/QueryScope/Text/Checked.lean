import QueryScope.Text.Span
import QueryScope.Text.Bytes

/-!
# Checked computations

A scan reads single bytes of a text by their offset, and offsets found in one text are used to cut
pieces out of another. A read is sound when it stays inside the text, and a cut when its span
lies inside the text and both ends fall between characters. A checked computation yields its
value whatever happens and remembers whether every read and every cut on the way was sound, so
that the value and the soundness of a computation can be reasoned about apart from each other.
-/

namespace QueryScope

/-- A value together with whether every read and every cut that led to it was sound. -/
structure Checked (α : Type) where
  value : α
  sound : Bool
deriving Repr

namespace Checked

variable {α β : Type}

@[always_inline]
instance : Monad Checked where
  pure value := ⟨value, true⟩
  bind computed next :=
    let rest := next computed.value
    ⟨rest.value, computed.sound && rest.sound⟩

@[simp] theorem value_pure (value : α) : (pure value : Checked α).value = value := rfl

@[simp] theorem sound_pure (value : α) : (pure value : Checked α).sound = true := rfl

@[simp] theorem value_bind (computed : Checked α) (next : α → Checked β) :
    (computed >>= next).value = (next computed.value).value := rfl

@[simp] theorem sound_bind (computed : Checked α) (next : α → Checked β) :
    (computed >>= next).sound = (computed.sound && (next computed.value).sound) := rfl

/-- Go on with a value and with the fact that it is the value that was computed. A loop that goes on
from what it has found needs the fact to show that it comes to an end. -/
@[inline]
def andThen (computed : Checked α) (next : (value : α) → value = computed.value → Checked β) :
    Checked β :=
  let rest := next computed.value rfl
  ⟨rest.value, computed.sound && rest.sound⟩

@[simp] theorem value_andThen (computed : Checked α)
    (next : (value : α) → value = computed.value → Checked β) :
    (computed.andThen next).value = (next computed.value rfl).value := rfl

@[simp] theorem sound_andThen (computed : Checked α)
    (next : (value : α) → value = computed.value → Checked β) :
    (computed.andThen next).sound = (computed.sound && (next computed.value rfl).sound) := rfl

/-- Compute for every element in turn. -/
def each (step : α → Checked β) : List α → Checked (List β)
  | [] => pure []
  | head :: tail => do
    let first ← step head
    let others ← each step tail
    return first :: others

@[simp] theorem value_each (step : α → Checked β) (elements : List α) :
    (each step elements).value = elements.map fun element => (step element).value := by
  induction elements with
  | nil => rfl
  | cons head tail inductionHypothesis => simp [each, inductionHypothesis]

@[simp] theorem sound_each (step : α → Checked β) (elements : List α) :
    (each step elements).sound = elements.all fun element => (step element).sound := by
  induction elements with
  | nil => rfl
  | cons head tail inductionHypothesis => simp [each, inductionHypothesis]

/-- Compute for every element in turn and keep the results that are there. -/
def eachSome (step : α → Checked (Option β)) (elements : List α) : Checked (List β) := do
  let results ← each step elements
  return results.filterMap id

@[simp] theorem value_eachSome (step : α → Checked (Option β)) (elements : List α) :
    (eachSome step elements).value = elements.filterMap fun element => (step element).value := by
  simp [eachSome, List.filterMap_map]

@[simp] theorem sound_eachSome (step : α → Checked (Option β)) (elements : List α) :
    (eachSome step elements).sound = elements.all fun element => (step element).sound := by
  simp [eachSome]

end Checked

namespace Bytes

/-- Whether cutting `span` out of the text is sound. -/
def admits (bytes : Bytes) (span : Span) : Bool :=
  decide (span.start ≤ span.stop) && decide (span.stop ≤ bytes.length)
    && isBoundary bytes span.start && isBoundary bytes span.stop

/-- The piece of the text that `span` covers. -/
def cut (bytes : Bytes) (span : Span) : Checked Bytes :=
  ⟨bytes.extract span.start span.stop, admits bytes span⟩

end Bytes

end QueryScope
