import QueryScope.Text.Checked

/-!
# Buffers

A scan walks over a text byte by byte. For that the bytes are laid out as a buffer, which is read
by offset. A read takes bytes and not characters: unlike a cut it may begin and end inside a
character, and it is sound as long as it stays inside the buffer. Every loop that reads has a guard
of its own, and nothing but the guard keeps it from reading past the end.
-/

namespace QueryScope

/-- The bytes of a text, to be read by offset. -/
abbrev Buffer := Array UInt8

/-- The buffer that holds some bytes. -/
def Bytes.buffer (bytes : Bytes) : Buffer := bytes.toArray

namespace Buffer

/-- The byte at `offset`. Past the end there is none: such a read is not sound, and zero, which is
in no class of bytes, takes the place of the byte. -/
def read (buffer : Buffer) (offset : Nat) : Checked UInt8 :=
  ⟨buffer.getD offset 0, decide (offset < buffer.size)⟩

/-- The bytes that `span` covers. -/
def slice (buffer : Buffer) (span : Span) : Checked Bytes :=
  ⟨(buffer.extract span.start span.stop).toList,
    decide (span.start ≤ span.stop) && decide (span.stop ≤ buffer.size)⟩

/-- The offset behind the bytes from `offset` on that pass the test, `stop` at the furthest. -/
def advance (test : UInt8 → Bool) (buffer : Buffer) (offset stop : Nat) : Checked Nat :=
  if offset < stop then do
    let byte ← buffer.read offset
    if test byte then advance test buffer (offset + 1) stop else return offset
  else
    return offset
termination_by stop - offset

/-- The offset in front of the bytes before `offset` that pass the test, `start` at the furthest. -/
def retreat (test : UInt8 → Bool) (buffer : Buffer) (start offset : Nat) : Checked Nat :=
  if start < offset then do
    let byte ← buffer.read (offset - 1)
    if test byte then retreat test buffer start (offset - 1) else return offset
  else
    return offset
termination_by offset

/-- Walking forward never leads back. -/
theorem le_advance (test : UInt8 → Bool) (buffer : Buffer) (offset stop : Nat) :
    offset ≤ (advance test buffer offset stop).value := by
  fun_induction advance test buffer offset stop with
  | case1 offset before inductionHypothesis =>
    rw [Checked.value_bind]
    split
    · exact Nat.le_of_succ_le inductionHypothesis
    · exact Nat.le_refl offset
  | case2 offset behind => exact Nat.le_refl offset

/-- Walking back never leads forward. -/
theorem retreat_le (test : UInt8 → Bool) (buffer : Buffer) (start offset : Nat) :
    (retreat test buffer start offset).value ≤ offset := by
  fun_induction retreat test buffer start offset with
  | case1 offset behind inductionHypothesis =>
    rw [Checked.value_bind]
    split
    · exact Nat.le_trans inductionHypothesis (Nat.sub_le offset 1)
    · exact Nat.le_refl offset
  | case2 offset before => exact Nat.le_refl offset

end Buffer

namespace Bytes

/-- The span without the blanks at its two ends. A span that holds an offset past the end of the
text cannot be trimmed soundly; one that holds none is left as it is. -/
def trim (bytes : Bytes) (span : Span) : Checked Span := do
  let buffer := bytes.buffer
  let start ← buffer.advance Byte.isBlank span.start span.stop
  let stop ← buffer.retreat Byte.isBlank start span.stop
  return ⟨start, stop⟩

/-- A trimmed span begins no earlier and ends no later. -/
theorem trim_inside (bytes : Bytes) (span : Span) :
    span.start ≤ (trim bytes span).value.start ∧ (trim bytes span).value.stop ≤ span.stop :=
  ⟨Buffer.le_advance .., Buffer.retreat_le ..⟩

end Bytes

end QueryScope
