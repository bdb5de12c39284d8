/-!
# Spans

A span is a half-open range of byte offsets. Spans are plain data: nothing forces the start
to come first, because a span may be handed in from outside, and then it simply holds no
offset.
-/

namespace QueryScope

/-- The offsets from `start` up to, but not including, `stop`. -/
structure Span where
  start : Nat
  stop : Nat
deriving DecidableEq, Repr, Inhabited

namespace Span

/-- The empty span at the beginning of a text. It stands for a part that is absent. -/
def absent : Span := ⟨0, 0⟩

/-- The number of offsets in the span; a span whose ends are swapped has none. -/
def length (span : Span) : Nat := span.stop - span.start

/-- Whether the span holds no offset. -/
def isEmpty (span : Span) : Bool := span.length == 0

/-- Whether `offset` is one of the span's offsets. -/
def contains (span : Span) (offset : Nat) : Bool :=
  decide (span.start ≤ offset) && decide (offset < span.stop)

/-- Whether `offset` lies between the two ends and on neither of them. -/
def strictlyContains (span : Span) (offset : Nat) : Bool :=
  decide (span.start < offset) && decide (offset < span.stop)

/-- Whether every offset of `inner` also belongs to the span. -/
def encloses (span inner : Span) : Bool :=
  decide (span.start ≤ inner.start) && decide (inner.stop ≤ span.stop)

/-- The span moved to the right by `distance`. -/
def shift (span : Span) (distance : Nat) : Span :=
  ⟨span.start + distance, span.stop + distance⟩

end Span

end QueryScope
