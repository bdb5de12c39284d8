/-!
# Debouncing

A debouncer decides when a pause in typing is long enough. The host tells it the time, which need
not run forward: a time before the last edit counts as no pause at all.
-/

namespace QueryScope

/-- The pause to wait for, and the time of the last edit that is still to be dealt with. -/
structure Debouncer where
  interval : Nat
  lastEdit : Option Nat := none
deriving DecidableEq, Repr

namespace Debouncer

/-- The text was edited at a time. -/
def recordEdit (debouncer : Debouncer) (now : Nat) : Debouncer :=
  { debouncer with lastEdit := some now }

/-- Whether an edit is to be dealt with and the pause since is long enough. -/
def shouldRun (debouncer : Debouncer) (now : Nat) : Bool :=
  debouncer.lastEdit.any fun edit => decide (debouncer.interval ≤ now - edit)

/-- Whether it is time to deal with an edit; if so, the edit is dealt with. -/
def takeReady (debouncer : Debouncer) (now : Nat) : Bool × Debouncer :=
  if debouncer.shouldRun now then (true, { debouncer with lastEdit := none })
  else (false, debouncer)

end Debouncer

end QueryScope
