import Recast.Decimal.Layout

set_option autoImplicit false

/-!
# Counters and notices

What a pipeline counts, and what it reports while it works.
-/

namespace Recast

/-- Counters of a pipeline. Several engines may share them. -/
structure Metrics where
  received : Nat
  emitted : Nat
  dropped : Nat
  unknownPlaceholders : Nat
  invalidInput : Nat
deriving Repr, DecidableEq

def Metrics.zero : Metrics :=
  ⟨0, 0, 0, 0, 0⟩

def Metrics.summary (metrics : Metrics) : String :=
  let number (count : Nat) : String := String.ofList (Decimal.natText count)
  "received=" ++ number metrics.received ++ " emitted=" ++ number metrics.emitted ++
    " dropped=" ++ number metrics.dropped ++
    " unknown_placeholders=" ++ number metrics.unknownPlaceholders ++
    " invalid_input=" ++ number metrics.invalidInput

inductive Notice where
  | unknownPlaceholder (token tag : String)
  | droppedEvent (kind tag : String)
  | malformedLine (number : Nat)
  | failedWrite (tag : String)
deriving Repr, DecidableEq

end Recast
