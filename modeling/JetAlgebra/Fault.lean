import JetAlgebra.Layout.Locate
import JetAlgebra.Operation
import JetAlgebra.Registry
import JetAlgebra.TermLimit

/-!
# Everything that can go wrong

One type for the faults of all parts of the library, for callers that use several of
them, and the text of each.  A fault without a text comes from a number or a datum
that cannot be computed with, and not from a rule of this library.
-/

namespace JetAlgebra

/-- A fault of any part of the library. -/
inductive Fault where
  | signature (fault : SignatureFault)
  | compatibility (fault : CompatibilityFault)
  | orders (fault : OrdersFault)
  | build (fault : BuildFault)
  | kernel (fault : KernelFault)
  | limit (fault : LimitFault)
  | conversion (fault : ConversionFault)
  | operation (fault : OperationFault)
  /-- Slots are counted from zero. -/
  | negativeSlot (index : Datum)
  /-- A slot is counted with an integer. -/
  | slotKind
  /-- A jet has no slot of this number. -/
  | missingSlot
  /-- A buffer cannot have a negative number of slots. -/
  | negativeSize

namespace OrdersFault

/-- What is said about the fault. -/
def message? : OrdersFault → Option String
  | .wrongCount expected got => some s!"expected {expected} derivation orders; got {got}."
  | .negative orders =>
    some s!"derivation orders must be non-negative; got {Datum.tupleLiteral orders}."
  | .sumExceeds orders order =>
    some (s!"derivation orders {Datum.tupleLiteral orders} sum to {orderSum orders}, " ++
      s!"more than the order {order}.")
  | .exceeds orders order =>
    some s!"derivation orders {Datum.tupleLiteral orders} exceed the order {order}."
  | .outOfRange => none

end OrdersFault

namespace Fault

/-- A fault of a lookup. -/
def ofLookup : LookupFault → Fault
  | .signature fault => .signature fault
  | .build fault => .build fault

/-- What is said about the fault, if it comes from a rule of this library. -/
def message? : Fault → Option String
  | .signature fault => some fault.message
  | .compatibility fault => some fault.message
  | .orders fault => fault.message?
  | .build fault => some fault.message
  | .limit fault => fault.message?
  | .operation fault => fault.message?
  | .negativeSlot index => some s!"slot index must be non-negative; got {index.literal}."
  | .kernel _ | .conversion _ | .slotKind | .missingSlot | .negativeSize => none

end Fault

end JetAlgebra
