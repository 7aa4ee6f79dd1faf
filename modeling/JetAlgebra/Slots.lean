import JetAlgebra.Fault

/-!
# Slots and derivation orders

The two maps between the slots of compiled rules and derivation orders, as callers use
them: orders may be any data that convert to integers, and one list stands for its
members.  Texts are read up to `maxDigits` digits.
-/

namespace JetAlgebra

variable (maxDigits : Option Nat)

/-- The integers that data convert to. -/
def Datum.toInts? : List Datum → Except ConversionFault (List Int)
  | [] => .ok []
  | d :: ds => do return (← d.toInt? maxDigits) :: (← toInts? ds)

/-- The derivation orders of a `(p, o)` jet that data convert to. -/
def ordersOf (data : List Datum) (p o : Int) : Except Fault (List Int) := do
  let ns ← (Datum.toInts? maxDigits data).mapError .conversion
  (validateOrders ns p o).mapError .orders

/-- The derivation orders that a datum is made of. -/
def ordersOfDatum (datum : Datum) (p o : Int) : Except Fault (List Int) :=
  match datum.items? with
  | some data => ordersOf maxDigits data p o
  | none => .error (.conversion .notNumeric)

namespace Rules

/-- **The slot of derivation orders.** -/
def slotOf? (r : Rules) (orders : Datum) : Except Fault Nat := do
  let data ← match orders.items? with
    | some [.list items] => pure items
    | some data => pure data
    | none => throw (.conversion .notNumeric)
  let ns ← ordersOf maxDigits data r.tables.parameters r.tables.order
  (r.tables.sizes.locate? r.tables.parameters r.tables.order ns).mapError .orders

/-- **The derivation orders of a slot.** -/
def ordersAt? (r : Rules) (index : Datum) : Except Fault Orders :=
  match index.asInt? with
  | some i =>
    if i < 0 then .error (.negativeSlot index)
    else match r.tables.derivatives[i.toNat]? with
      | some orders => .ok orders
      | none => .error .missingSlot
  | none =>
    match index with
    | .float x => .error (if x < 0.0 then .negativeSlot index else .slotKind)
    | _ => .error .slotKind

end Rules

end JetAlgebra
