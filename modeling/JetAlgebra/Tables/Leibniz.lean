import JetAlgebra.Tables.Weighted

/-!
# The product table

Row `i` of the product table lists the terms `c * u[l] * v[r]` whose sum is slot
`i` of the product of two jets `u` and `v`.  The value part has the rows of one
parameter less; a row of the derivative part is the row of one order less,
differentiated once along the last parameter: `d(u v) = du v + u dv`.
-/

namespace JetAlgebra

/-- The slots that a term of a product multiplies, one of each factor. -/
structure SlotPair where
  left : Nat
  right : Nat
  deriving DecidableEq, Repr

/-- A term `c * u[l] * v[r]`. -/
abbrev ProductTerm := Weighted SlotPair

namespace ProductTerm

/-- The derivative of a term along the last parameter.  `lower` gives the slot of
an undifferentiated factor, and a differentiated one sits `shift` slots further. -/
def differentiate (lower : List Nat) (shift : Nat) (t : ProductTerm) : List ProductTerm :=
  [⟨t.coefficient, lower.getD t.key.left 0, shift + t.key.right⟩,
   ⟨t.coefficient, shift + t.key.left, lower.getD t.key.right 0⟩]

/-- The table of a jet that is a single slot. -/
def unitRows : List (List ProductTerm) := [[⟨1, 0, 0⟩]]

/-- The table from those of the value part and of the derivative part. -/
def joinRows (lower : List Nat) (value derivative : List (List ProductTerm)) :
    List (List ProductTerm) :=
  value ++ derivative.map fun row =>
    Weighted.combine (row.flatMap (differentiate lower value.length))

end ProductTerm

end JetAlgebra
