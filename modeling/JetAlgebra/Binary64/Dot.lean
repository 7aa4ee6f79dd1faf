import JetAlgebra.Binary64.Exact

/-!
# Dot products in twice the precision

A product and a sum of two doubles each leave a rounding error that is a double
itself, unless something overflows.  `twoProduct` and `twoSum` compute both parts, and
`dot` adds up the errors beside the rounded terms.  Where that overflows, the plain
sum of products is the answer.
-/

namespace JetAlgebra.Binary64

/-- The factor `2^27 + 1`, which splits a double into two halves. -/
def splitter : Float := 134217729.0

/-- The upper half of the significand of a double, and the rest. -/
def split (a : Float) : Float × Float :=
  let c := splitter * a
  let high := c - (c - a)
  (high, a - high)

/-- A rounded product and its error. -/
def twoProduct (a b : Float) : Float × Float :=
  let product := a * b
  let (aHigh, aLow) := split a
  let (bHigh, bLow) := split b
  (product, aLow * bLow - (((product - aHigh * bHigh) - aLow * bHigh) - aHigh * bLow))

/-- A rounded sum and its error. -/
def twoSum (a b : Float) : Float × Float :=
  let s := a + b
  let bb := s - a
  (s, (a - (s - bb)) + (b - bb))

/-- A dot product on its way: the rounded sum, the sum of the errors, and the plain sum. -/
structure DotState where
  total : Float
  correction : Float
  naive : Float

/-- Adds a product to a dot product. -/
def DotState.step (d : DotState) (a c : Float) : DotState :=
  let (product, productError) := twoProduct a c
  let (total, sumError) := twoSum d.total product
  ⟨total, d.correction + (productError + sumError), d.naive + a * c⟩

/-- The accurate sum if it is finite, and the plain one if it is not. -/
def DotState.result (d : DotState) : Float :=
  let accurate := d.total + d.correction
  if accurate.isFinite then accurate else d.naive

/-- The sum of products of doubles. -/
def dot : List (Float × Float) → Float
  | [] => 0.0
  | (a, c) :: rest =>
    let (total, correction) := twoProduct a c
    let start : DotState := ⟨total, correction, a * c⟩
    (rest.foldl (fun (d : DotState) t => d.step t.1 t.2) start).result

end JetAlgebra.Binary64
