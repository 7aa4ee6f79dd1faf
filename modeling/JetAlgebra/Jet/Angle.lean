import JetAlgebra.Jet.Power
import JetAlgebra.Jet.Recurrence

/-!
# The angle of a point

With `r` the distance from the origin, the angle of `(x, y)` is `2 atan (y / (r + x))`
on the right and `± pi - 2 atan (y / (r - x))` on the left, so no denominator vanishes
away from the origin.  The jets in between are kept in storage like that of the
abscissa.
-/

namespace JetAlgebra.Jet
open Arithmetic
variable {E : Type} [Arithmetic E]

/-- The quotient of two jets, by way of the reciprocal of the second one. -/
def divide (k : Calculus) (s : Storage E) (a b : Jet E) : Except ArithmeticFault (Jet E) := do
  let r ← stored s (reciprocal k s b)
  mul k a r

/-- The distance of a point from the origin. -/
def distance (k : Calculus) (s : Storage E) (y x : Jet E) : Except ArithmeticFault (Jet E) := do
  let x2 ← stored s (mul k x x)
  let y2 ← stored s (mul k y y)
  let sum ← stored s (add x2 y2)
  stored s (through k s sum (Outer.root .square (ofInt 2)))

/-- The angle to the right of the origin: twice the arc tangent. -/
def doubled (a : Jet E) : Except ArithmeticFault (Jet E) :=
  a.mapM fun v => Arithmetic.mul v (ofInt 2)

/-- The angle to the left of the origin: half a turn, with the sign that the arc tangent
decides, less twice the arc tangent. -/
def reflected (s : Storage E) (a : Jet E) : Except ArithmeticFault (Jet E) := do
  let v ← value s a
  let turn := if (← toFloat v) ≤ 0.0 then -Binary64.pi else Binary64.pi
  let derivatives ← a.tail.mapM fun w => Arithmetic.mul w (ofInt (-2))
  let v ← Arithmetic.add (← Arithmetic.mul v (ofInt (-2))) (ofFloat turn)
  return v :: derivatives

/-- **The angle of a point**, whose value is still the one of the formula. -/
def angle (k : Calculus) (s : Storage E) (y x : Jet E) : Except ArithmeticFault (Jet E) := do
  let r ← distance k s y x
  if (← toFloat (← slot x 0)) ≥ 0.0 then
    let far ← stored s (add r x)
    let t ← stored s (divide k s y far)
    doubled (← stored s (through k s t Outer.atan))
  else
    let far ← stored s (sub r x)
    let t ← stored s (divide k s y far)
    reflected s (← stored s (through k s t Outer.atan))

end JetAlgebra.Jet
