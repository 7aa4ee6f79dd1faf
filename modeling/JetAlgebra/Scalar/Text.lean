import JetAlgebra.Scalar
import JetAlgebra.Binary64.Decimal

/-!
# Scalars in text

A rational is written in lowest terms, with the sign in front and without a
denominator of one.  A double has two forms: ten significant digits, or its bits.
-/

namespace JetAlgebra

/-- How doubles are written. -/
inductive FloatForm where
  | digits
  | bits
  deriving DecidableEq, Repr

namespace FloatForm

/-- A double in text. -/
def write : FloatForm → Float → String
  | .digits, x => Binary64.scientific 9 x
  | .bits, x => Binary64.bitText x

end FloatForm

namespace Exact

/-- A rational in text. -/
def write (q : Rat) : String :=
  if q.den = 1 then toString q.num else toString q.num ++ "/" ++ toString q.den

/-- The rational that a text writes: an integer, or two with a slash between them. -/
def read? (s : String) : Option Rat :=
  let cs := s.toList
  let above := cs.takeWhile (· != '/')
  match cs.drop above.length with
  | [] => (Binary64.readInt? cs).map fun n => (n : Rat)
  | _ :: below => do
    let n ← Binary64.readInt? above
    let d ← Binary64.readInt? below
    guard (d ≠ 0)
    return (n : Rat) / (d : Rat)

end Exact

namespace Scalar

/-- A scalar in text; an empty slot has none, and what is no real number is refused. -/
def write (form : FloatForm) : Scalar → Except ArithmeticFault (Option String)
  | .unset => .ok none
  | .int n => .ok (some (toString n))
  | .strict x | .lenient x | .real x => .ok (some (form.write x))
  | .rat q => .ok (some (Exact.write q))
  | .complex => .error .unsupported

end Scalar

end JetAlgebra
