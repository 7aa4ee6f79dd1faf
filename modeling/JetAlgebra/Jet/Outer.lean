import JetAlgebra.Jet.Basic

/-!
# Derivatives of elementary functions

For a function and a number `x`, the list of the function's value and its derivatives
at `x` up to an order, which `Jet.compose` takes.  The exponential repeats, the
logarithms have the powers of the reciprocal with factorials and alternating signs,
and the circular and hyperbolic functions repeat after two steps, up to a sign.
-/

namespace JetAlgebra.Outer
open Arithmetic
variable {E : Type} [Arithmetic E]

/-- The constant one of a recipe. -/
def one : E := ofFloat 1.0

/-- The exponential is its own derivative. -/
def exp (x : E) (order : Nat) : Except ArithmeticFault (List E) := do
  return List.replicate (order + 1) (← apply .exp x)

/-- The exponential less one. -/
def expm1 (x : E) (order : Nat) : Except ArithmeticFault (List E) := do
  let e ← apply .exp x
  return (← apply .expm1 x) :: List.replicate order e

/-- `n` derivatives of a logarithm from the one of order `i` on, which is `xk`: each is
the last one times `-i` and the reciprocal. -/
def logChain (inverse : E) : (i n : Nat) → (xk : E) → Except ArithmeticFault (List E)
  | _, 0, _ => .ok []
  | i, n + 1, xk => do
    let next ← mul xk (← mul inverse (ofInt (-(i : Int))))
    return xk :: (← logChain inverse (i + 1) n next)

/-- A logarithm with the given value; `inverse` is the reciprocal of its argument, and
`first` its first derivative. -/
def logarithm (f : Elementary) (inverse : E → Except ArithmeticFault E)
    (first : E → Except ArithmeticFault E) (x : E) (order : Nat) :
    Except ArithmeticFault (List E) := do
  let v ← apply f x
  if order = 0 then return [v]
  let r ← inverse x
  return v :: (← logChain r 1 order (← first r))

/-- The natural logarithm. -/
def log : E → Nat → Except ArithmeticFault (List E) :=
  logarithm .log (fun x => div one x) pure

/-- The natural logarithm of one more. -/
def log1p : E → Nat → Except ArithmeticFault (List E) :=
  logarithm .log1p (fun x => do div one (← add x one)) pure

/-- The double nearest to the natural logarithm of ten. -/
def logTen : E := computed 2.302585092994046

/-- The logarithm to base ten. -/
def log10 : E → Nat → Except ArithmeticFault (List E) :=
  logarithm .log10 (fun x => div one x) (fun r => div r logTen)

/-- `n` entries of a list that starts with two given ones and repeats after two steps,
with the sign changed if `alternating`. -/
def cycle (alternating : Bool) : (n : Nat) → (first second : E) → Except ArithmeticFault (List E)
  | 0, _, _ => .ok []
  | n + 1, a, b => do
    let next ← if alternating then neg a else pure a
    return a :: (← cycle alternating n b next)

/-- The sine. -/
def sin (x : E) (order : Nat) : Except ArithmeticFault (List E) := do
  cycle true (order + 1) (← apply .sin x) (← apply .cos x)

/-- The cosine. -/
def cos (x : E) (order : Nat) : Except ArithmeticFault (List E) := do
  cycle true (order + 1) (← apply .cos x) (← neg (← apply .sin x))

/-- The hyperbolic sine. -/
def sinh (x : E) (order : Nat) : Except ArithmeticFault (List E) := do
  cycle false (order + 1) (← apply .sinh x) (← apply .cosh x)

/-- The hyperbolic cosine. -/
def cosh (x : E) (order : Nat) : Except ArithmeticFault (List E) := do
  cycle false (order + 1) (← apply .cosh x) (← apply .sinh x)

end JetAlgebra.Outer
