import JetAlgebra.Jet.Outer

/-!
# Derivatives by polynomial recurrences

The derivatives of the tangents are polynomials in the function value, and those of
the inverse functions are polynomials in the argument times a power of one factor.
Each polynomial comes from the one before by a differential recurrence, and it has
only even or only odd powers.  So one list holds the coefficients of two consecutive
polynomials, interleaved by parity, and is updated in place: `sweep` goes down
through the powers of the new polynomial, takes each coefficient for Horner's rule
once it is final, and then overwrites the coefficient two below.
-/

namespace JetAlgebra.Outer
open Arithmetic
variable {E : Type} [Arithmetic E]

/-- A rule for the coefficients of consecutive polynomials: the new coefficient `k - 2`
of polynomial `n` is `above n k` times the old coefficient `k - 1` plus `below n k`
times the old coefficient `k - 3`. -/
structure Recurrence where
  /-- The new leading coefficient is this multiple of the old one. -/
  leading : Int → Int
  above : Int → Int → Int
  below : Int → Int → Int
  /-- Whether the new constant coefficient is the negative of the old coefficient of the
  first power, and not that coefficient itself. -/
  negated : Bool

/-- The new coefficient `k - 2` of polynomial `n`. -/
def Recurrence.lower (r : Recurrence) (n k : Int) (p : List E) : Except ArithmeticFault E := do
  add (← scale (r.above n k) (← slot p (k - 1))) (← scale (r.below n k) (← slot p (k - 3)))

/-- The new constant coefficient. -/
def Recurrence.constant (r : Recurrence) (p : List E) : Except ArithmeticFault E := do
  let c ← slot p 1
  if r.negated then neg c else return c

/-- One step of Horner's rule: the next coefficient is added to the value so far times
the square of the argument. -/
def horner (x2 v : E) (p : List E) (k : Nat) : Except ArithmeticFault E := do
  add (← mul v x2) (← slot p k)

/-- Evaluates polynomial `n` from power `k` down, by steps of two, and updates the
coefficients below.  `v` is the value so far. -/
def sweep (r : Recurrence) (n : Int) (x2 : E) : Nat → E → List E →
    Except ArithmeticFault (E × List E)
  | 0, v, p => do return (← horner x2 v p 0, p)
  | 1, v, p => do return (← horner x2 v p 1, p)
  | k + 2, v, p => do
    let v' ← horner x2 v p (k + 2)
    let c ← if k = 0 then r.constant p else r.lower n (k + 2) p
    sweep r n x2 k v' (p.set k c)

/-- The recurrence of the tangents, `P' * (1 + s * t^2)` for the sign `s`. -/
def tangentRecurrence (s : Int) : Recurrence where
  leading n := s * n
  above _ k := k - 1
  below _ k := s * (k - 3)
  negated := false

/-- `count` derivatives of a tangent with value `t`, from the one of order `n` on. -/
def tangentFrom (s : Int) (t t2 zero : E) : (count n : Nat) → List E →
    Except ArithmeticFault (List E)
  | 0, _, _ => .ok []
  | count + 1, n, p => do
    let r := tangentRecurrence s
    let top ← scale (r.leading n) (← slot p n)
    let (v, p) ← sweep r n t2 (n + 1) zero (p.set (n + 1) top)
    let d ← if n % 2 = 0 then mul v t else pure v
    return d :: (← tangentFrom s t t2 zero count (n + 1) p)

/-- **The tangent**, or for `s = -1` the hyperbolic tangent, whose value is `t`, and its
derivatives.  The derivative of order `n` is the polynomial `P n` at `t`, with `P 0` the
variable and `P n = (1 + s * X^2) * P' (n - 1)`. -/
def tangent (s : Int) (t : E) (order : Nat) : Except ArithmeticFault (List E) := do
  if order = 0 then return [t]
  let zero ← zeroLike t
  let p := (List.replicate (order + 2) (ofFloat 0.0)).set 1 one
  let t2 ← mul t t
  return t :: (← tangentFrom s t t2 zero order 1 p)

/-- `count` derivatives of an inverse function, from the one of order `n` on.  `coeff` is
the scale of the derivative before and `f` the ratio of two scales. -/
def inverseFrom (r : Recurrence) (x x2 zero f : E) : (count n : Nat) → (coeff : E) → List E →
    Except ArithmeticFault (List E)
  | 0, _, _, _ => .ok []
  | count + 1, n, coeff, p => do
    let top ← scale (r.leading n) (← slot p ((n : Int) - 2))
    let (v, p) ← sweep r n x2 (n - 1) zero (p.set (n - 1) top)
    let v ← if n % 2 = 0 then mul v x else pure v
    let coeff ← mul coeff f
    return (← mul coeff v) :: (← inverseFrom r x x2 zero f count (n + 1) coeff p)

/-- **An inverse function** with the given value at `x`, and its derivatives.  The
derivative of order `n` is `coeff * f^(n - 1) * P n`, for the polynomials `P` of the
recurrence that start with the constant `first`. -/
def inverseFunction (r : Recurrence) (first : Float) (x value : E) (order : Nat) (coeff f : E) :
    Except ArithmeticFault (List E) := do
  if order = 0 then return [value]
  let zero ← zeroLike x
  let p := (List.replicate order (ofFloat 0.0)).set 0 (ofFloat first)
  let x2 ← mul x x
  let d ← mul coeff (← slot p 0)
  return value :: d :: (← inverseFrom r x x2 zero f (order - 1) 2 coeff p)

/-- `P n = (1 - X^2) * P' (n - 1) + (2 * n - 3) * X * P (n - 1)`. -/
def arcsineRecurrence : Recurrence where
  leading n := n - 1
  above _ k := k - 1
  below n k := 2 * n - k
  negated := false

/-- `P n = (1 + X^2) * P' (n - 1) - 2 * (n - 1) * X * P (n - 1)`. -/
def arctangentRecurrence : Recurrence where
  leading n := -n
  above _ k := k - 1
  below n k := k - 1 - 2 * n
  negated := false

/-- `P n = (X^2 + 1) * P' (n - 1) - (2 * n - 3) * X * P (n - 1)`. -/
def areaSineRecurrence : Recurrence where
  leading n := 1 - n
  above _ k := k - 1
  below n k := k - 2 * n
  negated := false

/-- `P n = (X^2 - 1) * P' (n - 1) - (2 * n - 3) * X * P (n - 1)`. -/
def areaCosineRecurrence : Recurrence where
  leading n := 1 - n
  above _ k := 1 - k
  below n k := k - 2 * n
  negated := true

/-- `P n = (1 - X^2) * P' (n - 1) + 2 * (n - 1) * X * P (n - 1)`. -/
def areaTangentRecurrence : Recurrence where
  leading n := n
  above _ k := k - 1
  below n k := 2 * n - k + 1
  negated := false

/-- `1 / (1 - x^2)`. -/
def overOneMinusSquare (x : E) : Except ArithmeticFault E := do
  div one (← sub (ofInt 1) (← mul x x))

/-- `1 / (x^2 + 1)`. -/
def overSquarePlusOne (x : E) : Except ArithmeticFault E := do
  div one (← add (← mul x x) (ofInt 1))

/-- `1 / (x^2 - 1)`. -/
def overSquareMinusOne (x : E) : Except ArithmeticFault E := do
  div one (← sub (← mul x x) (ofInt 1))

/-- The arc cosine. -/
def acos (x : E) (order : Nat) : Except ArithmeticFault (List E) := do
  let f ← overOneMinusSquare x
  let v ← apply .acos x
  inverseFunction arcsineRecurrence (-1.0) x v order (← apply .sqrt f) f

/-- The arc sine. -/
def asin (x : E) (order : Nat) : Except ArithmeticFault (List E) := do
  let f ← overOneMinusSquare x
  let v ← apply .asin x
  inverseFunction arcsineRecurrence 1.0 x v order (← apply .sqrt f) f

/-- The arc tangent. -/
def atan (x : E) (order : Nat) : Except ArithmeticFault (List E) := do
  let f ← overSquarePlusOne x
  let v ← apply .atan x
  inverseFunction arctangentRecurrence 1.0 x v order f f

/-- The inverse hyperbolic sine. -/
def asinh (x : E) (order : Nat) : Except ArithmeticFault (List E) := do
  let f ← overSquarePlusOne x
  let v ← apply .asinh x
  inverseFunction areaSineRecurrence 1.0 x v order (← apply .sqrt f) f

/-- The inverse hyperbolic cosine. -/
def acosh (x : E) (order : Nat) : Except ArithmeticFault (List E) := do
  let f ← overSquareMinusOne x
  let v ← apply .acosh x
  inverseFunction areaCosineRecurrence 1.0 x v order (← apply .sqrt f) f

/-- The inverse hyperbolic tangent. -/
def atanh (x : E) (order : Nat) : Except ArithmeticFault (List E) := do
  let f ← overOneMinusSquare x
  let v ← apply .atanh x
  inverseFunction areaTangentRecurrence 1.0 x v order f f

end JetAlgebra.Outer
