import JetAlgebra.Jet.Outer

/-!
# Powers and roots

The derivatives of a power are the powers below it times falling factors.  Three
recipes build the list: for a real exponent from the lowest power up, for a positive
integer exponent the same without the powers below zero, which vanish, and for a
negative integer exponent from powers of the reciprocal.  A power that is constant,
such as a power to zero, needs no derivatives at all; hence `Recipe`.
-/

namespace JetAlgebra

/-- How a function of one variable acts on a jet. -/
inductive Recipe (E : Type) where
  /-- The result is a constant. -/
  | constant (c : E)
  /-- The result is the composition with these derivatives. -/
  | compose (derivatives : List E)

namespace Outer
open Arithmetic
variable {E : Type} [Arithmetic E]

/-- The entries of `tail` after `xk * x^n`, ..., `xk * x`, `xk`. -/
def powersDown (x : E) : (n : Nat) → (xk : E) → (tail : List E) → Except ArithmeticFault (List E)
  | 0, xk, tail => .ok (xk :: tail)
  | n + 1, xk, tail => do powersDown x n (← mul xk x) (xk :: tail)

/-- The entries `xk`, `xk * x`, ..., `xk * x^n`. -/
def powersUp (x : E) : (n : Nat) → (xk : E) → Except ArithmeticFault (List E)
  | 0, xk => .ok [xk]
  | n + 1, xk => do return xk :: (← powersUp x n (← mul xk x))

/-- Multiplies entries with `c`, `c * (p - i)`, `c * (p - i) * (p - i - 1)`, .... -/
def fallingFactors (p : E) : (i : Nat) → (c : E) → List E → Except ArithmeticFault (List E)
  | _, _, [] => .ok []
  | i, c, v :: vs => do
    let w ← mul v c
    let next ← mul c (← sub p (ofInt i))
    return w :: (← fallingFactors p (i + 1) next vs)

/-- A power and its derivatives, from the powers that the derivatives are multiples of. -/
def scalePowers (p : E) : List E → Except ArithmeticFault (List E)
  | [] => .ok []
  | v :: vs => do return v :: (← fallingFactors p 1 p vs)

/-- The power `x^p` for a real exponent: one for the exponent zero, zero at zero, and
else the powers from `x^(p - order)` up. -/
def realPower (p x : E) (order : Nat) : Except ArithmeticFault (Recipe E) := do
  if (← toFloat p) == 0.0 then return .constant (← oneLike x)
  if (← toFloat x) == 0.0 then return .constant (← zeroLike x)
  let lowest ← pow x (← sub p (ofInt order))
  return .compose (← scalePowers p (← powersDown x order lowest []))

/-- The powers `x^n`, `x^(n - 1)`, ... for a positive exponent, with zeros from the power
below zero on. -/
def positivePowers (n : Nat) (x zero : E) (order : Nat) : Except ArithmeticFault (List E) := do
  let top := min order n
  powersDown x top (← pow x (ofInt (n - top : Nat))) (List.replicate (order - top) zero)

/-- The powers `x^(-n)`, `x^(-n - 1)`, ... from those of the reciprocal. -/
def negativePowers (n : Nat) (x : E) (order : Nat) : Except ArithmeticFault (List E) := do
  let inverse ← div one x
  powersUp inverse order (← pow inverse (ofInt n))

/-- The power `x^n` for an integer exponent. -/
def integerPower (n : Int) (x : E) (order : Nat) : Except ArithmeticFault (Recipe E) := do
  if n = 0 then return .constant (← oneLike x)
  let zero ← zeroLike x
  let powers ← if 0 < n then positivePowers n.toNat x zero order
    else negativePowers (-n).toNat x order
  return .compose (← scalePowers (ofInt n) powers)

/-- `count` entries that alternate between the negative of `v` and `v`. -/
def alternate : (count : Nat) → (v : E) → Except ArithmeticFault (List E)
  | 0, _ => .ok []
  | count + 1, v => do
    let w ← neg v
    return w :: (← alternate count w)

/-- The power `0^x`: zero for positive `x`, not a number for negative `x`, and at zero one
with derivatives that alternate between the infinities. -/
def zeroPower (x : E) (order : Nat) : Except ArithmeticFault (List E) := do
  let zero ← zeroLike x
  let x₀ ← toFloat x
  if x₀ == 0.0 then
    let unit ← add zero (ofInt 1)
    let infinite ← add zero (ofFloat Binary64.infinity)
    return unit :: (← alternate order infinite)
  else if x₀ < 0.0 then
    return List.replicate (order + 1) (← add zero (ofFloat Binary64.nan))
  else return List.replicate (order + 1) zero

/-- The power `a^x` of a base other than zero: every derivative is the one before times the
logarithm of `a`. -/
def basePower (a x : E) (order : Nat) : Except ArithmeticFault (List E) := do
  let zero ← zeroLike x
  let v ← pow (← add zero a) x
  powersUp (computed (Float.log (← toFloat a))) order v

/-- Which formula a root takes. -/
inductive RootKind where
  | square
  | cube
  | other
  deriving DecidableEq, Repr

/-- The root of index `n` and its first derivative. -/
def rootStart (kind : RootKind) (n x : E) : Except ArithmeticFault (E × E) := do
  match kind with
  | .square =>
    let s ← apply .sqrt x
    return (s, ← div (ofFloat 0.5) s)
  | .cube =>
    let s ← apply .cbrt x
    return (s, ← div one (← mul (← mul (ofFloat 3.0) s) s))
  | .other =>
    let s ← pow x (← div one n)
    return (s, ← div one (← mul n (← pow s (← sub n (ofInt 1)))))

/-- `count` derivatives of a root from the one of order `i` on, which is `xk`: each is
the last one times `(1 / n - i) / x`. -/
def rootChain (overX overN : E) : (i count : Nat) → (xk : E) → Except ArithmeticFault (List E)
  | _, 0, _ => .ok []
  | i, count + 1, xk => do
    let next ← mul xk (← mul overX (← sub overN (ofInt i)))
    return xk :: (← rootChain overX overN (i + 1) count next)

/-- **The root of index `n`** and its derivatives. -/
def root (kind : RootKind) (n x : E) (order : Nat) : Except ArithmeticFault (List E) := do
  let (s, first) ← rootStart kind n x
  let overN ← div one n
  let overX ← div one x
  return s :: (← rootChain overX overN 1 order first)

end Outer

namespace Jet
open Arithmetic
variable {E : Type} [Arithmetic E]

/-- What a recipe makes of a jet. -/
def follow (k : Calculus) (s : Storage E) (g : Jet E) : Recipe E → Except ArithmeticFault (Jet E)
  | .constant c => do constant k (← value s g) c
  | .compose f => do compose k s g (← f.mapM s.store)

/-- The composition of a jet with a function that is known by its derivatives. -/
def through (k : Calculus) (s : Storage E) (g : Jet E)
    (f : E → Nat → Except ArithmeticFault (List E)) : Except ArithmeticFault (Jet E) := do
  follow k s g (.compose (← f (← value s g) k.order))

/-- The power of a jet to an integer. -/
def powInt (k : Calculus) (s : Storage E) (g : Jet E) (n : Int) :
    Except ArithmeticFault (Jet E) := do
  follow k s g (← Outer.integerPower n (← value s g) k.order)

/-- The reciprocal of a jet. -/
def reciprocal (k : Calculus) (s : Storage E) (g : Jet E) : Except ArithmeticFault (Jet E) :=
  powInt k s g (-1)

end Jet

end JetAlgebra
