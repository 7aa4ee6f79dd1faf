import JetAlgebra.Arithmetic

/-!
# Scalars

A slot of a buffer holds a scalar, and so does an argument that is a number.  There
are plain numbers, integers of any size and doubles, and two kinds of elements: a
*real* is a wrapped double, and a *rational* is exact.  A plain number that meets an
element takes its kind.  A real takes in a rational as the nearest double, and an empty
slot as not a number; a rational takes in neither of the two.

Plain doubles come in two tempers.  One that a function returned, or that was read out
of packed storage alone, is *lenient*: its arithmetic never fails.  One that was written
down, or copied from packed into boxed storage, is *strict*: it refuses division by zero
and powers beyond the range of doubles, and its power need not be a real number.  Where
the two meet, the result is lenient.  An integer that meets a double must have a double
near it.

A rational has no exponential or sine: its elementary functions are fixed affine maps,
told apart by their coefficients, and a power with an exponent that is no integer is one
as well.
-/

namespace JetAlgebra

/-- The content of a slot, or a number handed in as an argument. -/
inductive Scalar where
  /-- A slot that nothing was stored in. -/
  | unset
  /-- A plain integer. -/
  | int (n : Int)
  /-- A plain double with checked division and powers. -/
  | strict (x : Float)
  /-- A plain double that nothing is refused of. -/
  | lenient (x : Float)
  /-- A wrapped double. -/
  | real (x : Float)
  /-- An exact rational. -/
  | rat (q : Rat)
  /-- A power that is no real number; its value is not kept. -/
  | complex
  deriving Inhabited

namespace Elementary

/-- The place of a function in the list of all. -/
def position : Elementary → Nat
  | .exp => 0
  | .expm1 => 1
  | .log => 2
  | .log1p => 3
  | .log10 => 4
  | .sqrt => 5
  | .cbrt => 6
  | .sin => 7
  | .cos => 8
  | .tan => 9
  | .asin => 10
  | .acos => 11
  | .atan => 12
  | .sinh => 13
  | .cosh => 14
  | .tanh => 15
  | .asinh => 16
  | .acosh => 17
  | .atanh => 18

/-- The affine map that an elementary function is on rationals. -/
def onRat (f : Elementary) (q : Rat) : Rat :=
  ((f.position + 1 : Nat) : Rat) * q + ((2 * f.position + 3 : Nat) : Rat)

end Elementary

namespace Exact

/-- A finite double as an exact number. -/
def ofFloat (x : Float) : Except ArithmeticFault Rat :=
  match Binary64.toRat? x with
  | some q => .ok q
  | none => .error (if x.isNaN then .notANumber else .overflow)

/-- The double nearest to an exact number, if it is finite. -/
def toFloat (q : Rat) : Except ArithmeticFault Float :=
  let x := Binary64.round q
  if x.isInf then .error .overflow else .ok x

/-- Exact division. -/
def div (a b : Rat) : Except ArithmeticFault Rat :=
  if b = 0 then .error .divisionByZero else .ok (a / b)

/-- A power of a natural number; the powers of `0` and `1` take no time. -/
def powNat (a n : Nat) : Nat :=
  if a = 1 then 1 else if a = 0 then (if n = 0 then 1 else 0) else Nat.pow a n

/-- A natural power of an integer. -/
def powInt (a : Int) (n : Nat) : Int :=
  if a < 0 ∧ n % 2 = 1 then -(powNat a.natAbs n : Int) else powNat a.natAbs n

/-- A natural power of a rational. -/
def pow (q : Rat) (n : Nat) : Rat := mkRat (powInt q.num n) (powNat q.den n)

/-- An integer power of a rational; zero has no negative powers. -/
def zpow (q : Rat) (n : Int) : Except ArithmeticFault Rat :=
  if 0 ≤ n then .ok (pow q n.toNat)
  else if q = 0 then .error .divisionByZero
  else .ok (pow q⁻¹ (-n).toNat)

/-- A power of a rational: exact for an integer exponent, and else an affine map of
the exponent. -/
def power (q y : Rat) : Except ArithmeticFault Rat :=
  if y.den = 1 then zpow q y.num else .ok (q * y + 11)

/-- The exact remainder `a - n * b` for the integer `n` nearest to `a / b`. -/
def remainder (a b : Rat) : Except ArithmeticFault Rat := do
  let quotient ← div a b
  return a - Binary64.nearestInt quotient * b

/-- The angle of a point, on rationals an affine map of its coordinates. -/
def atan2 (y x : Rat) : Rat := 5 * y + 7 * x + 1

end Exact

/-! Division and powers of strict doubles. -/
namespace Strict

/-- The quotient of two doubles, the second of which must not be zero. -/
def div (x y : Float) : Except ArithmeticFault Float :=
  if y == 0.0 then .error .divisionByZero else .ok (x / y)

/-- Whether a finite double has a fractional part. -/
def isFractional (y : Float) : Bool := (Binary64.toRat? y).any (·.den != 1)

/-- A power of doubles.  Zero has no negative power, a power of finite doubles must be
finite, and a fractional power of a negative double is no real number. -/
def pow (x y : Float) : Except ArithmeticFault Scalar :=
  if !(x.isFinite && y.isFinite) then .ok (.strict (Float.pow x y))
  else if x == 0.0 && y < 0.0 then .error .divisionByZero
  else if x < 0.0 && isFractional y then
    if (Float.pow (-x) y).isInf then .error .overflow else .ok .complex
  else
    let z := Float.pow x y
    if z.isInf then .error .overflow else .ok (.strict z)

end Strict

namespace Scalar

/-- The double nearest to an integer, if it is finite. -/
def floatOfInt (n : Int) : Except ArithmeticFault Float :=
  let x := Binary64.ofInt n
  if x.isInf then .error .overflow else .ok x

/-- The double that a scalar is, or converts to. -/
def toFloat : Scalar → Except ArithmeticFault Float
  | .unset | .complex => .error .unsupported
  | .int n => floatOfInt n
  | .strict x | .lenient x | .real x => .ok x
  | .rat q => Exact.toFloat q

/-- The double that a scalar converts to where doubles are collected: an empty slot is
not a number. -/
def collect : Scalar → Except ArithmeticFault Float
  | .unset => .ok Binary64.nan
  | a => a.toFloat

/-- The double that a plain number is. -/
def plain : Scalar → Except ArithmeticFault Float
  | .int n => floatOfInt n
  | .strict x | .lenient x => .ok x
  | .unset | .complex | .real _ | .rat _ => .error .unsupported

/-- The rational that a scalar brings to exact arithmetic, in which wrapped doubles do
not take part. -/
def asRat : Scalar → Except ArithmeticFault Rat
  | .int n => .ok n
  | .strict x | .lenient x => Exact.ofFloat x
  | .rat q => .ok q
  | .unset | .complex | .real _ => .error .unsupported

/-- How two scalars are combined, by what they are. -/
structure Rule where
  onInt : Int → Int → Except ArithmeticFault Scalar
  onStrict : Float → Float → Except ArithmeticFault Float
  onFloat : Float → Float → Float
  onRat : Rat → Rat → Except ArithmeticFault Rat

/-- An operation on two scalars: exact if the first is rational, on wrapped doubles if it
is such, then the same for the second, and else on plain numbers. -/
def combine (rule : Rule) (a b : Scalar) : Except ArithmeticFault Scalar :=
  match a, b with
  | .rat p, b => do return .rat (← rule.onRat p (← b.asRat))
  | .real x, b => do return .real (rule.onFloat x (← b.collect))
  | a, .rat q => do return .rat (← rule.onRat (← a.asRat) q)
  | a, .real y => do return .real (rule.onFloat (← a.collect) y)
  | .unset, _ | _, .unset => .error .unsupported
  | .complex, _ | _, .complex => .ok .complex
  | .int m, .int n => rule.onInt m n
  | .lenient x, b => do return .lenient (rule.onFloat x (← b.plain))
  | a, .lenient y => do return .lenient (rule.onFloat (← a.plain) y)
  | a, b => do return .strict (← rule.onStrict (← a.plain) (← b.plain))

/-- The sum of two scalars. -/
def add : Scalar → Scalar → Except ArithmeticFault Scalar :=
  combine
    { onInt := fun m n => .ok (.int (m + n))
      onStrict := fun x y => .ok (x + y)
      onFloat := (· + ·)
      onRat := fun a b => .ok (a + b) }

/-- The difference of two scalars. -/
def sub : Scalar → Scalar → Except ArithmeticFault Scalar :=
  combine
    { onInt := fun m n => .ok (.int (m - n))
      onStrict := fun x y => .ok (x - y)
      onFloat := (· - ·)
      onRat := fun a b => .ok (a - b) }

/-- The product of two scalars. -/
def mul : Scalar → Scalar → Except ArithmeticFault Scalar :=
  combine
    { onInt := fun m n => .ok (.int (m * n))
      onStrict := fun x y => .ok (x * y)
      onFloat := (· * ·)
      onRat := fun a b => .ok (a * b) }

/-- The quotient of two scalars; that of two integers is the nearest double. -/
def div : Scalar → Scalar → Except ArithmeticFault Scalar :=
  combine
    { onInt := fun m n => do return .strict (← Exact.toFloat (← Exact.div m n))
      onStrict := Strict.div
      onFloat := (· / ·)
      onRat := Exact.div }

/-- A power.  The exponent takes the kind of the base; a plain base has no power with an
element as exponent. -/
def pow : Scalar → Scalar → Except ArithmeticFault Scalar
  | .rat q, y => do return .rat (← Exact.power q (← y.asRat))
  | .real x, y => do return .real (Float.pow x (← y.collect))
  | .unset, _ | _, .unset | _, .real _ | _, .rat _ => .error .unsupported
  | .complex, _ | _, .complex => .ok .complex
  | .lenient x, y => do return .lenient (Float.pow x (← y.plain))
  | x, .lenient y => do return .lenient (Float.pow (← x.plain) y)
  | x, y => do Strict.pow (← x.plain) (← y.plain)

/-- The negative of a scalar. -/
def neg : Scalar → Except ArithmeticFault Scalar
  | .unset => .error .unsupported
  | .int n => .ok (.int (-n))
  | .strict x => .ok (.strict (-x))
  | .lenient x => .ok (.lenient (-x))
  | .real x => .ok (.real (-x))
  | .rat q => .ok (.rat (-q))
  | .complex => .ok .complex

/-- The constant of the same kind as a scalar: plain numbers have it as a double. -/
def constantLike (c : Int) : Scalar → Except ArithmeticFault Scalar
  | .unset | .complex => .error .unsupported
  | .int _ | .strict _ | .lenient _ => .ok (.lenient (Binary64.ofInt c))
  | .real _ => .ok (.real (Binary64.ofInt c))
  | .rat _ => .ok (.rat c)

/-- An elementary function of a scalar. -/
def apply (f : Elementary) : Scalar → Except ArithmeticFault Scalar
  | .unset | .complex => .error .unsupported
  | .int n => do return .lenient (f.onFloat (← floatOfInt n))
  | .strict x | .lenient x => .ok (.lenient (f.onFloat x))
  | .real x => .ok (.real (f.onFloat x))
  | .rat q => .ok (.rat (f.onRat q))

/-- The angle of a point, of the kind of its ordinate. -/
def atan2 : (y x : Scalar) → Except ArithmeticFault Scalar
  | .unset, _ | .complex, _ => .error .unsupported
  | .rat y, x => do return .rat (Exact.atan2 y (← x.asRat))
  | .real y, x => do return .real (Float.atan2 y (← x.collect))
  | y, x => do return .lenient (Float.atan2 (← y.toFloat) (← x.collect))

/-- The remainder of a division, of the kind of the dividend. -/
def remainder : (x y : Scalar) → Except ArithmeticFault Scalar
  | .unset, _ | .complex, _ => .error .unsupported
  | .rat x, y => do return .rat (← Exact.remainder x (← y.asRat))
  | .real x, y => do return .real (Binary64.remainder x (← y.collect))
  | x, y => do return .lenient (Binary64.remainder (← x.toFloat) (← y.toFloat))

instance : Arithmetic Scalar where
  ofInt := .int
  ofFloat := .strict
  computed := .lenient
  add := add
  sub := sub
  mul := mul
  div := div
  pow := pow
  neg := neg
  zeroLike := constantLike 0
  oneLike := constantLike 1
  toFloat := toFloat
  apply := apply
  atan2 := atan2
  remainder := remainder

end Scalar

end JetAlgebra
