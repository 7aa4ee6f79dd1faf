/-!
# Doubles as exact numbers

A finite double is `m * 2 ^ q` for an integer `m` below `2 ^ 53`.  `view` reads `m` and
`q` off the bits, `toRat?` is the number they stand for, and `round` goes the other
way: the double nearest to a rational, a tie going to the even significand, and
infinity from half a step beyond the largest double on.  The operations that are
defined by an exact value, remainder and rounding to an integer, go through these.
-/

namespace JetAlgebra.Binary64

/-- What the bits of a double say. -/
inductive View where
  | nan
  | infinite (negative : Bool)
  /-- The number `± mantissa * 2 ^ exponent`. -/
  | finite (negative : Bool) (mantissa : Nat) (exponent : Int)
  deriving DecidableEq, Repr

/-- The number `2 ^ n`. -/
def twoPower (n : Nat) : Nat := Nat.pow 2 n

/-- Reads the sign, the exponent and the fraction of a double. -/
def view (x : Float) : View :=
  let bits : Nat := x.toBits.toNat
  let negative := bits / twoPower 63 == 1
  let biased : Nat := bits / twoPower 52 % twoPower 11
  let fraction : Nat := bits % twoPower 52
  if biased == 2047 then
    if fraction == 0 then .infinite negative else .nan
  else if biased == 0 then .finite negative fraction (-1074)
  else .finite negative (twoPower 52 + fraction) ((biased : Int) - 1075)

/-- The sign bit. -/
def signBit (x : Float) : Bool := x.toBits.toNat / twoPower 63 == 1

/-- The number `m * 2 ^ q`. -/
def scaled (m : Int) (q : Int) : Rat :=
  if 0 ≤ q then ((m * twoPower q.toNat : Int) : Rat) else mkRat m (twoPower (-q).toNat)

/-- The exact value of a finite double. -/
def toRat? (x : Float) : Option Rat :=
  match view x with
  | .finite negative m q => some (scaled (if negative then -(m : Int) else m) q)
  | _ => none

/-- The integer nearest to `n / d`, a tie going to the even one. -/
def nearestQuotient (n d : Nat) : Nat :=
  let q := n / d
  let r := n % d
  if 2 * r < d then q
  else if d < 2 * r then q + 1
  else if q % 2 == 0 then q else q + 1

/-- The exponent of the last place of `n / d` written with 53 significant bits, or that
of the smallest double if it is larger. -/
def lastPlace (n d : Nat) : Int :=
  let e : Int := (n.log2 : Int) - (d.log2 : Int) - 52
  let below := if 0 ≤ e + 52 then n < d * twoPower (e + 52).toNat
    else n * twoPower (-(e + 52)).toNat < d
  max (-1074) (if below then e - 1 else e)

/-- The bits of the double nearest to `n / d`, without a sign. -/
def magnitudeBits (n d : Nat) : Nat :=
  if n == 0 then 0
  else
    let e := lastPlace n d
    let m := if 0 ≤ e then nearestQuotient n (d * twoPower e.toNat)
      else nearestQuotient (n * twoPower (-e).toNat) d
    min ((e + 1074).toNat * twoPower 52 + m) (2047 * twoPower 52)

/-- A double from its sign and the other bits. -/
def ofSignedBits (negative : Bool) (bits : Nat) : Float :=
  Float.ofBits (UInt64.ofNat ((if negative then twoPower 63 else 0) + bits))

/-- The double nearest to a rational, infinite if it is too large. -/
def round (q : Rat) : Float := ofSignedBits (q.num < 0) (magnitudeBits q.num.natAbs q.den)

/-- The double nearest to an integer, infinite if it is too large. -/
def ofInt (n : Int) : Float := ofSignedBits (n < 0) (magnitudeBits n.natAbs 1)

/-- Positive infinity. -/
def infinity : Float := Float.ofBits 0x7ff0000000000000

/-- Not a number. -/
def nan : Float := Float.ofBits 0x7ff8000000000000

/-- The double nearest to the circle constant. -/
def pi : Float := Float.ofBits 0x400921fb54442d18

/-- The integer nearest to a rational, a tie going to the even one. -/
def nearestInt (q : Rat) : Int :=
  let n := nearestQuotient q.num.natAbs q.den
  if q.num < 0 then -(n : Int) else n

/-- The integer part of a finite double. -/
def truncate? (x : Float) : Option Int :=
  (toRat? x).map fun q => Int.tdiv q.num q.den

/-- The integer nearest to a double, as a double with the same sign, a tie going to
the even one; infinities and not-a-number stay. -/
def roundToIntegral (x : Float) : Float :=
  match toRat? x with
  | none => x
  | some q => ofSignedBits (signBit x) (magnitudeBits (nearestInt q).natAbs 1)

/-- **The remainder** `x - n * y`, exact, for the integer `n` nearest to `x / y`.  A zero
remainder has the sign of `x`; the remainder by infinity is `x`, and that of
infinity or by zero is not a number. -/
def remainder (x y : Float) : Float :=
  match view x, view y with
  | .finite negative _ _, .finite _ _ _ =>
    match toRat? x, toRat? y with
    | some a, some b =>
      if b == 0 then nan
      else
        let r := a - nearestInt (a / b) * b
        if r == 0 then ofSignedBits negative 0 else round r
    | _, _ => nan
  | .finite _ _ _, .infinite _ => x
  | _, _ => nan

end JetAlgebra.Binary64
