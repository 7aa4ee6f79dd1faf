import JetAlgebra.Binary64.Exact

/-!
# Elementary functions of doubles

The functions of one variable that jets are composed with.  Outside a domain they are
not a number, and at a pole infinite; nothing fails.  `expm1` and `log1p` keep their
accuracy near zero: each corrects the rounding of `exp x` or `1 + x` by the quotient
of the same quantity computed both ways.
-/

namespace JetAlgebra

/-- The elementary functions of one variable. -/
inductive Elementary where
  | exp | expm1 | log | log1p | log10 | sqrt | cbrt
  | sin | cos | tan | asin | acos | atan
  | sinh | cosh | tanh | asinh | acosh | atanh
  deriving DecidableEq, Repr

namespace Binary64

/-- `exp x - 1`, accurate for small `x`. -/
def expm1 (x : Float) : Float :=
  let u := Float.exp x
  if u == 1.0 then x
  else
    let v := u - 1.0
    if v == -1.0 then -1.0
    else if u.isInf then u
    else v * (x / Float.log u)

/-- `log (1 + x)`, accurate for small `x`. -/
def log1p (x : Float) : Float :=
  let u := 1.0 + x
  if u == 1.0 then x
  else if u.isInf then Float.log u
  else Float.log u * (x / (u - 1.0))

end Binary64

/-- The value of an elementary function at a double. -/
def Elementary.onFloat : Elementary → Float → Float
  | .exp => Float.exp
  | .expm1 => Binary64.expm1
  | .log => Float.log
  | .log1p => Binary64.log1p
  | .log10 => Float.log10
  | .sqrt => Float.sqrt
  | .cbrt => Float.cbrt
  | .sin => Float.sin
  | .cos => Float.cos
  | .tan => Float.tan
  | .asin => Float.asin
  | .acos => Float.acos
  | .atan => Float.atan
  | .sinh => Float.sinh
  | .cosh => Float.cosh
  | .tanh => Float.tanh
  | .asinh => Float.asinh
  | .acosh => Float.acosh
  | .atanh => Float.atanh

end JetAlgebra
