import JetAlgebra.Binary64.Exact
import JetAlgebra.Text.Digit

/-!
# Doubles in decimal and hexadecimal text

Three forms of a double are written and one is read.

* `scientific`: a fixed number of significant digits, from the exact value, a tie going
  to the even digit;
* `shortest`: the fewest digits that read back as the same double, the nearer of two;
* `bitText`: the sixteen hexadecimal digits of its bits;
* `read?`: decimal text, correctly rounded, the names of infinity and not-a-number,
  and the hexadecimal form.
-/

namespace JetAlgebra.Binary64

/-- A positive number as `digits * 10 ^ exponent`. -/
structure Decimal where
  digits : Nat
  exponent : Int
  deriving DecidableEq, Repr

/-- `10 ^ e`. -/
def tenPower (e : Int) : Rat :=
  if 0 ≤ e then (Nat.pow 10 e.toNat : Rat) else mkRat 1 (Nat.pow 10 (-e).toNat)

/-- The number of decimal digits of a natural number. -/
def digitCount (n : Nat) : Nat := (Nat.toDigits 10 n).length

/-- The exponent of the leading decimal digit of a positive rational. -/
def leadingExponent (q : Rat) : Int :=
  let e : Int := (digitCount q.num.natAbs : Int) - (digitCount q.den : Int)
  if tenPower e ≤ q then e else e - 1

/-- A positive rational to `n` significant digits, a tie going to the even digit. -/
def roundToDigits (n : Nat) (q : Rat) : Decimal :=
  let e := leadingExponent q - (n - 1)
  let m := (nearestInt (q / tenPower e)).natAbs
  if m == Nat.pow 10 n then ⟨Nat.pow 10 (n - 1), e + 1⟩ else ⟨m, e⟩

/-- The value of a decimal. -/
def Decimal.toRat (d : Decimal) : Rat := d.digits * tenPower d.exponent

/-- The two decimals of `n` significant digits next to a positive rational, nearer one
first. -/
def neighbours (n : Nat) (q : Rat) : List Decimal :=
  let e := leadingExponent q - (n - 1)
  let below := (q / tenPower e).floor.natAbs
  let low : Decimal := ⟨below, e⟩
  let high : Decimal := ⟨below + 1, e⟩
  let toLow := q - low.toRat
  let toHigh := high.toRat - q
  if toLow < toHigh || (toLow == toHigh && below % 2 == 0) then [low, high] else [high, low]

/-- The shortest decimal that reads back as the double nearest to `q`, looked for from
`n` digits on, with at most `fuel` tries. -/
def shortestFrom (q : Rat) : (fuel n : Nat) → Decimal
  | 0, n => roundToDigits n q
  | fuel + 1, n =>
    match (neighbours n q).find? fun d => (round d.toRat).toBits == (round q).toBits with
    | some d => d
    | none => shortestFrom q fuel (n + 1)

/-- A decimal without zeros at its end. -/
def Decimal.stripZeros : (fuel : Nat) → Decimal → Decimal
  | 0, d => d
  | fuel + 1, d =>
    if d.digits % 10 == 0 && d.digits != 0 then stripZeros fuel ⟨d.digits / 10, d.exponent + 1⟩
    else d

/-- The exponent part of a number: a sign and at least two digits. -/
def exponentText (e : Int) : String :=
  let digits := toString e.natAbs
  (if e < 0 then "e-" else "e+") ++ (if digits.length < 2 then "0" ++ digits else digits)

/-- Digits with a point after the first one, and the exponent of that one. -/
def pointAfterFirst (digits : List Char) (leading : Int) : String :=
  match digits with
  | [] => ""
  | [c] => String.ofList [c] ++ exponentText leading
  | c :: rest => String.ofList (c :: '.' :: rest) ++ exponentText leading

/-- The sign of a number, a minus or nothing. -/
def signText (negative : Bool) : String := if negative then "-" else ""

/-- A double with one digit before the point and `places` after it. -/
def scientific (places : Nat) (x : Float) : String :=
  match view x with
  | .nan => "nan"
  | .infinite negative => signText negative ++ "inf"
  | .finite negative m q =>
    signText negative ++
      if m == 0 then pointAfterFirst (List.replicate (places + 1) '0') 0
      else
        let d := roundToDigits (places + 1) (scaled m q)
        pointAfterFirst (Nat.toDigits 10 d.digits) (d.exponent + places)

/-- Digits in positional notation: the point stands after the digit of exponent `0`. -/
def positional (digits : List Char) (leading : Int) : String :=
  if leading < 0 then
    "0." ++ String.ofList (List.replicate (-leading - 1).toNat '0' ++ digits)
  else
    let whole := digits.take (leading.toNat + 1)
    let part := digits.drop (leading.toNat + 1)
    String.ofList (whole ++ List.replicate (leading.toNat + 1 - digits.length) '0') ++ "." ++
      (if part.isEmpty then "0" else String.ofList part)

/-- The shortest text of a double.  Leading exponents from `-4` to `15` are written
positionally, with at least one digit after the point. -/
def shortest (x : Float) : String :=
  match view x with
  | .nan => "nan"
  | .infinite negative => signText negative ++ "inf"
  | .finite negative m q =>
    signText negative ++
      if m == 0 then "0.0"
      else
        let d := (shortestFrom (scaled m q) 17 1).stripZeros 17
        let digits := Nat.toDigits 10 d.digits
        let leading := d.exponent + digits.length - 1
        if -4 ≤ leading && leading < 16 then positional digits leading
        else pointAfterFirst digits leading

/-- A hexadecimal digit. -/
def hexDigitValue? (c : Char) : Option Nat :=
  if '0' ≤ c ∧ c ≤ '9' then some (c.toNat - '0'.toNat)
  else if 'a' ≤ c ∧ c ≤ 'f' then some (c.toNat - 'a'.toNat + 10)
  else if 'A' ≤ c ∧ c ≤ 'F' then some (c.toNat - 'A'.toNat + 10)
  else none

/-- The bits of a double after an `x`, sixteen hexadecimal digits; not-a-number has one
name for all its bits. -/
def bitText (x : Float) : String :=
  match view x with
  | .nan => "nan"
  | _ =>
    let digits := Nat.toDigits 16 x.toBits.toNat
    String.ofList ('x' :: List.replicate (16 - digits.length) '0' ++ digits)

/-- The value of ASCII digits. -/
def decimalValue? (cs : List Char) : Option Nat :=
  if cs.all Char.isDigit then some (cs.foldl (fun n c => 10 * n + (c.toNat - '0'.toNat)) 0)
  else none

/-- An integer: an optional sign and one or more digits. -/
def readInt? (cs : List Char) : Option Int := do
  let (negative, digits) := Text.splitSign cs
  guard !digits.isEmpty
  let n ← decimalValue? digits
  return if negative then -(n : Int) else n

/-- An unsigned decimal number: digits, perhaps a point among them, perhaps an
exponent. -/
def readMagnitude? (cs : List Char) : Option Rat := do
  let body := cs.takeWhile fun c => c != 'e' && c != 'E'
  let exponent ← match cs.drop body.length with
    | [] => some 0
    | _ :: rest => readInt? rest
  let whole := body.takeWhile (· != '.')
  let part := (body.drop whole.length).drop 1
  guard (!(whole.isEmpty && part.isEmpty))
  let n ← decimalValue? (whole ++ part)
  return n * tenPower (exponent - part.length)

/-- The double that characters write in decimal, or by the name of infinity or of
not-a-number. -/
def readDecimal? (cs : List Char) : Option Float :=
  let (negative, body) := Text.splitSign cs
  if body = "inf".toList ∨ body = "infinity".toList then
    some (ofSignedBits negative (2047 * twoPower 52))
  else if body = "nan".toList then some nan
  else (readMagnitude? body).map fun q =>
    ofSignedBits negative (magnitudeBits q.num.natAbs q.den)

/-- The double that a text writes. -/
def read? (s : String) : Option Float :=
  match s.toList with
  | 'x' :: cs =>
    (cs.mapM hexDigitValue?).map fun ds =>
      Float.ofBits (UInt64.ofNat (ds.foldl (fun n d => 16 * n + d) 0))
  | cs => readDecimal? cs

end JetAlgebra.Binary64
