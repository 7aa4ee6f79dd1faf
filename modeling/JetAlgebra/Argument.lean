import JetAlgebra.Buffer
import JetAlgebra.Jet.Power
import JetAlgebra.Text.Double

/-!
# Arguments of operations

Exponents, bases, scale factors, outer derivatives and displacements are numbers as a
rule, but callers may hand in anything.  What is no number turns into an empty slot,
which plain numbers and rationals refuse; where an operation looks at the kind of an
argument first, it asks here.
-/

namespace JetAlgebra

/-- An argument of an operation other than a window. -/
inductive Argument where
  | scalar (value : Scalar)
  | bool (b : Bool)
  | null
  | text (s : String)
  | list (items : List Argument)
  | array (buffer : Buffer)
  deriving Inhabited

namespace Argument

/-- The number that an argument is; a truth value counts as `0` or `1`. -/
def toScalar : Argument → Scalar
  | .scalar v => v
  | .bool b => .int (if b then 1 else 0)
  | .null | .text _ | .list _ | .array _ => .unset

/-- Whether an argument is a plain number. -/
def isPlain : Argument → Bool
  | .scalar (.int _) | .scalar (.strict _) | .scalar (.lenient _) | .bool _ => true
  | _ => false

/-- The integer that an argument is; truth values do not count. -/
def integer? : Argument → Option Int
  | .scalar (.int n) => some n
  | _ => none

/-- The name of the kind of an argument. -/
def kindName : Argument → String
  | .scalar (.int _) => "int"
  | .scalar (.strict _) | .scalar (.lenient _) => "float"
  | .scalar (.real _) => "RealElement"
  | .scalar (.rat _) => "RationalElement"
  | .scalar .complex => "complex"
  | .scalar .unset | .null => "NoneType"
  | .bool _ => "bool"
  | .text _ => "str"
  | .list _ | .array (.sequence _) => "list"
  | .array _ => "ndarray"

/-- Whether an argument is a plain number with the given value. -/
def equals (n : Int) (a : Argument) : Bool :=
  match a.toScalar with
  | .int m => m == n
  | .strict x | .lenient x => x == Binary64.ofInt n
  | .unset | .real _ | .rat _ | .complex => false

/-- The members of an argument that is a list or an array; those of a matrix are its rows. -/
def members? : Argument → Option (List Argument)
  | .list items => some items
  | .array (.matrix row) => some [.array (.packed row)]
  | .array b => some (b.scalars.map .scalar)
  | _ => none

/-- The scalar that goes into a slot of packed storage for an argument: a text is read,
and nothing at all is not a number. -/
def toPackedSlot : Argument → Except ArithmeticFault Scalar
  | .text s =>
    match Text.readDouble? s with
    | some x => .ok (.strict x)
    | none => .error .notANumber
  | .list _ | .array _ => .error .notANumber
  | a => Buffer.packedStorage.store a.toScalar

/-- The scalar that goes into a slot of storage like that of a buffer. -/
def toSlot (like : Buffer) (a : Argument) : Except ArithmeticFault Scalar :=
  match like with
  | .packed _ | .matrix _ => a.toPackedSlot
  | .boxed _ | .words _ | .sequence _ => .ok a.toScalar

/-- The number that an argument is for the scalars it meets.  Reals take in all that a
double can be made of: a text is read, and nothing at all is not a number.  What has members
is no number: a list or an array is refused, whatever is in it, and never taken slot by slot. -/
def toFactor (entries : List Scalar) : Argument → Except ArithmeticFault Scalar
  | .text s =>
    match entries.all isReal, Text.readDouble? s with
    | false, _ => .error .unsupported
    | true, some x => .ok (.lenient x)
    | true, none => .error .notANumber
  | .null => .ok (if entries.all isReal then .lenient Binary64.nan else .unset)
  | .list _ | .array _ => .error .unsupported
  | a => .ok a.toScalar
where
  /-- Whether a scalar is a wrapped double. -/
  isReal : Scalar → Bool
    | .real _ => true
    | _ => false

/-- The power of a number to a real exponent.  A text is no number, but it is read where
its value, or that of the operand, settles the power alone.  A list or an array is an empty
slot here, even if it has a single member. -/
def realPower (exponent : Argument) (x : Scalar) (order : Nat) :
    Except ArithmeticFault (Recipe Scalar) :=
  match exponent with
  | .text s =>
    match Text.readDouble? s with
    | none => .error .notANumber
    | some p => do
      if p == 0.0 then return .constant (← Arithmetic.oneLike x)
      if (← x.toFloat) == 0.0 then return .constant (← Arithmetic.zeroLike x)
      throw .unsupported
  | p => Outer.realPower p.toScalar x order

/-- The power of a constant to a number. -/
def basePower (base : Argument) (x : Scalar) (order : Nat) :
    Except ArithmeticFault (List Scalar) := do
  if base.equals 0 then Outer.zeroPower x order
  else Outer.basePower (← base.toFactor [x]) x order

/-- The formula that a root of this index takes: only plain indices have one of their own. -/
def rootKind (index : Argument) : Outer.RootKind :=
  if index.equals 2 then .square else if index.equals 3 then .cube else .other

end Argument

end JetAlgebra
