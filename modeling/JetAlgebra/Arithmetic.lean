import JetAlgebra.Binary64.Elementary
import JetAlgebra.Layout.Locate

/-!
# What jets are made of

The operations on jets are written once, over any type with an `Arithmetic`.  Its
operations may fail: an exact number cannot be divided by zero, and an infinite
double is no exact number.  `ofInt` and `ofFloat` are the constants that a recipe
writes down, `computed` are doubles that it computes, `toFloat` is what it looks at to
decide between branches, and the elementary functions are whatever the type offers.

Jets in between are kept in a `Storage`, which may change the numbers that are stored.
-/

namespace JetAlgebra

/-- Why a number cannot be computed. -/
inductive ArithmeticFault where
  /-- Division by zero, or a negative power of zero. -/
  | divisionByZero
  /-- A number beyond the range of doubles, or infinity among exact numbers. -/
  | overflow
  /-- Not-a-number among exact numbers. -/
  | notANumber
  /-- An operand that is no number, such as an empty slot. -/
  | unsupported
  /-- A slot that is not there. -/
  | missingSlot
  deriving DecidableEq, Repr

/-- Numbers that jets can hold. -/
class Arithmetic (E : Type) where
  /-- An integer constant. -/
  ofInt : Int → E
  /-- A double constant. -/
  ofFloat : Float → E
  /-- A double that a function of doubles returned. -/
  computed : Float → E
  add : E → E → Except ArithmeticFault E
  sub : E → E → Except ArithmeticFault E
  mul : E → E → Except ArithmeticFault E
  div : E → E → Except ArithmeticFault E
  pow : E → E → Except ArithmeticFault E
  neg : E → Except ArithmeticFault E
  /-- The zero of the same kind as a number. -/
  zeroLike : E → Except ArithmeticFault E
  /-- The one of the same kind as a number. -/
  oneLike : E → Except ArithmeticFault E
  /-- The nearest double. -/
  toFloat : E → Except ArithmeticFault Float
  /-- An elementary function. -/
  apply : Elementary → E → Except ArithmeticFault E
  /-- The angle of the point with ordinate `y` and abscissa `x`. -/
  atan2 : (y x : E) → Except ArithmeticFault E
  /-- `x - n * y` for the integer `n` nearest to `x / y`. -/
  remainder : (x y : E) → Except ArithmeticFault E

/-- Where the slots of a jet are kept. -/
structure Storage (E : Type) where
  /-- What becomes of a number that is stored. -/
  store : E → Except ArithmeticFault E
  /-- What a stored number is when its slot is read out alone. -/
  alone : E → E

/-- Storage that keeps numbers as they are. -/
def Storage.faithful {E : Type} : Storage E := ⟨.ok, id⟩

namespace Arithmetic
variable {E : Type} [Arithmetic E]

/-- Combines two lists entry by entry. -/
def zipEach (f : E → E → Except ArithmeticFault E) :
    List E → List E → Except ArithmeticFault (List E)
  | x :: xs, y :: ys => do return (← f x y) :: (← zipEach f xs ys)
  | _, _ => .ok []

/-- The sum of a segment, from its first entry on. -/
def sum : List E → Except ArithmeticFault E
  | [] => .error .missingSlot
  | x :: xs => xs.foldlM add x

/-- The entry of a list at an integer position, where `-1` is the last one. -/
def slot (xs : List E) (i : Int) : Except ArithmeticFault E :=
  match entryAt? xs i with
  | some x => .ok x
  | none => .error .missingSlot

/-- A slot stays where it is if others come behind it. -/
theorem slot_append {α : Type} {xs : List α} {i : Int} (h : 0 ≤ i ∧ i < xs.length) (ys : List α) :
    slot (xs ++ ys) i = slot xs i := by
  rw [slot, slot, entryAt?_append h]

/-- A constant times a number. -/
def scale (n : Int) (x : E) : Except ArithmeticFault E := mul (ofInt n) x

/-- Constants times the numbers of a list. -/
def scaleEach : List Int → List E → Except ArithmeticFault (List E)
  | n :: ns, x :: xs => do return (← scale n x) :: (← scaleEach ns xs)
  | _, _ => .ok []

/-- The entries of a list at integer positions. -/
def gather (xs : List E) (positions : List Int) : Except ArithmeticFault (List E) :=
  positions.mapM (slot xs)

end Arithmetic

end JetAlgebra
