import JetAlgebra.Text.Integer
import JetAlgebra.Text.Quoted
import JetAlgebra.Binary64.Decimal

/-!
# Loosely typed arguments

Signatures, derivation orders and limits arrive as arbitrary data: callers may hand
in a number, a text or a list where an integer is meant.  `Datum.toInt?` says which
data count as an integer and `Datum.literal` is how a datum is quoted in a message.
A text with more digits than a limit is not read; integers are quoted with all digits.
-/

namespace JetAlgebra

/-- A value as a caller hands it in. -/
inductive Datum where
  | null
  | bool (b : Bool)
  | int (n : Int)
  | float (x : Float)
  | text (s : String)
  | list (items : List Datum)
  | record (fields : List (String × Datum))
  deriving Inhabited

/-- Why a datum does not convert to an integer. -/
inductive ConversionFault where
  /-- It is not a number or a text. -/
  | notNumeric
  /-- It is a text that does not write an integer, or not a number. -/
  | unreadable
  /-- It is infinite. -/
  | infinite
  deriving DecidableEq, Repr

namespace Datum

/-- The integer that a datum converts to.  A truth value counts as `0` or `1`, a double
is cut to its integer part, and a text is read if it has at most `maxDigits` digits. -/
def toInt? (maxDigits : Option Nat) : Datum → Except ConversionFault Int
  | .bool b => .ok (if b then 1 else 0)
  | .int n => .ok n
  | .float x =>
    match Binary64.truncate? x with
    | some n => .ok n
    | none => .error (if x.isNaN then .unreadable else .infinite)
  | .text s =>
    match Text.readInteger? maxDigits s with
    | some n => .ok n
    | none => .error .unreadable
  | .null | .list _ | .record _ => .error .notNumeric

/-- The integer that a datum is: truth values and integers, no conversion. -/
def asInt? : Datum → Option Int
  | .bool b => some (if b then 1 else 0)
  | .int n => some n
  | _ => none

mutual

/-- A datum as it is written in a message. -/
def literal : Datum → String
  | .null => "None"
  | .bool true => "True"
  | .bool false => "False"
  | .int n => toString n
  | .float x => Binary64.shortest x
  | .text s => Text.quoted s
  | .list items => "[" ++ ", ".intercalate (literals items) ++ "]"
  | .record fields => "\x7b" ++ ", ".intercalate (fieldLiterals fields) ++ "\x7d"

/-- The items of a list as they are written. -/
def literals : List Datum → List String
  | [] => []
  | d :: ds => literal d :: literals ds

/-- The fields of a record as they are written. -/
def fieldLiterals : List (String × Datum) → List String
  | [] => []
  | (name, d) :: rest => (Text.quoted name ++ ": " ++ literal d) :: fieldLiterals rest

end

/-- The items that a datum is made of, when it is a list, or a text, which is made of
its characters, or a record, which is made of its names. -/
def items? : Datum → Option (List Datum)
  | .list items => some items
  | .text s => some (s.toList.map fun c => .text (String.ofList [c]))
  | .record fields => some (fields.map fun field => .text field.1)
  | _ => none

/-- Integers as a tuple in a message: in parentheses, a single one with a comma. -/
def tupleLiteral (ns : List Int) : String :=
  match ns with
  | [n] => "(" ++ toString n ++ ",)"
  | _ => "(" ++ ", ".intercalate (ns.map toString) ++ ")"

end Datum

end JetAlgebra
