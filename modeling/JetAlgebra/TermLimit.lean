import JetAlgebra.Datum

/-!
# The limit on composition terms

Composition tables are limited in their number of terms.  The limit in force is the
setting of the innermost scope, or else the standing setting, or else the text
of the environment if it writes a positive integer, or else `TermLimit.standard`.
Texts are read up to `maxDigits` digits, wherever they come from.

A scope is entered with a setting and left again; leaving restores the setting that
was in force when it was entered.  The setting "none" of an inner scope hides the
outer scopes: it does not inherit their limit.  Settings below one are refused, and
a refused setting changes nothing.
-/

namespace JetAlgebra

/-- Why a datum is not a limit. -/
inductive LimitFault where
  /-- It does not convert to an integer. -/
  | conversion (fault : ConversionFault)
  /-- It is an integer below one. -/
  | notPositive
  deriving DecidableEq, Repr

/-- What decides the limit: the setting of the innermost scope, those saved on
entering the scopes, the standing setting, and the text of the environment. -/
structure TermLimit where
  scope : Option Nat := none
  saved : List (Option Nat) := []
  standing : Option Nat := none
  environment : Option String := none
  deriving DecidableEq, Repr

namespace TermLimit

/-- The limit when nothing sets one. -/
def standard : Nat := 5000000

variable (maxDigits : Option Nat)

/-- A setting as callers hand it in: nothing, or a positive integer. -/
def setting? (n : Datum) : Except LimitFault (Option Nat) :=
  match n with
  | .null => .ok none
  | _ =>
    match n.toInt? maxDigits with
    | .error fault => .error (.conversion fault)
    | .ok k => if k < 1 then .error .notPositive else .ok (some k.toNat)

/-- The limit that a text of the environment sets. -/
def ofEnvironment? (text : String) : Option Nat :=
  match Text.readInteger? maxDigits text with
  | some k => if 0 < k then some k.toNat else none
  | none => none

/-- **The limit in force.** -/
def resolve (l : TermLimit) : Nat :=
  match l.scope with
  | some n => n
  | none =>
    match l.standing with
    | some n => n
    | none => (l.environment.bind (ofEnvironment? maxDigits)).getD standard

/-- Sets the standing limit. -/
def setStanding (l : TermLimit) (n : Datum) : Except LimitFault TermLimit := do
  return { l with standing := ← setting? maxDigits n }

/-- Sets the text of the environment, or unsets it. -/
def setEnvironment (l : TermLimit) (text : Option String) : TermLimit :=
  { l with environment := text }

/-- Enters a scope with a setting. -/
def enter (l : TermLimit) (n : Datum) : Except LimitFault TermLimit := do
  return { l with scope := ← setting? maxDigits n, saved := l.scope :: l.saved }

/-- Leaves the innermost scope. -/
def leave (l : TermLimit) : TermLimit :=
  match l.saved with
  | [] => l
  | outer :: rest => { l with scope := outer, saved := rest }

end TermLimit

namespace LimitFault

/-- What is said about the fault; nothing about a datum that does not convert. -/
def message? : LimitFault → Option String
  | .conversion _ => none
  | .notPositive => some "max table terms must be a positive integer."

end LimitFault

end JetAlgebra
