import JetAlgebra.Jet.Basic

/-!
# Taylor expansion

A jet at a point holds the Taylor polynomial of its function there.  `Jet.taylor`
evaluates it at a displaced point, from the last slot to the first, so that the
smallest terms are added first.
-/

namespace JetAlgebra.Jet
open Arithmetic
variable {E : Type} [Arithmetic E]

/-- The factorial of `n`. -/
def factorial : Nat → Nat
  | 0 => 1
  | n + 1 => (n + 1) * factorial n

/-- A slot times `d^n / n!` for each displacement `d` and its derivation order `n`. -/
def taylorTerm (term : E) : List E → Orders → Except ArithmeticFault E
  | d :: ds, n :: ns => do
    if n = 0 then taylorTerm term ds ns
    else
      let weight ← div (← pow d (ofInt n)) (ofInt (factorial n))
      taylorTerm (← Arithmetic.mul term weight) ds ns
  | _, _ => .ok term

/-- Adds the terms of slots, given last one first. -/
def taylorSum (delta : List E) : List (E × Orders) → E → Except ArithmeticFault E
  | [], total => .ok total
  | (a, orders) :: rest, total => do
    taylorSum delta rest (← Arithmetic.add total (← taylorTerm a delta orders))

/-- **The value of the Taylor polynomial** at a displacement from the point of the jet. -/
def taylor (derivatives : List Orders) (a : Jet E) (delta : List E) : Except ArithmeticFault E := do
  taylorSum delta (a.zip derivatives).reverse (← zeroLike (← slot a 0))

end JetAlgebra.Jet
