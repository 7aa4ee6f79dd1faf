import JetAlgebra.Arithmetic
import JetAlgebra.Kernel

/-!
# The algebra of jets

A jet is the list of its slots.  A `Calculus` is what the operations on jets of one
signature look up: the flattened product and composition tables and the derivation
orders of the slots.  Sums and differences go slot by slot, products follow the
Leibniz rule and compositions the chain rule; every slot of these two is the sum of
one segment of the flattened terms, from the first term on.
-/

namespace JetAlgebra

/-- What the operations on jets of one signature need. -/
structure Calculus where
  parameters : Nat
  order : Nat
  size : Nat
  product : ProductKernel
  composition : CompositionKernel
  derivatives : List Orders

/-- The calculus of a signature's tables. -/
def Tables.calculus (t : Tables) : Calculus where
  parameters := t.parameters
  order := t.order
  size := t.size
  product := t.productKernel
  composition := t.compositionKernel
  derivatives := t.derivatives

/-- The slots of a jet. -/
abbrev Jet (E : Type) := List E

namespace Jet
open Arithmetic
variable {E : Type} [Arithmetic E]

/-- The slots of a jet after they were stored. -/
def stored (s : Storage E) (a : Except ArithmeticFault (Jet E)) :
    Except ArithmeticFault (Jet E) := do
  (← a).mapM s.store

/-- The value of a jet, which is its first slot read out alone. -/
def value (s : Storage E) (a : Jet E) : Except ArithmeticFault E := do return s.alone (← slot a 0)

/-- The sum of two jets. -/
def add (a b : Jet E) : Except ArithmeticFault (Jet E) := zipEach Arithmetic.add a b

/-- The difference of two jets. -/
def sub (a b : Jet E) : Except ArithmeticFault (Jet E) := zipEach Arithmetic.sub a b

/-- The sums of the segments of a list of terms. -/
def sumSegments (starts : List Nat) (terms : List E) : Except ArithmeticFault (Jet E) :=
  (segments starts terms).mapM Arithmetic.sum

/-- The terms `c * a[l] * b[r]` of a product, laid end to end. -/
def productTerms (k : ProductKernel) (a b : Jet E) : Except ArithmeticFault (List E) := do
  let lefts ← scaleEach k.coefficients (← gather a k.left)
  zipEach Arithmetic.mul lefts (← gather b k.right)

/-- **The product of two jets**, by the Leibniz rule. -/
def mul (k : Calculus) (a b : Jet E) : Except ArithmeticFault (Jet E) := do
  sumSegments k.product.starts (← productTerms k.product a b)

/-- Terms times the slots that are listed for each, one column of the lists after the
other. -/
def mulColumns (g : List E) : (width : Nat) → List (List Int) → List E →
    Except ArithmeticFault (List E)
  | 0, _, terms => .ok terms
  | width + 1, slots, terms => do
    let factors ← gather g (slots.map (·.headD 0))
    mulColumns g width (slots.map List.tail) (← zipEach Arithmetic.mul terms factors)

/-- The factors `c * f[k]` that the terms of a composition begin with. -/
def leadingFactors (k : CompositionKernel) (f : List E) : Except ArithmeticFault (List E) := do
  scaleEach k.coefficients (← gather f k.derivatives)

/-- The same factors for derivatives that are machine integers, which products with other
machine integers stay. -/
def leadingWords (k : CompositionKernel) (f : List Int) : Except ArithmeticFault (List E) := do
  let words ← gather f k.derivatives
  return List.zipWith (fun c n => ofInt (wrapMachineIndex (c * n))) k.coefficients words

/-- The terms of a composition, from the factors that they begin with. -/
def termsFrom (k : CompositionKernel) (g leading : List E) : Except ArithmeticFault (List E) :=
  mulColumns g (k.slots.headD []).length k.slots leading

/-- The terms `c * f[k] * g[s] * ...` of a composition, laid end to end. -/
def chainTerms (k : CompositionKernel) (f g : List E) : Except ArithmeticFault (List E) := do
  termsFrom k g (← leadingFactors k f)

/-- The composition with a jet, from the factors that its terms begin with.  The jet is extended
by a one, which the padding of the slot lists points at. -/
def composeFrom (k : Calculus) (s : Storage E) (g : Jet E)
    (leading : Except ArithmeticFault (List E)) : Except ArithmeticFault (Jet E) := do
  let one ← s.store (← oneLike (← value s g))
  sumSegments k.composition.starts (← termsFrom k.composition (g ++ [one]) (← leading))

/-- **The composition** `f(g)` of a function with a jet, by the chain rule.  Entry `k` of
`f` is the derivative of order `k` at the value of `g`, not divided by a factorial. -/
def compose (k : Calculus) (s : Storage E) (g : Jet E) (f : List E) :
    Except ArithmeticFault (Jet E) :=
  composeFrom k s g (leadingFactors k.composition f)

/-- A composition is the sums of the segments of its terms. -/
theorem compose_eq (k : Calculus) (s : Storage E) (g : Jet E) (f : List E) :
    compose k s g f = (do
      let one ← s.store (← oneLike (← value s g))
      sumSegments k.composition.starts (← chainTerms k.composition f (g ++ [one]))) := by
  simp only [compose, composeFrom, chainTerms, bind_assoc]

/-- The integer nearest to the quotient of two values, as a double, from the remainder
of their division. -/
def quotient (a b r : E) : Except ArithmeticFault Float := do
  let x ← toFloat a
  let y ← toFloat r
  return Binary64.roundToIntegral ((x - y) / (← toFloat b))

/-- **The remainder of a division**: `a - n * b` for the integer `n` nearest to the quotient
of the values.  The value is the exact remainder, and the other slots use the same
`n`, which is locally constant. -/
def remainder (a b : Jet E) : Except ArithmeticFault (Jet E) := do
  let a₀ ← slot a 0
  let b₀ ← slot b 0
  let r ← Arithmetic.remainder a₀ b₀
  let n ← quotient a₀ b₀ r
  let multiples ← b.tail.mapM fun y => Arithmetic.mul y (ofFloat n)
  return r :: (← sub a.tail multiples)

/-- A jet times a number. -/
def scaleBy (c : E) (a : Jet E) : Except ArithmeticFault (Jet E) :=
  a.mapM fun x => Arithmetic.mul x c

/-- The sum of jets times numbers, from the first one on, added to a jet. -/
def addScaled (total : Jet E) : List (E × Jet E) → Except ArithmeticFault (Jet E)
  | [] => .ok total
  | (c, a) :: rest => do addScaled (← add total (← scaleBy c a)) rest

/-- A linear combination of jets; of none there is no combination. -/
def linearCombination : List (E × Jet E) → Except ArithmeticFault (Jet E)
  | [] => .error .missingSlot
  | (c, a) :: rest => do addScaled (← scaleBy c a) rest

/-- A constant jet: a value and no derivatives, which are the zeros of the same kind as
the given number. -/
def constant (k : Calculus) (like c : E) : Except ArithmeticFault (Jet E) := do
  return c :: List.replicate (k.size - 1) (← zeroLike like)

end Jet

end JetAlgebra
