import JetAlgebra.Layout
import JetAlgebra.Tables.Leibniz
import JetAlgebra.Tables.ChainRule

/-!
# The tables of a signature

`Tables` collects what a signature `(p, o)` needs: the layout and the two rule
tables.  Every one of them is computed from the tables of the value part
`(p - 1, o)` and of the derivative part `(p, o - 1)`:

* `Tables.join` puts the tables together, without any limit;
* `Tables.build?` is what callers use: the same tables, unless the jet has too
  many slots, the composition table too many terms, or a coefficient is too large;
* `Tables.complete` is the recursive definition from nothing.  It is the meaning
  of a signature's tables and is not meant to be run: it builds shared parts again
  and again.
-/

namespace JetAlgebra

/-- The tables of the signature `(parameters, order)`. -/
structure Tables where
  parameters : Nat
  order : Nat
  /-- The number of slots of all smaller signatures. -/
  sizes : Sizes
  /-- The derivation orders of each slot. -/
  derivatives : List Orders
  /-- The slots of the `(parameters, order - 1)` jet inside this one. -/
  lower : List Nat
  /-- The terms of each slot of a product. -/
  product : List (List ProductTerm)
  /-- The terms of each slot of a composition. -/
  composition : List (List ChainTerm)
  deriving DecidableEq, Repr

/-- What table construction must not exceed. -/
structure BuildLimits where
  /-- The largest number of slots, and the largest composition coefficient. -/
  indexMax : Int
  /-- The largest number of composition terms. -/
  maxTerms : Nat
  deriving Repr

/-- Why the tables of `(parameters, order)` cannot be built. -/
inductive BuildFault where
  | tooManySlots (parameters order needed : Nat)
  | tooManyTerms (parameters order atLeast limit : Nat)
  | coefficientTooLarge (parameters order largest : Nat)
  deriving DecidableEq, Repr

namespace Tables

/-- The largest index of the machine integers that kernels are stored in. -/
def machineIndexMax : Int := 0x7fffffffffffffff

/-- The number of slots of a jet. -/
def size (t : Tables) : Nat := t.sizes.count t.parameters t.order

/-- The tables of a jet that is a single slot, which has `p = 0` or `o = 0`. -/
def single (p o : Nat) (sizes : Sizes) : Tables where
  parameters := p
  order := o
  sizes := sizes
  derivatives := [List.replicate p 0]
  lower := [0]
  product := ProductTerm.unitRows
  composition := ChainTerm.unitRows

/-- The tables without parameters. -/
def point (o : Nat) : Tables := single 0 o (Sizes.constant o)

instance : Inhabited Tables := ⟨point 0⟩

/-- The sizes for `p + 1` parameters, from those for `p`. -/
def sizesAbove (value : Tables) : Sizes := value.sizes.extend

/-- The sizes for up to `p` parameters and the orders below `orders`, unless one is too
large. -/
def sizesUpTo? (indexMax : Int) (orders : Nat) : (p : Nat) → Except BuildFault Sizes
  | 0 => .ok [List.replicate orders 1]
  | p + 1 => do
    let sizes := (← sizesUpTo? indexMax orders p).extend
    let needed := (sizes.getLastD []).getLastD 0
    if indexMax < needed then throw (.tooManySlots (p + 1) (orders - 1) needed)
    return sizes

/-- The lower slots of `(p + 1, o + 1)`; a jet of order `0` is one slot. -/
def lowerOf (o : Nat) (value derivative : Tables) : List Nat :=
  if o = 0 then [0] else Lower.join value.size value.lower derivative.lower

/-- How the slots of the derivative part `(p, o - 1)` are renumbered in the
`(p, o)` jet of the given sizes. -/
def renumbering (p o : Nat) (sizes : Sizes) (derivative : Tables) : Renumbering where
  same := derivative.derivatives.map (sizes.slotOf o)
  raised := derivative.derivatives.map fun orders => sizes.slotOf o orders.raiseLast
  first := sizes.slotOf o (Orders.unitLast p)

/-- The tables of `(p + 1, o + 1)` from those of `(p, o + 1)` and `(p + 1, o)`, with
the given composition rows. -/
def joinWith (p o : Nat) (value derivative : Tables) (composition : List (List ChainTerm)) :
    Tables where
  parameters := p + 1
  order := o + 1
  sizes := value.sizesAbove
  derivatives := Orders.join value.derivatives derivative.derivatives
  lower := lowerOf o value derivative
  product := ProductTerm.joinRows (lowerOf o value derivative) value.product derivative.product
  composition := composition

/-- The tables of `(p + 1, o + 1)` from those of `(p, o + 1)` and `(p + 1, o)`. -/
def join (p o : Nat) (value derivative : Tables) : Tables :=
  joinWith p o value derivative <|
    ChainTerm.joinRows (renumbering (p + 1) (o + 1) value.sizesAbove derivative)
      value.composition derivative.composition

/-- The tables for `p + 1` parameters and each order, from those for `p`. -/
def completeAbove (p : Nat) (values : Nat → Tables) : (o : Nat) → Tables
  | 0 => single (p + 1) 0 (values 0).sizesAbove
  | o + 1 => join p o (values (o + 1)) (completeAbove p values o)

/-- **The tables of a signature**, by recursion on its two smaller neighbours. -/
def complete : (p o : Nat) → Tables
  | 0 => point
  | p + 1 => completeAbove p (complete p)

@[simp] theorem complete_zero (o : Nat) : complete 0 o = point o := rfl

@[simp] theorem complete_succ_zero (p : Nat) :
    complete (p + 1) 0 = single (p + 1) 0 (complete p 0).sizesAbove := rfl

theorem complete_succ_succ (p o : Nat) :
    complete (p + 1) (o + 1) = join p o (complete p (o + 1)) (complete (p + 1) o) := rfl

/-- The composition rows of `(p + 1, o + 1)`, within a limit on the number of terms. -/
def compositionRows? (limit p o : Nat) (value derivative : Tables) :
    Except BuildFault (List (List ChainTerm)) :=
  let renumber := renumbering (p + 1) (o + 1) value.sizesAbove derivative
  match ChainTerm.extendRows? limit renumber (ChainTerm.termCount value.composition)
      derivative.composition with
  | .ok rows => .ok (value.composition ++ rows)
  | .error n => .error (.tooManyTerms (p + 1) (o + 1) n limit)

/-- The tables of `(p, o)`, not yet looked at for large coefficients. -/
def assemble? (limits : BuildLimits) (value derivative : Tables) :
    (p o : Nat) → Except BuildFault Tables
  | 0, o => .ok (point o)
  | p + 1, o => do
    let needed := (value.sizesAbove).count (p + 1) o
    if limits.indexMax < needed then throw (.tooManySlots (p + 1) o needed)
    match o with
    | 0 => return single (p + 1) 0 value.sizesAbove
    | o + 1 =>
      let composition ← compositionRows? limits.maxTerms p o value derivative
      return joinWith p o value derivative composition

/-- **Builds the tables of `(p, o)`** from those of `(p - 1, o)`, which is not used
when `p = 0`, and of `(p, o - 1)`, which is not used when `o = 0`.  Of several
limits that are exceeded the number of slots is reported before the number of
terms, and that before the size of a coefficient. -/
def build? (limits : BuildLimits) (p o : Nat) (value derivative : Tables) :
    Except BuildFault Tables := do
  let tables ← assemble? limits value derivative p o
  let largest := Weighted.largest tables.composition
  if limits.indexMax < largest then throw (.coefficientTooLarge p o largest)
  return tables

end Tables

end JetAlgebra
