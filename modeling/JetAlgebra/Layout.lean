/-!
# Slot layout of a jet

A **jet** of signature `(p, o)` holds every partial derivative of order at most
`o` of one function of `p` parameters, flat, one per slot.  This module fixes
which slot holds which derivative.

A `(p, o)` jet is its *value part*, the `(p - 1, o)` jet that ignores the last
parameter, followed by its *derivative part*, the `(p, o - 1)` jet of the
derivative along the last parameter.  Everything here follows from that split:

* `Sizes`: the number of slots, `sizes p o = sizes p (o - 1) + sizes (p - 1) o`;
* `Orders.join`: the derivation orders held by each slot;
* `Lower.join`: where the slots of the `(p, o - 1)` jet sit inside the `(p, o)` one;
* `Sizes.slotOf`: the slot of given derivation orders, by walking down the split;
  every derivative along parameter `i` skips one value part.
-/

namespace JetAlgebra

/-- Derivation orders, one for each parameter. -/
abbrev Orders := List Nat

/-- Row `p`, column `o` is the number of slots of a `(p, o)` jet. -/
abbrev Sizes := List (List Nat)

namespace Sizes

/-- The slots of a `(p, o)` jet; `0` outside the table. -/
def count (sizes : Sizes) (p o : Nat) : Nat := (sizes.getD p []).getD o 0

/-- The sums of a start value and every initial segment of a list. -/
def runningSums (start : Nat) : List Nat → List Nat
  | [] => [start]
  | x :: xs => start :: runningSums (start + x) xs

/-- The sizes for one more parameter.  A jet of order `0` has one slot, and each
further order adds the slots of the value part. -/
def nextRow (row : List Nat) : List Nat := runningSums 1 row.tail

/-- Without parameters a jet of any order is a single slot. -/
def constant (o : Nat) : Sizes := [List.replicate (o + 1) 1]

/-- The table with one more parameter. -/
def extend (sizes : Sizes) : Sizes := sizes ++ [nextRow (sizes.getLastD [])]

/-- The slots that `d` derivatives along parameter `i` skip when orders up to `m`
are left. -/
def skipped (sizes : Sizes) (i : Nat) : Nat → Nat → Nat
  | 0, _ => 0
  | d + 1, m => sizes.count i m + skipped sizes i d (m - 1)

/-- The slot of derivation orders given last parameter first. -/
def slotOfReversed (sizes : Sizes) : List Nat → Nat → Nat
  | [], _ => 0
  | d :: ds, m => sizes.skipped ds.length d m + slotOfReversed sizes ds (m - d)

/-- The slot that holds `orders` in a jet of order `o`. -/
def slotOf (sizes : Sizes) (o : Nat) (orders : Orders) : Nat :=
  sizes.slotOfReversed orders.reverse o

end Sizes

namespace Orders

/-- One more derivative along the last parameter. -/
def raiseLast (orders : Orders) : Orders :=
  orders.dropLast ++ [orders.getLastD 0 + 1]

/-- The orders of all slots: those of the value part, without a derivative along
the last parameter, then those of the derivative part, with one more. -/
def join (value derivative : List Orders) : List Orders :=
  value.map (· ++ [0]) ++ derivative.map raiseLast

/-- The first derivative along the last of `p` parameters. -/
def unitLast (p : Nat) : Orders := List.replicate (p - 1) 0 ++ [1]

/-- Orders for `p` parameters: those of the surplus parameters are dropped, and
no derivative is taken along the missing ones. -/
def resize (p : Nat) (orders : Orders) : Orders :=
  orders.take p ++ List.replicate (p - orders.length) 0

end Orders

/-- Where the `(p, o - 1)` slots sit in a `(p, o)` jet: first the value part's, then
the derivative part's, after the `shift` slots of the value part. -/
def Lower.join (shift : Nat) (value derivative : List Nat) : List Nat :=
  value ++ derivative.map (shift + ·)

example : Sizes.extend (Sizes.extend (Sizes.constant 3)) =
    [[1, 1, 1, 1], [1, 2, 3, 4], [1, 3, 6, 10]] := by
  decide

example : Sizes.slotOf [[1, 1, 1], [1, 2, 3]] 2 [1, 1] = 4 := by decide

end JetAlgebra
