import JetAlgebra.Layout

/-!
# Finding a slot from arbitrary integers

`Sizes.slotOf` is meant for orders that a jet has.  Callers hand in any list of
integers, so `Sizes.locate?` walks down the same split and says what is wrong
when the orders sum to more than the order of the jet, or when an order is
missing.  `validateOrders` is the check callers get before the walk: the number
of orders, then their signs, then their sum.
-/

namespace JetAlgebra

/-- Why a list of integers is not the derivation orders of a slot. -/
inductive OrdersFault where
  /-- There must be one order for each parameter. -/
  | wrongCount (expected : Int) (got : Nat)
  /-- An order is negative. -/
  | negative (orders : List Int)
  /-- The orders sum to more than the order of the jet. -/
  | sumExceeds (orders : List Int) (order : Int)
  /-- The walk down the layout ran past the order of the jet. -/
  | exceeds (orders : List Int) (order : Int)
  /-- The walk looked for a slot, an order or a size that is not there. -/
  | outOfRange
  deriving DecidableEq, Repr

/-- The entry at an integer position, where `-1` is the last one. -/
def entryAt? {α : Type} (xs : List α) (i : Int) : Option α :=
  if 0 ≤ i then xs[i.toNat]?
  else if 0 ≤ i + xs.length then xs[(i + xs.length).toNat]?
  else none

theorem entryAt?_natCast {α : Type} (xs : List α) (n : Nat) : entryAt? xs n = xs[n]? :=
  if_pos (Int.natCast_nonneg n)

theorem mem_of_entryAt? {α : Type} {xs : List α} {i : Int} {x : α} (h : entryAt? xs i = some x) :
    x ∈ xs := by
  rw [entryAt?] at h
  split at h
  · exact List.mem_of_getElem? h
  · split at h
    · exact List.mem_of_getElem? h
    · cases h

theorem entryAt?_map {α β : Type} (f : α → β) (xs : List α) (i : Int) :
    entryAt? (xs.map f) i = (entryAt? xs i).map f := by
  simp only [entryAt?, List.length_map, List.getElem?_map]
  split
  · rfl
  · split <;> rfl

/-- Entries stay where they are if others come behind them. -/
theorem entryAt?_append {α : Type} {xs : List α} {i : Int} (h : 0 ≤ i ∧ i < xs.length)
    (ys : List α) : entryAt? (xs ++ ys) i = entryAt? xs i := by
  obtain ⟨n, rfl⟩ := Int.eq_ofNat_of_zero_le h.1
  rw [entryAt?_natCast, entryAt?_natCast, List.getElem?_append_left (Int.ofNat_lt.mp h.2)]

namespace Sizes

/-- The slots that `d` derivatives skip in one row of the sizes, from order `m` down. -/
def skippedIn? (row : List Nat) : Nat → Int → Except OrdersFault Nat
  | 0, _ => .ok 0
  | d + 1, m =>
    match entryAt? row m with
    | none => .error .outOfRange
    | some n => do return n + (← skippedIn? row d (m - 1))

/-- The walk of `locate?`, last parameter first; `total` is the sum of the orders
passed so far and `m` what the derivatives taken have left. -/
def descend (sizes : Sizes) (order : Int) (all : List Int) :
    List Int → Int → Int → Except OrdersFault Nat
  | [], _, _ => .ok 0
  | d :: ds, total, m => do
    if order < total + d then throw (.exceeds all order)
    let here ← skippedIn? (sizes.getD ds.length []) d.toNat m
    let below ← descend sizes order all ds (total + d) (m - max d 0)
    return here + below

/-- The slot of integer orders in a `(p, order)` jet.  Orders beyond the first `p`
are not looked at. -/
def locate? (sizes : Sizes) (p : Nat) (order : Int) (orders : List Int) : Except OrdersFault Nat :=
  if orders.length < p then .error .outOfRange
  else descend sizes order orders (orders.take p).reverse 0 order

end Sizes

/-- The slot of the `(p, order)` layout with the given sizes that holds the orders of
slot `i` of another layout, cut or padded to `p` parameters. -/
def convertSlot? (source : List Orders) (i : Int) (p : Nat) (order : Int) (sizes : Sizes) :
    Except OrdersFault Nat :=
  match entryAt? source i with
  | none => .error .outOfRange
  | some orders => sizes.locate? p order ((Orders.resize p orders).map Int.ofNat)

/-- The sum of integer orders. -/
def orderSum (orders : List Int) : Int := orders.foldr (· + ·) 0

/-- Integer orders that a `(p, o)` jet has: one for each parameter, none negative,
with a sum of at most `o`.  The first of these that fails is reported. -/
def validateOrders (orders : List Int) (p o : Int) : Except OrdersFault (List Int) := do
  if (orders.length : Int) ≠ p then throw (.wrongCount p orders.length)
  if orders.any (· < 0) then throw (.negative orders)
  if o < orderSum orders then throw (.sumExceeds orders o)
  return orders

end JetAlgebra
