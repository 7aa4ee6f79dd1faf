import JetAlgebra.Tables.Weighted

/-!
# The composition table

Row `i` of the composition table lists the terms `c * f^(k)(g) * g[s] * ...` whose
sum is slot `i` of `f(g)`, for a function `f` of one variable and a jet `g`.  The
value part has the rows of one parameter less.  A row of the derivative part is
the row of one order less, differentiated along the last parameter: once the
outer factor, which gives `f^(k + 1)(g)` and a new inner factor, and once each
inner factor.

Composition tables grow fast, so `extendRows?` counts the terms while it builds
and gives up between two rows as soon as there are more than the limit.
-/

namespace JetAlgebra

/-- What a term of a composition multiplies: the derivative of the outer function
of order `derivative`, and the inner slots. -/
structure ChainFactors where
  derivative : Nat
  slots : List Nat
  deriving DecidableEq, Repr

/-- A term `c * f^(k)(g) * g[s] * ...`. -/
abbrev ChainTerm := Weighted ChainFactors

/-- How slots of the `(p, o - 1)` jet are renumbered while a row is differentiated
along the last parameter. -/
structure Renumbering where
  /-- The slot of the same derivative. -/
  same : List Nat
  /-- The slot of the derivative taken once more along the last parameter. -/
  raised : List Nat
  /-- The slot of the first derivative along the last parameter. -/
  first : Nat

namespace ChainTerm

/-- Puts a slot into its place among slots in increasing order. -/
def insertSlot (s : Nat) : List Nat → List Nat
  | [] => [s]
  | t :: rest => if s ≤ t then s :: t :: rest else t :: insertSlot s rest

/-- Slots in increasing order. -/
def sorted : List Nat → List Nat
  | [] => []
  | s :: rest => insertSlot s (sorted rest)

/-- All ways to replace one entry `s` of a list, keeping the others renumbered. -/
def raiseEach (r : Renumbering) : List Nat → List (List Nat)
  | [] => []
  | s :: rest =>
    (r.raised.getD s 0 :: rest.map (r.same.getD · 0)) ::
      (raiseEach r rest).map (r.same.getD s 0 :: ·)

/-- The derivative of a term along the last parameter: the outer factor first, then
the inner factors in turn. -/
def differentiate (r : Renumbering) (t : ChainTerm) : List ChainTerm :=
  ⟨t.coefficient, t.key.derivative + 1,
      sorted (t.key.slots.map (r.same.getD · 0) ++ [r.first])⟩ ::
    (raiseEach r t.key.slots).map fun slots => ⟨t.coefficient, t.key.derivative, sorted slots⟩

/-- A number by which most unequal factors are told apart. -/
def fingerprint (f : ChainFactors) : Nat :=
  f.slots.foldl (fun h s => (31 * h + s) % 0x100000000) f.derivative

/-- The derivative of a row, equal factors merged. -/
def differentiateRow (r : Renumbering) (row : List ChainTerm) : List ChainTerm :=
  Weighted.combineBy fingerprint (row.flatMap (differentiate r))

theorem differentiateRow_eq (r : Renumbering) (row : List ChainTerm) :
    differentiateRow r row = Weighted.combine (row.flatMap (differentiate r)) :=
  Weighted.combineBy_eq fingerprint _

/-- The table of a jet that is a single slot. -/
def unitRows : List (List ChainTerm) := [[⟨1, 0, []⟩]]

/-- The number of terms of a table. -/
def termCount (rows : List (List ChainTerm)) : Nat :=
  rows.foldr (fun row count => row.length + count) 0

/-- The table from those of the value part and of the derivative part. -/
def joinRows (r : Renumbering) (value derivative : List (List ChainTerm)) :
    List (List ChainTerm) :=
  value ++ derivative.map (differentiateRow r)

/-- The rows of the derivative part, when `count` terms are there already.  Fails
with the number of terms counted once that is more than `limit`; the count is
looked at before each row and after the last one. -/
def extendRows? (limit : Nat) (r : Renumbering) (count : Nat) :
    List (List ChainTerm) → Except Nat (List (List ChainTerm))
  | [] => if limit < count then .error count else .ok []
  | row :: rows =>
    if limit < count then .error count
    else do
      let next := differentiateRow r row
      return next :: (← extendRows? limit r (count + next.length) rows)

end ChainTerm

end JetAlgebra
