import JetAlgebra.Tables

/-!
# Flattened tables

A kernel is a table with its rows laid end to end: one list for each component of
a term, and `starts`, the place where each row begins.  `segments` cuts such a list
at its starts again.  Terms of a composition have different numbers of slots, so their
slot lists are padded on the right to equal width.

`ofRows` flattens the rows of a table.  `ofLists?` flattens rows that callers write down,
whose terms are lists of integers: a term may have too few of them, and a kernel's
entries are machine integers.  It goes component by component and reports the first
fault it meets.
-/

namespace JetAlgebra

/-- Why rows cannot be flattened. -/
inductive KernelFault where
  /-- An entry is not a 64-bit integer. -/
  | entryOutOfRange
  /-- A composition needs at least one term, which sets the width of its slot lists. -/
  | noTerms
  /-- A term lacks a component. -/
  | missingEntry
  /-- A term without all components leaves a part of its slot list open. -/
  | raggedSlots
  deriving DecidableEq, Repr

/-- Whether an integer fits a signed 64-bit word. -/
def fitsMachineIndex (n : Int) : Bool :=
  -Tables.machineIndexMax - 1 ≤ n && n ≤ Tables.machineIndexMax

/-- The machine integer that an integer is cut to: what its lowest 64 bits stand for, the
highest of them as the sign. -/
def wrapMachineIndex (n : Int) : Int := n.bmod 0x10000000000000000

/-- Nothing is cut off an integer that fits. -/
theorem wrapMachineIndex_of_fits {n : Int} (h : fitsMachineIndex n) : wrapMachineIndex n = n := by
  rw [fitsMachineIndex, Bool.and_eq_true, decide_eq_true_iff, decide_eq_true_iff,
    Tables.machineIndexMax] at h
  exact Int.bmod_eq_of_le_mul_two (by omega) (by omega)

/-- The position of each row when rows are laid end to end. -/
def segmentStarts {α : Type} (rows : List (List α)) : List Nat :=
  Sizes.runningSums 0 (rows.dropLast.map List.length)

/-- Cuts a list at the given starts.  Each segment ends where the next one starts,
and the last one at the end of the list; where the next start is not larger, the
segment is the single entry at its start. -/
def segments {α : Type} : List Nat → List α → List (List α)
  | [], _ => []
  | [s], xs => [xs.drop s]
  | s :: t :: rest, xs =>
    (if s < t then (xs.take t).drop s else (xs.drop s).take 1) :: segments (t :: rest) xs

/-- Component `i` of terms that are lists of integers. -/
def column? (i : Nat) (terms : List (List Int)) : Except KernelFault (List Int) := do
  let entries ← terms.mapM fun t =>
    match t[i]? with
    | some n => .ok n
    | none => .error .missingEntry
  if entries.all fitsMachineIndex then return entries else throw .entryOutOfRange

/-- One term of a row to be flattened for a product. -/
structure ProductEntry where
  coefficient : Int
  left : Int
  right : Int
  deriving DecidableEq, Repr

/-- One term of a row to be flattened for a composition. -/
structure CompositionEntry where
  coefficient : Int
  derivative : Int
  slots : List Int
  deriving DecidableEq, Repr

/-- A flattened product table: term `t` contributes
`coefficients[t] * u[left[t]] * v[right[t]]`. -/
structure ProductKernel where
  coefficients : List Int
  left : List Int
  right : List Int
  starts : List Nat
  deriving DecidableEq, Repr

/-- A flattened composition table: term `t` contributes `coefficients[t]` times the
outer derivative `derivatives[t]` times the inner slots in row `t` of `slots`, whose
surplus entries are `padding`, the place of a unit. -/
structure CompositionKernel where
  coefficients : List Int
  derivatives : List Int
  slots : List (List Int)
  starts : List Nat
  padding : Int
  deriving DecidableEq, Repr

namespace ProductKernel

/-- Lays rows end to end. -/
def ofRows (rows : List (List ProductEntry)) : ProductKernel where
  coefficients := rows.flatten.map (·.coefficient)
  left := rows.flatten.map (·.left)
  right := rows.flatten.map (·.right)
  starts := segmentStarts rows

/-- Lays rows of terms that are lists end to end. -/
def ofLists? (rows : List (List (List Int))) : Except KernelFault ProductKernel := do
  let terms := rows.flatten
  return ⟨← column? 0 terms, ← column? 1 terms, ← column? 2 terms, segmentStarts rows⟩

/-- The kernel of a product table. -/
def ofTable (rows : List (List ProductTerm)) : ProductKernel :=
  ofRows (rows.map (·.map fun t => ⟨t.coefficient, t.key.left, t.key.right⟩))

end ProductKernel

namespace CompositionKernel

/-- The width of the padded slot lists: that of the longest, and at least one. -/
def width (rows : List (List CompositionEntry)) : Nat :=
  rows.flatten.foldl (fun w t => max w t.slots.length) 1

/-- A slot list with `padding` up to width `w`. -/
def pad (w : Nat) (padding : Int) (slots : List Int) : List Int :=
  slots ++ List.replicate (w - slots.length) padding

/-- Slot lists with `padding` up to width `w`. -/
def padAll (w : Nat) (padding : Int) (slots : List (List Int)) : List (List Int) :=
  slots.map (pad w padding)

/-- Lays rows end to end. -/
def ofRows (rows : List (List CompositionEntry)) (padding : Int) : CompositionKernel where
  coefficients := rows.flatten.map (·.coefficient)
  derivatives := rows.flatten.map (·.derivative)
  slots := padAll (width rows) padding (rows.flatten.map (·.slots))
  starts := segmentStarts rows
  padding := padding

/-- The slots of a term that is a list, with `padding` up to width `w`. -/
def slotList? (w : Nat) (padding : Int) (term : List Int) : Except KernelFault (List Int) :=
  if term.length < 2 ∧ 2 < term.length + w then .error .raggedSlots
  else if (term.drop 2).all fitsMachineIndex then .ok (pad w padding (term.drop 2))
  else .error .entryOutOfRange

/-- Lays rows of terms that are lists end to end; the slot lists come first. -/
def ofLists? (rows : List (List (List Int))) (padding : Int) :
    Except KernelFault CompositionKernel := do
  let terms := rows.flatten
  if terms.isEmpty then throw .noTerms
  if !fitsMachineIndex padding then throw .entryOutOfRange
  let w := terms.foldl (fun w t => max w (t.length - 2)) 1
  let slots ← terms.mapM (slotList? w padding)
  return ⟨← column? 0 terms, ← column? 1 terms, slots, segmentStarts rows, padding⟩

/-- The kernel of a composition table of jets with `size` slots; the padding points
one past the last slot. -/
def ofTable (rows : List (List ChainTerm)) (size : Nat) : CompositionKernel :=
  ofRows (rows.map (·.map fun t =>
    ⟨t.coefficient, t.key.derivative, t.key.slots.map Int.ofNat⟩)) size

end CompositionKernel

namespace Tables

/-- The flattened product table. -/
def productKernel (t : Tables) : ProductKernel := .ofTable t.product

/-- The flattened composition table. -/
def compositionKernel (t : Tables) : CompositionKernel := .ofTable t.composition t.size

end Tables

example : segments [0, 1, 3] ["a", "b", "c", "d"] = [["a"], ["b", "c"], ["d"]] := by decide

end JetAlgebra
