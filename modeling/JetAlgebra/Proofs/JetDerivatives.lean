import JetAlgebra.Proofs.Differentiation

/-!
# Derivatives of jets, slot by slot

A jet has all that is known about its derivatives along the parameters.  The derivative along one
of them is a jet of one order less: the slot of an exponent holds what was in the slot with one
derivative more (`Tables.along`).  Beside it stand the jets themselves without their highest
order (`Tables.lowerPart`), which the lower table lists.

Both are what an expansion says they are: `expansion_along` and `expansion_lowerPart`.
-/
namespace JetAlgebra
open Tables Exponent Expansion MvPolynomial

/-! ## Exponents with one derivative more -/

namespace Exponent

theorem tuple_add_unit (p j : Nat) (s : Exponent) :
    tuple p (s + unit j) = (tuple p s).modify j (· + 1) := by
  refine List.ext_getElem (by simp) fun i hi _ => ?_
  rcases eq_or_ne j i with rfl | other
  · simp [tuple]
  · simp [tuple, unit, Finsupp.single_eq_of_ne other.symm, other]

theorem Fits.add_unit {p o : Nat} {s : Exponent} (h : Fits p o s) (j : Fin p) :
    Fits p (o + 1) (s + unit j) where
  parameters i hi := by
    rw [Finsupp.add_apply, h.parameters i hi, unit, Finsupp.single_eq_of_ne (by omega), add_zero]
  order := by
    rw [map_add, degree_unit]
    exact Nat.succ_le_succ h.order

end Exponent

/-! ## Jets of one order less -/

section Slots
variable {K : Type} [Field K]

/-- **The slots that the lower table lists**: the jet without its highest order.  Over the rationals
this is `Tables.lowered`. -/
def Tables.lowerPart (t : Tables) (x : List K) : List K := t.lower.map (x.getD · 0)

/-- **The derivative of a jet along parameter `j`**, in a jet like those of the lower tables: each
slot holds what is in the slot with one derivative more. -/
def Tables.along (t low : Tables) (j : Nat) (x : List K) : List K :=
  low.derivatives.map fun n => x.getD (t.slotOf (n.modify j (· + 1))) 0

variable {p o : Nat}

theorem length_lowerPart (x : List K) :
    ((complete p (o + 1)).lowerPart x).length = (complete p o).size := by
  rw [lowerPart, List.length_map, lower_complete, List.length_map, length_derivatives]

theorem length_along (j : Nat) (x : List K) :
    ((complete p (o + 1)).along (complete p o) j x).length = (complete p o).size := by
  rw [along, List.length_map, length_derivatives]

theorem getD_lowerPart {s : Exponent} (hs : Fits p o s) (x : List K) :
    ((complete p (o + 1)).lowerPart x).getD (place p o s) 0 = x.getD (place p (o + 1) s) 0 := by
  rw [lowerPart, lower_complete, List.map_map, List.getD_eq_getElem?_getD, List.getElem?_map,
    getElem?_place hs]
  rfl

theorem getD_along {s : Exponent} (hs : Fits p o s) (j : Nat) (x : List K) :
    ((complete p (o + 1)).along (complete p o) j x).getD (place p o s) 0 =
      x.getD (place p (o + 1) (s + unit j)) 0 := by
  rw [along, List.getD_eq_getElem?_getD, List.getElem?_map, getElem?_place hs, place,
    tuple_add_unit]
  rfl

variable [CharZero K]

/-- **Without its highest order** a jet expands to what its expansion is up to there. -/
theorem expansion_lowerPart (x : List K) : expansion p o ((complete p (o + 1)).lowerPart x) =
    upTo (Nat.le_succ o) (expansion p (o + 1) x) := by
  rw [expansion.eq_def p (o + 1), upTo_truncated]
  refine expansion_eq_truncated fun s hs => ?_
  rw [getD_lowerPart hs, coeff_jetPolynomial hs.lift,
    mul_div_cancel₀ _ (Nat.cast_ne_zero.mpr (factorial_pos s).ne')]

/-- **The derivative of a jet** expands to the derivative of its expansion. -/
theorem expansion_along (j : Fin p) (x : List K) :
    expansion p o ((complete p (o + 1)).along (complete p o) j x) =
      derivative (Nat.lt_succ_self o) j (expansion p (o + 1) x) := by
  rw [expansion.eq_def p (o + 1), derivative_truncated]
  refine expansion_eq_truncated fun s hs => ?_
  have whole : (factorial s : K) ≠ 0 := Nat.cast_ne_zero.mpr (factorial_pos s).ne'
  have next : ((s j : K) + 1) ≠ 0 := Nat.cast_add_one_ne_zero (s j)
  rw [getD_along hs, coeff_pderiv, ← unit, coeff_jetPolynomial (hs.add_unit j),
    factorial_add_unit, Nat.cast_mul, Nat.cast_succ]
  field_simp

end Slots

end JetAlgebra
