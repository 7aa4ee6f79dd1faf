import Mathlib.Logic.Equiv.Fintype
import JetAlgebra.Proofs.Substitution
import JetAlgebra.Proofs.TruncatedProduct

/-!
# Jets of other signatures with the same derivatives

The same derivatives can be kept in jets of different signatures.  There may be fewer orders,
and then the slots of the highest order are left out (`lowered`); there may be one parameter
more, on which nothing depends (`padded`); or the parameters may be numbered in another way
(`permuted`).

`Relabels` is what the three have in common: the slot of an exponent goes to the slot of the
exponent with its parameters renamed, and other slots are zero.  In the expansion the
parameters are renamed (`expansion_relabels`), and that is a map of algebras: `relabelling`.
-/
namespace JetAlgebra
open Tables Exponent MvPolynomial

variable {K : Type} [Field K]

/-! ## Renaming parameters -/

namespace Exponent

theorem mapDomain_surjective (σ : Equiv.Perm Nat) (n : Exponent) :
    ∃ s : Exponent, s.mapDomain σ = n := by
  refine ⟨n.mapDomain σ.symm, ?_⟩
  rw [← Finsupp.mapDomain_comp, Equiv.self_comp_symm, Finsupp.mapDomain_id]

theorem factorial_mapDomain (σ : Equiv.Perm Nat) (s : Exponent) :
    factorial (s.mapDomain σ) = factorial s :=
  Finsupp.prod_mapDomain_index_inj σ.injective

end Exponent

section Relabelling
variable {p o q k : Nat} (σ : Equiv.Perm Nat)

/-- The renamed parameters of a `(p, o)` jet, which has no others. -/
noncomputable def renamed (K : Type) [Field K] (p q k : Nat) (σ : Equiv.Perm Nat) (j : Nat) :
    Expansion q k K :=
  if j < p then truncated q k (X (σ j)) else 0

theorem prod_renamed {s : Exponent} (hs : ∀ j, p ≤ j → s j = 0) :
    (s.prod fun j n => renamed K p q k σ j ^ n) = truncated q k (monomial (s.mapDomain σ) 1) := by
  rw [monomial_eq, Finsupp.prod_mapDomain_index_inj σ.injective, map_mul, map_one, map_one,
    one_mul, Finsupp.prod, Finsupp.prod, map_prod]
  refine Finset.prod_congr rfl fun j hj => ?_
  have parameter : j < p := Nat.lt_of_not_le fun h => Finsupp.mem_support_iff.mp hj (hs j h)
  rw [renamed, if_pos parameter, map_pow]

/-- No derivative beyond the order gets a slot, if the order is not raised. -/
theorem prod_renamed_of_not_fits (ho : k ≤ o) (s : Exponent) (hs : ¬ Fits p o s) :
    (s.prod fun j n => renamed K p q k σ j ^ n) = 0 := by
  by_cases other : ∃ j, p ≤ j ∧ s j ≠ 0
  · obtain ⟨j, hj, hsj⟩ := other
    refine Finset.prod_eq_zero (Finsupp.mem_support_iff.mpr hsj) ?_
    show renamed K p q k σ j ^ s j = 0
    rw [renamed, if_neg (Nat.not_lt.mpr hj), zero_pow hsj]
  · have parameters : ∀ j, p ≤ j → s j = 0 := fun j hj =>
      Classical.byContradiction fun h => other ⟨j, hj, h⟩
    rw [prod_renamed σ parameters, ← map_zero (truncated q k)]
    refine truncated_eq_iff.mpr fun n hn => ?_
    rw [coeff_zero, coeff_monomial, if_neg]
    rintro rfl
    have order := hn.order
    rw [Finsupp.degree_mapDomain] at order
    exact hs ⟨parameters, order.trans ho⟩

/-- **Renaming the parameters**, as a map of expansions. -/
noncomputable def relabelling (K : Type) [Field K] (p q : Nat) (ho : k ≤ o) :
    Expansion p o K →ₐ[K] Expansion q k K :=
  substitute (renamed K p q k σ) (prod_renamed_of_not_fits σ ho)

theorem relabelling_expansion (ho : k ≤ o) (x : List K) :
    relabelling σ K p q ho (expansion p o x) =
      truncated q k (rename σ (jetPolynomial p o x)) := by
  rw [relabelling, expansion, substitute_truncated, jetPolynomial, map_sum, map_sum, map_sum]
  refine Finset.sum_congr rfl fun s hs => ?_
  have term : monomial (s.mapDomain σ) (x.getD (place p o s) 0 / (factorial s : K)) =
      C (x.getD (place p o s) 0 / (factorial s : K)) * monomial (s.mapDomain σ) 1 := by
    rw [C_mul_monomial, mul_one]
  rw [aeval_monomial, prod_renamed σ (mem_box.mp hs).parameters, rename_monomial, term, map_mul,
    truncated_C]

/-- **The same derivatives with renamed parameters.**  The slot of an exponent goes to the slot
of the renamed exponent, and there is nothing in the other slots. -/
structure Relabels (p o q k : Nat) (σ : Equiv.Perm Nat) (x y : List K) : Prop where
  length : x.length = (complete p o).size
  length_right : y.length = (complete q k).size
  same : ∀ s, Fits p o s → Fits q k (s.mapDomain σ) →
    y.getD (place q k (s.mapDomain σ)) 0 = x.getD (place p o s) 0
  none : ∀ s, ¬ Fits p o s → Fits q k (s.mapDomain σ) →
    y.getD (place q k (s.mapDomain σ)) 0 = 0

/-- The value stays where it is. -/
theorem Relabels.value {x y : List K} (h : Relabels p o q k σ x y) : y.getD 0 0 = x.getD 0 0 := by
  have zero := h.same 0 (fits_zero p o) (by rw [Finsupp.mapDomain_zero]; exact fits_zero q k)
  rwa [Finsupp.mapDomain_zero, place_zero, place_zero] at zero

/-- **The expansion is the renamed one.** -/
theorem Relabels.expansion_eq [CharZero K] {x y : List K} (h : Relabels p o q k σ x y)
    (ho : k ≤ o) : expansion q k y = relabelling σ K p q ho (expansion p o x) := by
  rw [relabelling_expansion]
  refine expansion_eq_truncated fun n hn => ?_
  obtain ⟨s, rfl⟩ := mapDomain_surjective σ n
  rw [coeff_rename_mapDomain σ σ.injective, factorial_mapDomain]
  by_cases hs : Fits p o s
  · rw [h.same s hs hn, coeff_jetPolynomial hs,
      mul_div_cancel₀ _ (Nat.cast_ne_zero.mpr (factorial_pos s).ne')]
  · rw [h.none s hs hn, coeff_jetPolynomial_of_not_fits hs, mul_zero]

end Relabelling

namespace Tables

/-- More parameters and more orders need more slots. -/
theorem size_le_size {p p' o o' : Nat} (hp : p ≤ p') (ho : o ≤ o') :
    (complete p o).size ≤ (complete p' o').size := by
  rw [size_complete, size_complete]
  calc (p + o).choose o ≤ (p' + o).choose o := Nat.choose_le_choose o (by omega)
    _ = (p' + o).choose p' := Nat.choose_symm_add.symm
    _ ≤ (p' + o').choose p' := Nat.choose_le_choose p' (by omega)
    _ = (p' + o').choose o' := Nat.choose_symm_add

theorem size_eq_one_of_le {p p' o o' : Nat} (hp : p ≤ p') (ho : o ≤ o')
    (h : (complete p' o').size = 1) : (complete p o).size = 1 :=
  Nat.le_antisymm (h ▸ size_le_size hp ho) (size_pos p o)

/-! ## Fewer orders -/

/-- The slots of a jet that are listed by the lower table. -/
def lowered (t : Tables) (x : List Rat) : List Rat := t.lower.map (x.getD · 0)

theorem mapDomain_one (s : Exponent) : s.mapDomain (1 : Equiv.Perm Nat) = s := Finsupp.mapDomain_id

theorem relabels_lowered {p o : Nat} {x : List Rat} (hx : x.length = (complete p (o + 1)).size) :
    Relabels p (o + 1) p o 1 x ((complete p (o + 1)).lowered x) where
  length := hx
  length_right := by
    rw [lowered, List.length_map, lower_complete, List.length_map, length_derivatives]
  same s _ hn := by
    rw [mapDomain_one] at hn ⊢
    rw [lowered, lower_complete, List.map_map, List.getD_eq_getElem?_getD, List.getElem?_map,
      getElem?_place hn]
    rfl
  none s hs hn := by
    rw [mapDomain_one] at hn
    exact absurd hn.lift hs

/-! ## One parameter more -/

/-- A jet with another parameter, on which nothing depends: all derivatives along it are
zero. -/
def padded (t : Tables) (x : List Rat) : List Rat :=
  x ++ List.replicate (t.size - x.length) 0

/-- The slots of the other parameters stay where they are. -/
theorem place_succ {p o : Nat} {s : Exponent} (hs : Fits p o s) :
    place (p + 1) o s = place p o s := by
  cases o with
  | zero => rw [hs.eq_zero_of_edge, place_zero, place_zero]
  | succ o => exact place_value hs

/-- The slots of the new parameter are behind them. -/
theorem size_le_place {p o : Nat} {s : Exponent} (hs : ¬ Fits p o s) (hn : Fits (p + 1) o s) :
    (complete p o).size ≤ place (p + 1) o s := by
  cases o with
  | zero => exact absurd (hn.eq_zero_of_edge ▸ fits_zero p 0) hs
  | succ o =>
    obtain h | ⟨s, -, rfl⟩ := hn.cases
    · exact absurd h hs
    · rw [place_raise]
      exact Nat.le_add_right _ _

theorem relabels_padded {p o : Nat} {x : List Rat} (hx : x.length = (complete p o).size) :
    Relabels p o (p + 1) o 1 x ((complete (p + 1) o).padded x) where
  length := hx
  length_right := by
    have smaller := size_le_size (Nat.le_succ p) (Nat.le_refl o)
    rw [padded, List.length_append, List.length_replicate, hx, Nat.add_sub_cancel' smaller]
  same s hs _ := by
    have within : place p o s < x.length := hx ▸ place_lt hs
    rw [mapDomain_one, place_succ hs, padded, List.getD_append _ _ _ _ within]
  none s hs hn := by
    rw [mapDomain_one] at hn ⊢
    rw [padded, List.getD_append_right _ _ _ _ (hx ▸ size_le_place hs hn), getD_replicate_zero]

end Tables

/-! ## Parameters in another order -/

section Permuted
variable {p o : Nat} (σ : Equiv.Perm (Fin p))

/-- The orders of derivation of parameters that are numbered in another way. -/
def Orders.permuted (n : Orders) : Orders := List.ofFn fun j => n.getD (σ j) 0

/-- The jet of the same function with its parameters numbered in another way. -/
def Tables.permuted (t : Tables) (x : List Rat) : List Rat :=
  t.derivatives.map fun n => x.getD (t.slotOf (Orders.permuted σ n)) 0

/-- The permutation of all parameters that leaves those alone that a jet does not have. -/
def renumbered : Equiv.Perm Nat := σ.extendDomain Fin.equivSubtype

theorem renumbered_apply (j : Fin p) : renumbered σ j = σ j :=
  Equiv.Perm.extendDomain_apply_image σ Fin.equivSubtype j

theorem renumbered_of_le {j : Nat} (hj : p ≤ j) : renumbered σ j = j :=
  Equiv.Perm.extendDomain_apply_not_subtype σ Fin.equivSubtype (Nat.not_lt.mpr hj)

theorem permuted_tuple (s : Exponent) :
    Orders.permuted σ (tuple p (s.mapDomain (renumbered σ))) = tuple p s := by
  refine List.ext_getElem (by simp [Orders.permuted]) fun i hi _ => ?_
  have parameter : i < p := by simpa [Orders.permuted] using hi
  have back : (renumbered σ).symm (σ ⟨i, parameter⟩) = i :=
    (Equiv.symm_apply_eq _).mpr (renumbered_apply σ ⟨i, parameter⟩).symm
  simp [Orders.permuted, tuple, back]

theorem fits_of_renumbered {s : Exponent} (h : Fits p o (s.mapDomain (renumbered σ))) :
    Fits p o s where
  parameters j hj := by
    have zero := h.parameters j hj
    rwa [← renumbered_of_le σ hj, Finsupp.mapDomain_apply (renumbered σ).injective] at zero
  order := by
    have order := h.order
    rwa [Finsupp.degree_mapDomain] at order

theorem relabels_permuted {x : List Rat} (hx : x.length = (complete p o).size) :
    Relabels p o p o (renumbered σ) x ((complete p o).permuted σ x) where
  length := hx
  length_right := by rw [permuted, List.length_map, length_derivatives]
  same s _ hn := by
    rw [permuted, List.getD_eq_getElem?_getD, List.getElem?_map, getElem?_place hn,
      Option.map_some, permuted_tuple]
    rfl
  none s hs hn := absurd (fits_of_renumbered σ hn) hs

end Permuted

end JetAlgebra
