import JetAlgebra.Proofs.ExactJets
import JetAlgebra.Proofs.Expansion

/-!
# Products and compositions of expansions

The expansion of a product of jets is the product of the expansions (`expansion_mulExact`): the
binomial coefficients of the Leibniz rule are what the factorials of the two factors need.

The expansion of a composition is the Taylor sum of the outer function at the jet without its
value (`expansion_composeExact`).  By the multinomial theorem a power of that jet is a sum over
multisets of its terms; those of one exponent are its splittings, each as often as its parts
can be ordered, and `Splitting.countPerms_mul_share` turns orderings into shares.
-/
namespace JetAlgebra
open Tables Exponent Splitting MvPolynomial
open Finset.HasAntidiagonal (antidiagonal mem_antidiagonal)

variable {K : Type} [Field K] {p o : Nat}

/-! ## Products -/

/-- **A slot of a product** is a sum over the pairs of exponents. -/
theorem getD_mulExact [CharZero K] {n : Exponent} (hn : Fits p o n) (a b : List K) :
    ((complete p o).mulExact a b).getD (place p o n) 0 =
      ∑ x ∈ antidiagonal n, (factorial n : K) / (factorial x.1 * factorial x.2 : Nat) *
        (a.getD (place p o x.1) 0 * b.getD (place p o x.2) 0) := by
  obtain ⟨row, hrow, hr⟩ := isLeibnizRow_product hn
  rw [mulExact, List.getD_eq_getElem?_getD, List.getElem?_map, hrow]
  exact hr.sum_map (factorial_pos n).ne' (fun _ => mem_antidiagonal)
    (fun _ _ hx hy he => IsLeibnizRow.places_injective hn hx hy he)
    (fun x _ => Nat.mul_pos (factorial_pos x.1) (factorial_pos x.2))
    (fun k : SlotPair => a.getD k.left 0 * b.getD k.right 0)

/-- **The expansion of a product is the product of the expansions.** -/
theorem expansion_mulExact [CharZero K] (a b : List K) :
    expansion p o ((complete p o).mulExact a b) = expansion p o a * expansion p o b := by
  rw [expansion, expansion, expansion, ← map_mul]
  refine expansion_eq_truncated fun n hn => ?_
  rw [getD_mulExact hn, coeff_mul, Finset.mul_sum]
  refine Finset.sum_congr rfl fun x hx => ?_
  obtain ⟨hl, hr⟩ := hn.of_add_eq (mem_antidiagonal.mp hx)
  rw [coeff_jetPolynomial hl, coeff_jetPolynomial hr, Nat.cast_mul, div_mul_div_comm,
    div_mul_eq_mul_div, mul_div_assoc]

/-! ## Compositions -/

/-- **A slot of a composition** is a sum over the splittings of its exponent. -/
theorem getD_composeExact [CharZero K] {n : Exponent} (hn : Fits p o n) (g f : List K) :
    ((complete p o).composeExact g f).getD (place p o n) 0 =
      ∑ S ∈ splittings p o n, (factorial n : K) / share S *
        (f.getD S.card 0 * (S.map fun s => g.getD (place p o s) 0).prod) := by
  obtain ⟨row, hrow, hr⟩ := isChainRow_composition hn
  rw [composeExact, List.getD_eq_getElem?_getD, List.getElem?_map, hrow]
  refine (hr.sum_map (factorial_pos n).ne' (fun _ => mem_splittings hn)
    (fun _ _ hS hT he => factors_injective (hS.fits hn) (hT.fits hn) he) (fun S _ => share_pos S)
    (fun k : ChainFactors => f.getD k.derivative 0 * (k.slots.map (g.getD · 0)).prod)).trans ?_
  refine Finset.sum_congr rfl fun S _ => ?_
  have slots : ((factors p o S).slots.map (g.getD · 0)).prod =
      (S.map fun s => g.getD (place p o s) 0).prod := by
    rw [← Multiset.prod_coe, ← Multiset.map_coe, coe_slots_factors, Multiset.map_map]
    rfl
  rw [slots]
  rfl

/-- The terms of the Taylor polynomial other than the value. -/
noncomputable def derivativePart (p o : Nat) (g : List K) : MvPolynomial Nat K :=
  ∑ s ∈ (box p o).erase 0, monomial s (g.getD (place p o s) 0 / (factorial s : K))

theorem truncated_derivativePart [CharZero K] (g : List K) :
    truncated p o (derivativePart p o g) = expansion p o (g.set 0 0) := by
  have value : monomial (0 : Exponent) (g.getD (place p o 0) 0 / (factorial 0 : K)) =
      C (g.getD 0 0) := by
    rw [place_zero, factorial_zero, Nat.cast_one, div_one]
    rfl
  rw [derivativePart, Finset.sum_erase_eq_sub (mem_box.mpr (fits_zero p o)), map_sub, value,
    truncated_C, expansion_set_zero]
  rfl

theorem prod_map_monomial (c : Exponent → K) (S : Multiset Exponent) :
    (S.map fun s => monomial s (c s)).prod = monomial S.sum (S.map c).prod := by
  induction S using Multiset.induction_on with
  | empty => rfl
  | cons s S ih =>
    rw [Multiset.map_cons, Multiset.prod_cons, ih, monomial_mul, Multiset.sum_cons,
      Multiset.map_cons, Multiset.prod_cons]

/-- **A coefficient of a power** is a sum over the multisets of terms of its exponent. -/
theorem coeff_derivativePart_pow (g : List K) (k : Nat) (n : Exponent) :
    coeff n (derivativePart p o g ^ k) =
      ∑ S ∈ (partLists p o k).filter fun S => S.sum = n, (S.countPerms : K) *
        (S.map fun s => g.getD (place p o s) 0 / (factorial s : K)).prod := by
  rw [derivativePart, Finset.sum_pow, coeff_sum, Finset.sum_filter, partLists,
    Finset.sum_image fun S _ T _ h => Sym.coe_injective h]
  refine Finset.sum_congr rfl fun S _ => ?_
  rw [prod_map_monomial, ← nsmul_eq_mul, coeff_smul, coeff_monomial, nsmul_eq_mul, mul_ite,
    mul_zero]
  rfl

/-- What a splitting brings to the Taylor sum is its term of the composition. -/
theorem taylor_term [CharZero K] (n : Exponent) (S : Multiset Exponent) (c : K) (v : Exponent → K) :
    (factorial n : K) * (c / S.card.factorial *
        (S.countPerms * (S.map fun s => v s / (factorial s : K)).prod)) =
      factorial n / share S * (c * (S.map v).prod) := by
  have parts : (S.map fun s => (factorial s : K)).prod = ((S.map factorial).prod : Nat) := by
    rw [Nat.cast_multiset_prod, Multiset.map_map]
    rfl
  have orderings : (S.countPerms : K) * share S = S.card.factorial * (S.map factorial).prod := by
    exact_mod_cast countPerms_mul_share S
  have h₁ : (share S : K) ≠ 0 := Nat.cast_ne_zero.mpr (share_pos S).ne'
  have h₂ : (S.card.factorial : K) ≠ 0 := Nat.cast_ne_zero.mpr S.card.factorial_ne_zero
  have h₃ : ((S.map factorial).prod : K) ≠ 0 := Nat.cast_ne_zero.mpr (prod_factorial_pos S).ne'
  rw [Multiset.prod_map_div, parts]
  field_simp
  linear_combination (factorial n * c * (S.map v).prod : K) * orderings

/-- **The expansion of a composition is the Taylor sum** of the outer function, at the jet
without its value. -/
theorem expansion_composeExact [CharZero K] (g f : List K) :
    expansion p o ((complete p o).composeExact g f) =
      ∑ k ∈ Finset.range (o + 1), (f.getD k 0 / (k.factorial : K)) •
        expansion p o (g.set 0 0) ^ k := by
  -- The sum is what is left of a polynomial, whose coefficients are known.
  have pull : ∑ k ∈ Finset.range (o + 1), (f.getD k 0 / (k.factorial : K)) •
        expansion p o (g.set 0 0) ^ k =
      truncated p o (∑ k ∈ Finset.range (o + 1), (f.getD k 0 / (k.factorial : K)) •
        derivativePart p o g ^ k) := by
    rw [map_sum]
    refine Finset.sum_congr rfl fun k _ => ?_
    rw [map_smul, map_pow, truncated_derivativePart]
  rw [pull]
  refine expansion_eq_truncated fun n hn => ?_
  rw [getD_composeExact hn, sum_splittings, coeff_sum, Finset.mul_sum]
  refine Finset.sum_congr rfl fun k _ => ?_
  rw [coeff_smul, coeff_derivativePart_pow, Finset.smul_sum, Finset.mul_sum]
  refine Finset.sum_congr rfl fun S hS => ?_
  obtain ⟨rfl, -⟩ := mem_partLists.mp (Finset.mem_filter.mp hS).1
  rw [smul_eq_mul, taylor_term]

end JetAlgebra
