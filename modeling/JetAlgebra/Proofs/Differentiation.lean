import Mathlib.Algebra.MvPolynomial.PDeriv
import JetAlgebra.Proofs.IntegerPowers
import JetAlgebra.Proofs.Relabelling

/-!
# Differentiating expansions

An expansion can be differentiated along each of its parameters.  One order is lost, so what is
left of the derivative is known up to every lower order: `Expansion.derivative`, a linear map
with the product rule over the map that forgets the same orders (`Expansion.upTo`).

An expansion without derivatives is a constant (`eq_algebraMap_of_derivative_eq_zero`), so two
jets agree in all slots but the value if their derivatives do (`getD_eq_of_derivative_eq`).  The
derivative of a composition is what the chain rule says (`derivative_composeExact`): the
composition with the derivatives of the outer function from the first one on, times the
derivative of the jet.  So an identity of elementary functions is proved for jets as it is for
functions, by differentiating it.
-/
namespace JetAlgebra
open Tables Exponent MvPolynomial

variable {K : Type} [Field K] {p o k : Nat}

namespace Expansion

/-! ## Fewer orders -/

/-- **What an expansion is up to a lower order.** -/
noncomputable def upTo (hk : k ≤ o) : Expansion p o K →ₐ[K] Expansion p k K :=
  relabelling 1 K p p hk

/-- A parameter that the jet does not have is no part of an expansion. -/
theorem truncated_X_of_le {j : Nat} (hj : p ≤ j) :
    truncated p o (X j : MvPolynomial Nat K) = 0 := by
  rw [← map_zero (truncated p o)]
  refine truncated_eq_iff.mpr fun n hn => ?_
  rw [coeff_X, coeff_zero, if_neg]
  rintro rfl
  have absent := hn.parameters j hj
  rw [Finsupp.single_eq_same] at absent
  exact one_ne_zero absent

theorem upTo_truncated (hk : k ≤ o) (F : MvPolynomial Nat K) :
    upTo hk (truncated p o F) = truncated p k F := by
  have parameters : renamed K p p k 1 = truncated p k ∘ X := by
    funext j
    rw [renamed, Equiv.Perm.one_apply]
    split
    · rfl
    · next hj => exact (truncated_X_of_le (Nat.not_lt.mp hj)).symm
  rw [upTo, relabelling, substitute_truncated, parameters, ← aeval_unique]

/-! ## Derivatives along a parameter -/

/-- Without the coefficients that the jet has a slot for, there are none of a derivative. -/
theorem pderiv_mem_beyond (hk : k < o) (j : Fin p) {F : MvPolynomial Nat K}
    (hF : F ∈ beyond p o K) : pderiv (j : Nat) F ∈ beyond p k K := by
  intro n hn
  have above : Fits p o (n + unit j) := by
    refine ⟨fun i hi => ?_, ?_⟩
    · rw [Finsupp.add_apply, hn.parameters i hi, unit, Finsupp.single_eq_of_ne (by omega),
        add_zero]
    · rw [map_add, degree_unit]
      exact (Nat.succ_le_succ hn.order).trans hk
  exact (coeff_pderiv F n).trans (mul_eq_zero_of_left (hF _ above) _)

theorem beyond_le_ker_pderiv (hk : k < o) (j : Fin p) : (beyond p o K).restrictScalars K ≤
    LinearMap.ker ((truncated p k).toLinearMap ∘ₗ
      (pderiv (j : Nat) : Derivation K (MvPolynomial Nat K) _).toLinearMap) :=
  fun _ hF => Ideal.Quotient.eq_zero_iff_mem.mpr (pderiv_mem_beyond hk j hF)

/-- **The derivative of an expansion** along a parameter, up to a lower order. -/
noncomputable def derivative (hk : k < o) (j : Fin p) : Expansion p o K →ₗ[K] Expansion p k K :=
  ((beyond p o K).restrictScalars K).liftQ _ (beyond_le_ker_pderiv hk j) ∘ₗ
    (Submodule.Quotient.restrictScalarsEquiv K (beyond p o K)).symm.toLinearMap

/-- Such a map is applied without a search for what the quotient is. -/
noncomputable instance : CoeFun (Expansion p o K →ₗ[K] Expansion p k K)
    fun _ => Expansion p o K → Expansion p k K := ⟨DFunLike.coe⟩

theorem derivative_truncated (hk : k < o) (j : Fin p) (F : MvPolynomial Nat K) :
    derivative hk j (truncated p o F) = truncated p k (pderiv (j : Nat) F) := rfl

theorem exists_truncated (x : Expansion p o K) : ∃ F, x = truncated p o F :=
  (Ideal.Quotient.mk_surjective x).imp fun _ h => h.symm

variable (hk : k < o) (j : Fin p)

/-- **The product rule.** -/
theorem derivative_mul (x y : Expansion p o K) : derivative hk j (x * y) =
    derivative hk j x * upTo hk.le y + upTo hk.le x * derivative hk j y := by
  obtain ⟨F, rfl⟩ := exists_truncated x
  obtain ⟨G, rfl⟩ := exists_truncated y
  rw [← map_mul, derivative_truncated, pderiv_mul, map_add, map_mul, map_mul, upTo_truncated,
    upTo_truncated, derivative_truncated, derivative_truncated]

/-- A constant has no derivatives. -/
theorem derivative_algebraMap (c : K) :
    derivative hk j (algebraMap K (Expansion p o K) c) = 0 := by
  rw [← truncated_C, derivative_truncated, pderiv_C, map_zero]

theorem derivative_pow (x : Expansion p o K) (n : Nat) : derivative hk j (x ^ (n + 1)) =
    ((n : K) + 1) • (upTo hk.le x ^ n * derivative hk j x) := by
  induction n with
  | zero => rw [zero_add, pow_one, pow_zero, one_mul, Nat.cast_zero, zero_add, one_smul]
  | succ n ih =>
    rw [pow_succ, derivative_mul, ih, map_pow, smul_mul_assoc, mul_right_comm, ← pow_succ,
      Nat.cast_succ, add_smul ((n : K) + 1), one_smul]

/-! ## Expansions without derivatives -/

/-- A coefficient of a derivative decides one of the expansion. -/
theorem coeff_eq_of_derivative_eq [CharZero K] {F G : MvPolynomial Nat K}
    (h : ∀ k (hk : k < o) (j : Fin p),
      derivative hk j (truncated p o F) = derivative hk j (truncated p o G))
    {n : Exponent} (hn : Fits p o n) (hn0 : n ≠ 0) : coeff n F = coeff n G := by
  obtain ⟨j, hj⟩ := Finsupp.ne_iff.mp hn0
  have parameter : j < p := Nat.lt_of_not_le fun hp => hj (hn.parameters j hp)
  obtain ⟨s, rfl⟩ := exists_add_unit (Nat.pos_of_ne_zero hj)
  have order := hn.order
  rw [map_add, degree_unit] at order
  have lower : Fits p s.degree s := ⟨(hn.of_le le_self_add).parameters, Nat.le_refl _⟩
  have derived := h s.degree order ⟨j, parameter⟩
  rw [derivative_truncated, derivative_truncated] at derived
  have same := truncated_eq_iff.mp derived s lower
  rw [coeff_pderiv, coeff_pderiv] at same
  exact mul_right_cancel₀ (Nat.cast_add_one_ne_zero (s j)) same

/-- **Without derivatives there is a constant.** -/
theorem eq_algebraMap_of_derivative_eq_zero [CharZero K] {x : Expansion p o K}
    (h : ∀ k (hk : k < o) (j : Fin p), derivative hk j x = 0) : ∃ c, x = algebraMap K _ c := by
  obtain ⟨F, rfl⟩ := exists_truncated x
  refine ⟨coeff 0 F, ?_⟩
  rw [← truncated_C]
  refine truncated_eq_iff.mpr fun n hn => ?_
  rcases eq_or_ne n 0 with rfl | hn0
  · rw [coeff_C, if_pos rfl]
  · refine coeff_eq_of_derivative_eq (fun k hk j => (h k hk j).trans ?_) hn hn0
    rw [truncated_C, derivative_algebraMap]

/-- **With the same logarithmic derivative** there is a constant factor. -/
theorem exists_eq_smul_of_derivative_eq [CharZero K] {x : Expansion p o K}
    {u : (Expansion p o K)ˣ} (h : ∀ k (hk : k < o) (j : Fin p),
      derivative hk j x * upTo hk.le u = upTo hk.le x * derivative hk j u) :
    ∃ c : K, x = c • (u : Expansion p o K) := by
  obtain ⟨c, hc⟩ : ∃ c, x * (u⁻¹ : (Expansion p o K)ˣ) = algebraMap K _ c := by
    refine eq_algebraMap_of_derivative_eq_zero fun k hk j => ?_
    have inverse : upTo hk.le (u⁻¹ : (Expansion p o K)ˣ) * upTo hk.le (u : Expansion p o K) = 1 := by
      rw [← map_mul, Units.inv_mul, map_one]
    have cancelled : derivative hk j (u : Expansion p o K) * upTo hk.le (u⁻¹ : (Expansion p o K)ˣ) +
        upTo hk.le (u : Expansion p o K) * derivative hk j (u⁻¹ : (Expansion p o K)ˣ) = 0 := by
      rw [← derivative_mul, Units.mul_inv, ← map_one (algebraMap K _), derivative_algebraMap]
    rw [derivative_mul]
    linear_combination (upTo hk.le (u⁻¹ : (Expansion p o K)ˣ) ^ 2) * h k hk j +
      (upTo hk.le x * upTo hk.le (u⁻¹ : (Expansion p o K)ˣ)) * cancelled -
      (derivative hk j x * upTo hk.le (u⁻¹ : (Expansion p o K)ˣ) +
        upTo hk.le x * derivative hk j (u⁻¹ : (Expansion p o K)ˣ)) * inverse
  refine ⟨c, ?_⟩
  rw [smul_eq, ← hc, mul_assoc, Units.inv_mul, mul_one]

end Expansion

open Expansion

/-! ## Jets -/

variable [CharZero K]

/-- **Jets with the same derivatives** agree in all slots but the value. -/
theorem getD_eq_of_derivative_eq {a b : List K} (ha : a.length = (complete p o).size)
    (hb : b.length = (complete p o).size)
    (h : ∀ k (hk : k < o) (j : Fin p),
      derivative hk j (expansion p o a) = derivative hk j (expansion p o b))
    {i : Nat} (hi : 1 ≤ i) : a.getD i 0 = b.getD i 0 := by
  rcases Nat.lt_or_ge i (complete p o).size with inside | outside
  · obtain ⟨n, hn, rfl⟩ := exists_place inside
    have hn0 : n ≠ 0 := fun hz => absurd ((place_eq_zero_iff hn).mpr hz) (by omega)
    have same := coeff_eq_of_derivative_eq h hn hn0
    rwa [coeff_jetPolynomial hn, coeff_jetPolynomial hn,
      div_left_inj' (Nat.cast_ne_zero.mpr (factorial_pos n).ne')] at same
  · rw [List.getD_eq_default _ _ (ha ▸ outside), List.getD_eq_default _ _ (hb ▸ outside)]

/-- **A jet without derivatives** is a value and zeros. -/
theorem eq_constant_of_derivative_eq_zero {a : List K} (ha : a.length = (complete p o).size)
    (h : ∀ k (hk : k < o) (j : Fin p), derivative hk j (expansion p o a) = 0) :
    a = a.getD 0 0 :: List.replicate ((complete p o).size - 1) 0 := by
  obtain ⟨c, hc⟩ := eq_algebraMap_of_derivative_eq_zero h
  have same : a = c :: List.replicate ((complete p o).size - 1) 0 :=
    eq_of_expansion_eq ha (length_constant p o c 0) (hc.trans (expansion_constant p o c _).symm)
  rw [same]
  rfl

/-! ## The chain rule -/

section ChainRule
variable (hk : k < o) (j : Fin p)

theorem upTo_expansion_set_zero_pow (g : List K) :
    upTo hk.le (expansion p o (g.set 0 0)) ^ o = 0 := by
  rw [← truncated_derivativePart, ← map_pow, ← map_pow, upTo_truncated,
    ← map_zero (truncated p k)]
  refine truncated_eq_iff.mpr fun n hn => ?_
  rw [coeff_derivativePart_pow_of_degree_lt g (hn.order.trans_lt hk), coeff_zero]

theorem derivative_expansion_set_zero (g : List K) :
    derivative hk j (expansion p o (g.set 0 0)) = derivative hk j (expansion p o g) := by
  rw [expansion_set_zero, map_sub, derivative_algebraMap, sub_zero]

/-- **The chain rule**: if the derivatives of one outer function from the first one on are a
multiple of those of another one, then the derivative of its composition is the composition with
the other one, times the derivative of the jet. -/
theorem derivative_composeExact {f f' : List K} {c : K}
    (h : ∀ i < o, f.getD (i + 1) 0 = c * f'.getD i 0) (g : List K) :
    derivative hk j (expansion p o ((complete p o).composeExact g f)) =
      c • (upTo hk.le (expansion p o ((complete p o).composeExact g f')) *
        derivative hk j (expansion p o g)) := by
  have inner := derivative_expansion_set_zero hk j g
  -- The last power of the other composition vanishes, and so no derivative is missing.
  have shorter : upTo hk.le (expansion p o ((complete p o).composeExact g f')) =
      ∑ i ∈ Finset.range o, (f'.getD i 0 / (i.factorial : K)) •
        upTo hk.le (expansion p o (g.set 0 0)) ^ i := by
    rw [expansion_composeExact, map_sum, Finset.sum_range_succ, map_smul, map_pow,
      upTo_expansion_set_zero_pow hk, smul_zero, add_zero]
    exact Finset.sum_congr rfl fun i _ => by rw [map_smul, map_pow]
  rw [expansion_composeExact, map_sum, Finset.sum_range_succ', pow_zero, map_smul, ← map_one
    (algebraMap K (Expansion p o K)), derivative_algebraMap, smul_zero, add_zero, shorter,
    Finset.sum_mul, Finset.smul_sum]
  refine Finset.sum_congr rfl fun i hi => ?_
  have next : ((i : K) + 1) ≠ 0 := Nat.cast_add_one_ne_zero i
  have coefficient : f.getD (i + 1) 0 / ((i + 1).factorial : K) * ((i : K) + 1) =
      c * (f'.getD i 0 / (i.factorial : K)) := by
    rw [h i (Finset.mem_range.mp hi), Nat.factorial_succ, Nat.cast_mul, Nat.cast_succ]
    field_simp
  rw [map_smul, derivative_pow, inner, smul_smul, coefficient, ← smul_smul, smul_mul_assoc]

omit [CharZero K] in
/-- The derivatives of `x^n` from the first one on are `n` times those of `x^(n - 1)`. -/
theorem Outer.getD_succ_zpowDerivatives (n : Int) (x : K) {order i : Nat} (hi : i < order) :
    (zpowDerivatives n x order).getD (i + 1) 0 =
      n * (zpowDerivatives (n - 1) x order).getD i 0 := by
  have below : n - ((i + 1 : Nat) : Int) = n - 1 - i := by omega
  have factors := falling_succ_left (n - 1) i
  rw [sub_add_cancel] at factors
  rw [getD_zpowDerivatives n x hi, getD_zpowDerivatives (n - 1) x hi.le, below, factors,
    Int.cast_mul]
  ring

omit [CharZero K] in
/-- A unit and its inverse cancel at a lower order as well. -/
theorem upTo_inv_mul {g : List K} {u : (Expansion p o K)ˣ} (hu : u = expansion p o g) :
    upTo hk.le (u⁻¹ : (Expansion p o K)ˣ) * upTo hk.le (expansion p o g) = 1 := by
  rw [← map_mul, ← hu, Units.inv_mul, map_one]

/-- **The derivative of an integer power** of a jet with a value other than zero. -/
theorem derivative_zpow {g : List K} (hg : g.getD 0 0 ≠ 0) {u : (Expansion p o K)ˣ}
    (hu : u = expansion p o g) (n : Int) : derivative hk j (u ^ n : (Expansion p o K)ˣ) =
      (n : K) • (upTo hk.le (u ^ (n - 1) : (Expansion p o K)ˣ) *
        derivative hk j (expansion p o g)) := by
  rw [← expansion_composeExact_zpow hg hu, ← expansion_composeExact_zpow hg hu]
  exact derivative_composeExact hk j
    (fun i hi => Outer.getD_succ_zpowDerivatives n (g.getD 0 0) hi) g

end ChainRule

end JetAlgebra
