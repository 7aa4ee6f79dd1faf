import JetAlgebra.Proofs.Exponent

/-!
# Jets as truncated polynomials

A `(p, o)` jet over a field is the Taylor polynomial `jetPolynomial`, whose coefficient at the
exponent `n` is the slot of `n` over `n!`.  What a jet knows is known only up to the exponents
that fit, so its `expansion` is that polynomial in the ring of polynomials modulo those that
have no coefficient there (`beyond`).

Jets with the same expansion are equal (`eq_of_expansion_eq`), so an identity of a commutative
ring is an identity of jets as soon as the operations on jets are those of the ring.
-/
namespace JetAlgebra
open Tables Exponent MvPolynomial
open Finset.HasAntidiagonal (antidiagonal mem_antidiagonal)

variable {K : Type} [Field K]

/-- The polynomials without a coefficient that a `(p, o)` jet has a slot for. -/
def beyond (p o : Nat) (K : Type) [Field K] : Ideal (MvPolynomial Nat K) where
  carrier := {F | ∀ n, Fits p o n → coeff n F = 0}
  add_mem' hF hG n hn := by rw [coeff_add, hF n hn, hG n hn, add_zero]
  zero_mem' n _ := coeff_zero n
  smul_mem' F G hG n hn := by
    rw [smul_eq_mul, coeff_mul]
    refine Finset.sum_eq_zero fun x hx => ?_
    rw [hG x.2 (hn.of_le (mem_antidiagonal.mp hx ▸ le_add_self)), mul_zero]

/-- **The ring of expansions** up to the exponents of a `(p, o)` jet. -/
abbrev Expansion (p o : Nat) (K : Type) [Field K] := MvPolynomial Nat K ⧸ beyond p o K

/-- What is left of a polynomial. -/
noncomputable def truncated (p o : Nat) : MvPolynomial Nat K →ₐ[K] Expansion p o K :=
  Ideal.Quotient.mkₐ K (beyond p o K)

/-- **Only the exponents of the jet count.** -/
theorem truncated_eq_iff {p o : Nat} {F G : MvPolynomial Nat K} :
    truncated p o F = truncated p o G ↔ ∀ n, Fits p o n → coeff n F = coeff n G := by
  refine Ideal.Quotient.eq.trans (forall₂_congr fun n _ => ?_)
  rw [coeff_sub, sub_eq_zero]

/-- The Taylor polynomial of a jet. -/
noncomputable def jetPolynomial (p o : Nat) (a : List K) : MvPolynomial Nat K :=
  ∑ s ∈ box p o, monomial s (a.getD (place p o s) 0 / (factorial s : K))

theorem coeff_jetPolynomial {p o : Nat} {n : Exponent} (hn : Fits p o n) (a : List K) :
    coeff n (jetPolynomial p o a) = a.getD (place p o n) 0 / (factorial n : K) := by
  rw [jetPolynomial, coeff_sum, Finset.sum_eq_single n]
  · exact coeff_monomial n n _ |>.trans (if_pos rfl)
  · exact fun s _ hs => coeff_monomial n s _ |>.trans (if_neg hs)
  · exact fun h => absurd (mem_box.mpr hn) h

/-- **The expansion of a jet.** -/
noncomputable def expansion (p o : Nat) (a : List K) : Expansion p o K :=
  truncated p o (jetPolynomial p o a)

/-- The expansion of a jet is what is left of `F` if the slots are its coefficients. -/
theorem expansion_eq_truncated [CharZero K] {p o : Nat} {a : List K} {F : MvPolynomial Nat K}
    (h : ∀ n, Fits p o n → a.getD (place p o n) 0 = factorial n * coeff n F) :
    expansion p o a = truncated p o F := by
  refine truncated_eq_iff.mpr fun n hn => ?_
  rw [coeff_jetPolynomial hn, h n hn, mul_div_cancel_left₀]
  exact Nat.cast_ne_zero.mpr (factorial_pos n).ne'

/-- **Jets are told apart by their expansions.** -/
theorem eq_of_expansion_eq [CharZero K] {p o : Nat} {a b : List K}
    (ha : a.length = (complete p o).size) (hb : b.length = (complete p o).size)
    (h : expansion p o a = expansion p o b) : a = b := by
  refine List.ext_getElem (ha.trans hb.symm) fun i hi hi' => ?_
  obtain ⟨n, hn, rfl⟩ := exists_place (ha ▸ hi)
  have same := truncated_eq_iff.mp h n hn
  rw [coeff_jetPolynomial hn, coeff_jetPolynomial hn,
    div_left_inj' (Nat.cast_ne_zero.mpr (factorial_pos n).ne')] at same
  rwa [List.getD_eq_getElem?_getD, List.getD_eq_getElem?_getD, List.getElem?_eq_getElem hi,
    List.getElem?_eq_getElem hi'] at same

theorem Expansion.smul_eq {p o : Nat} (c : K) (x : Expansion p o K) :
    c • x = algebraMap K _ c * x := Algebra.smul_def c x

theorem truncated_C (p o : Nat) (c : K) : truncated p o (C c) = algebraMap K _ c :=
  (truncated p o).commutes c

theorem getD_replicate_zero (m k : Nat) : (List.replicate m (0 : K)).getD k 0 = 0 := by
  rw [List.getD_eq_getElem?_getD, List.getElem?_getD_replicate_default_eq]

/-- A jet without derivatives is a constant. -/
theorem expansion_constant [CharZero K] (p o : Nat) (c : K) (m : Nat) :
    expansion p o (c :: List.replicate m 0) = algebraMap K _ c := by
  rw [← truncated_C, expansion_eq_truncated]
  intro n hn
  rw [coeff_C]
  rcases eq_or_ne n 0 with rfl | h
  · rw [place_zero, if_pos rfl, factorial_zero, Nat.cast_one, one_mul]
    rfl
  · obtain ⟨i, hi⟩ := Nat.exists_eq_succ_of_ne_zero fun hz => h ((place_eq_zero_iff hn).mp hz)
    rw [hi, if_neg h.symm, mul_zero, List.getD_cons_succ, getD_replicate_zero]

/-- Without its value the jet loses a constant. -/
theorem expansion_set_zero [CharZero K] (p o : Nat) (g : List K) :
    expansion p o (g.set 0 0) = expansion p o g - algebraMap K _ (g.getD 0 0) := by
  rw [expansion, expansion, ← truncated_C, ← map_sub]
  refine truncated_eq_iff.mpr fun n hn => ?_
  rw [coeff_jetPolynomial hn, coeff_sub, coeff_jetPolynomial hn, coeff_C]
  rcases eq_or_ne n 0 with rfl | h
  · rw [place_zero, if_pos rfl, factorial_zero, Nat.cast_one, div_one, div_one, sub_self]
    cases g <;> rfl
  · have hi : 0 ≠ place p o n := fun hz => h ((place_eq_zero_iff hn).mp hz.symm)
    rw [if_neg h.symm, sub_zero, List.getD_eq_getElem?_getD, List.getElem?_set_ne hi,
      ← List.getD_eq_getElem?_getD]

end JetAlgebra
