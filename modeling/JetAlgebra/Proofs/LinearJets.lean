import JetAlgebra.Proofs.ExpansionLaws

/-!
# Sums and multiples of exact jets

The operations that go slot by slot are exact on jets as soon as they are exact on numbers
(`zipEach_map`), and their expansions are those of the ring: `expansion_add`, `expansion_sub`,
`expansion_scale`.
-/
namespace JetAlgebra
open Arithmetic Exponent MvPolynomial

section Entries
variable {K E : Type} {lift : K → E}

/-- An operation that is exact on numbers is exact on lists of them. -/
theorem zipEach_map {f : E → E → Except ArithmeticFault E} {g : K → K → K}
    (h : ∀ x y, f (lift x) (lift y) = .ok (lift (g x y))) (a b : List K) :
    zipEach f (a.map lift) (b.map lift) = .ok ((List.zipWith g a b).map lift) := by
  induction a generalizing b with
  | nil => rfl
  | cons x a ih =>
    cases b with
    | nil => rfl
    | cons y b =>
      rw [List.map_cons, List.map_cons, zipEach]
      exact bind_eq_ok (h x y) (bind_eq_ok (ih b) rfl)

theorem getD_zipWith {f : K → K → K} {z : K} (hf : f z z = z) {a b : List K}
    (h : a.length = b.length) (i : Nat) :
    (List.zipWith f a b).getD i z = f (a.getD i z) (b.getD i z) := by
  induction a generalizing b i with
  | nil =>
    rw [List.length_eq_zero_iff.mp h.symm]
    exact hf.symm
  | cons x a ih =>
    cases b with
    | nil => cases h
    | cons y b =>
      cases i with
      | zero => rfl
      | succ i => exact ih (Nat.succ.inj h) i

end Entries

variable {K : Type} [Field K] {p o : Nat}

/-- A jet whose slots combine those of two others has the combined expansion. -/
theorem expansion_combination {a b c : List K} {u v : K}
    (h : ∀ i, c.getD i 0 = u * a.getD i 0 + v * b.getD i 0) :
    expansion p o c = u • expansion p o a + v • expansion p o b := by
  rw [expansion, expansion, expansion, ← map_smul, ← map_smul, ← map_add]
  refine truncated_eq_iff.mpr fun n hn => ?_
  rw [coeff_add, coeff_smul, coeff_smul, coeff_jetPolynomial hn, coeff_jetPolynomial hn,
    coeff_jetPolynomial hn, h, add_div, smul_eq_mul, smul_eq_mul, mul_div_assoc, mul_div_assoc]

theorem expansion_add {a b : List K} (h : a.length = b.length) :
    expansion p o (List.zipWith (· + ·) a b) = expansion p o a + expansion p o b := by
  have slots : ∀ i, (List.zipWith (· + ·) a b).getD i 0 = 1 * a.getD i 0 + 1 * b.getD i 0 := by
    intro i
    rw [getD_zipWith (add_zero 0) h, one_mul, one_mul]
  rw [expansion_combination slots, one_smul, one_smul]

theorem expansion_sub {a b : List K} (h : a.length = b.length) :
    expansion p o (List.zipWith (· - ·) a b) = expansion p o a - expansion p o b := by
  have slots : ∀ i, (List.zipWith (· - ·) a b).getD i 0 = 1 * a.getD i 0 + -1 * b.getD i 0 := by
    intro i
    rw [getD_zipWith (sub_zero 0) h, one_mul, neg_one_mul, sub_eq_add_neg]
  rw [expansion_combination slots, one_smul, neg_one_smul, sub_eq_add_neg]

theorem getD_map_mul (a : List K) (c : K) (i : Nat) :
    (a.map (· * c)).getD i 0 = a.getD i 0 * c := by
  have entry := List.getD_map a 0 (n := i) (· * c)
  rwa [zero_mul] at entry

theorem expansion_scale (c : K) (a : List K) :
    expansion p o (a.map (· * c)) = c • expansion p o a := by
  have slots : ∀ i, (a.map (· * c)).getD i 0 = c * a.getD i 0 + 0 * a.getD i 0 := by
    intro i
    rw [getD_map_mul, zero_mul, add_zero, mul_comm]
  rw [expansion_combination slots, zero_smul, add_zero]

end JetAlgebra
