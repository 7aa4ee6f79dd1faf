import JetAlgebra.Jet.Taylor
import JetAlgebra.Proofs.ExactPowers
import JetAlgebra.Proofs.TruncatedProduct

/-!
# The value of a Taylor expansion

`Jet.taylor` goes through the slots from the last to the first and multiplies each by `d^k / k!`
for every displacement `d`.  On exact numbers it evaluates the Taylor polynomial of the jet:
`IsExactField.taylor_complete`.
-/
namespace JetAlgebra
open Arithmetic Tables Exponent MvPolynomial

variable {K : Type} [Field K] {p o : Nat}

theorem Jet.factorial_eq (n : Nat) : Jet.factorial n = n.factorial := by
  induction n with
  | zero => rfl
  | succ n ih => rw [Jet.factorial, ih, Nat.factorial_succ]

/-- What a displacement makes of a slot with the given orders. -/
def Jet.taylorWeight (d : List K) (n : Orders) : K :=
  (List.zipWith (fun x k => x ^ k / (k.factorial : K)) d n).prod

/-- The weight of the orders of an exponent. -/
theorem Jet.taylorWeight_tuple {d : List K} (hd : d.length = p) (s : Exponent) :
    Jet.taylorWeight d (tuple p s) =
      ∏ j ∈ Finset.range p, (1 / ((s j).factorial : K) * d.getD j 0 ^ s j) := by
  have entries : List.zipWith (fun x k => x ^ k / (k.factorial : K)) d (tuple p s) =
      (List.range p).map fun j => 1 / ((s j).factorial : K) * d.getD j 0 ^ s j := by
    refine List.ext_getElem (by simp [hd]) fun j hj hj' => ?_
    have hjd : j < d.length := by simpa [hd] using hj'
    rw [List.getElem_zipWith, List.getElem_map, List.getElem_range, List.getD_eq_getElem _ _ hjd,
      one_div_mul_eq_div]
    simp [tuple]
  rw [Jet.taylorWeight, entries]
  rfl

/-- **Evaluating the Taylor polynomial** sums the slots with their weights. -/
theorem eval_jetPolynomial {a d : List K} (ha : a.length = (complete p o).size)
    (hd : d.length = p) : eval (d.getD · 0) (jetPolynomial p o a) =
      ((a.zip (complete p o).derivatives).map fun s => s.1 * Jet.taylorWeight d s.2).sum := by
  have slots : (a.zip (complete p o).derivatives).map (fun s => s.1 * Jet.taylorWeight d s.2) =
      (List.range (complete p o).size).map fun i =>
        a.getD i 0 * Jet.taylorWeight d ((complete p o).derivatives.getD i []) := by
    refine List.ext_getElem (by simp [ha, length_derivatives]) fun i hi hi' => ?_
    have hia : i < a.length := by simpa [ha] using hi'
    have hin : i < (complete p o).derivatives.length := by
      rw [length_derivatives, ← ha]
      exact hia
    rw [List.getElem_map, List.getElem_zip, List.getElem_map, List.getElem_range,
      List.getD_eq_getElem _ _ hia, List.getD_eq_getElem _ _ hin]
  have sum : ((List.range (complete p o).size).map fun i =>
      a.getD i 0 * Jet.taylorWeight d ((complete p o).derivatives.getD i [])).sum =
      ∑ i ∈ Finset.range (complete p o).size,
        a.getD i 0 * Jet.taylorWeight d ((complete p o).derivatives.getD i []) := rfl
  rw [slots, sum, sum_range_size, jetPolynomial, map_sum]
  refine Finset.sum_congr rfl fun s hs => ?_
  have fits := mem_box.mp hs
  have orders : (complete p o).derivatives.getD (place p o s) [] = tuple p s := by
    rw [List.getD_eq_getElem?_getD, getElem?_place fits, Option.getD_some]
  rw [monomial_eq_prod fits.parameters, orders, Jet.taylorWeight_tuple hd]
  simp only [map_mul, map_prod, map_pow, eval_C, eval_X]

namespace IsExactField
variable [CharZero K] {E : Type} [Arithmetic E] {lift : K → E} (exact : IsExactField lift)
include exact

theorem taylorTerm (x : K) (d : List K) (n : Orders) :
    Jet.taylorTerm (lift x) (d.map lift) n = .ok (lift (x * Jet.taylorWeight d n)) := by
  induction d generalizing x n with
  | nil =>
    rw [Jet.taylorWeight, List.zipWith_nil_left, List.prod_nil, mul_one]
    rfl
  | cons y d ih =>
    cases n with
    | nil =>
      rw [Jet.taylorWeight, List.zipWith_nil_right, List.prod_nil, mul_one]
      rfl
    | cons k n =>
      have rest := fun z => ih z n
      rw [List.map_cons, Jet.taylorTerm, Jet.taylorWeight, List.zipWith_cons_cons, List.prod_cons]
      by_cases hk : k = 0
      · rw [if_pos hk, rest, hk, pow_zero, Nat.factorial_zero, Nat.cast_one, div_one, one_mul]
        rfl
      · have nonzero : ((Jet.factorial k : Int) : K) ≠ 0 := by
          rw [Jet.factorial_eq, Int.cast_natCast]
          exact Nat.cast_ne_zero.mpr k.factorial_ne_zero
        rw [if_neg hk]
        refine bind_eq_ok (exact.pow_ofNat y k) (bind_eq_ok (exact.div_ofInt _ _ nonzero)
          (bind_eq_ok (exact.mul _ _) ?_))
        rw [rest, Jet.factorial_eq, Int.cast_natCast, mul_assoc]
        rfl

theorem taylorSum (d : List K) (slots : List (K × Orders)) (total : K) :
    Jet.taylorSum (d.map lift) (slots.map fun s => (lift s.1, s.2)) (lift total) =
      .ok (lift (total + (slots.map fun s => s.1 * Jet.taylorWeight d s.2).sum)) := by
  induction slots generalizing total with
  | nil =>
    rw [List.map_nil, List.map_nil, List.sum_nil, add_zero]
    rfl
  | cons s slots ih =>
    refine bind_eq_ok (exact.taylorTerm s.1 d s.2) (bind_eq_ok (exact.add _ _) ?_)
    rw [ih, List.map_cons, List.sum_cons, add_assoc]

/-- **The value of the Taylor expansion** of an exact jet is that of its Taylor polynomial. -/
theorem taylor_complete {a d : List K} (ha : a.length = (complete p o).size) (hd : d.length = p) :
    Jet.taylor (complete p o).derivatives (a.map lift) (d.map lift) =
      .ok (lift (eval (d.getD · 0) (jetPolynomial p o a))) := by
  have slots : ((a.map lift).zip (complete p o).derivatives).reverse =
      (a.zip (complete p o).derivatives).reverse.map fun s => (lift s.1, s.2) := by
    rw [List.zip_map_left, List.map_reverse]
    rfl
  refine bind_eq_ok (slot_map (i := 0) (ha ▸ size_pos p o)) (bind_eq_ok (exact.zeroLike _) ?_)
  rw [slots, exact.taylorSum, zero_add, eval_jetPolynomial ha hd, List.map_reverse,
    List.sum_reverse]

end IsExactField

end JetAlgebra
