import JetAlgebra.Proofs.ComputedExpansion

/-!
# Programs that compute polynomials

An `Expression` is a program over jets: it starts from constants and parameters and adds,
subtracts, multiplies, combines and raises to natural powers.  Run on the tables of a signature
at a point `x` it gives the Taylor expansion at `x` of the polynomial it stands for
(`Expression.hasExpansion`), whatever the degrees in between.  So it is known exactly if the
polynomial has no degree beyond the order: `Expression.taylor_of_built`.
-/
namespace JetAlgebra
open Tables Exponent MvPolynomial

/-- The jet of a parameter: its value, and one for the derivative along it. -/
def Jet.parameter (t : Tables) (k : Nat) (x : Rat) : List Rat :=
  (List.range t.size).map fun i => if i = 0 then x
    else if t.derivatives[i]? = some ((List.replicate t.parameters 0).set k 1) then 1 else 0

/-! ## Programs -/

mutual

/-- A program with one result. -/
inductive Expression (p : Nat) where
  | constant (c : Rat)
  | parameter (k : Fin p)
  | add (e f : Expression p)
  | subtract (e f : Expression p)
  | multiply (e f : Expression p)
  | power (e : Expression p) (n : Nat)
  | combination (terms : Combination p)

/-- The terms of a linear combination, of which there is at least one. -/
inductive Combination (p : Nat) where
  | last (c : Rat) (e : Expression p)
  | more (c : Rat) (e : Expression p) (rest : Combination p)

end

section Semantics
variable {p : Nat} (t : Tables) (x : Fin p → Rat)

mutual

/-- **Runs a program on jets** at the point `x`. -/
def Expression.run : Expression p → Except ArithmeticFault (Jet Scalar)
  | .constant c => .ok (Jet.ofRat (c :: List.replicate (t.size - 1) 0))
  | .parameter k => .ok (Jet.ofRat (Jet.parameter t k (x k)))
  | .add e f => do Jet.add (← e.run) (← f.run)
  | .subtract e f => do Jet.sub (← e.run) (← f.run)
  | .multiply e f => do Jet.mul t.calculus (← e.run) (← f.run)
  | .power e n => do Jet.powInt t.calculus .faithful (← e.run) n
  | .combination terms => do Jet.linearCombination (← terms.run)

/-- The jets of a linear combination with their numbers. -/
def Combination.run : Combination p → Except ArithmeticFault (List (Scalar × Jet Scalar))
  | .last c e => do return [(.rat c, ← e.run)]
  | .more c e rest => do return (.rat c, ← e.run) :: (← rest.run)

end

end Semantics

mutual

/-- **The polynomial that a program stands for.** -/
noncomputable def Expression.polynomial {p : Nat} : Expression p → MvPolynomial (Fin p) Rat
  | .constant c => C c
  | .parameter k => X k
  | .add e f => e.polynomial + f.polynomial
  | .subtract e f => e.polynomial - f.polynomial
  | .multiply e f => e.polynomial * f.polynomial
  | .power e n => e.polynomial ^ n
  | .combination terms => terms.polynomial

noncomputable def Combination.polynomial {p : Nat} : Combination p → MvPolynomial (Fin p) Rat
  | .last c e => c • e.polynomial
  | .more c e rest => c • e.polynomial + rest.polynomial

end

variable {p o : Nat}

/-! ## Displaced polynomials -/

/-- A polynomial of the displacements from the point `x`. -/
noncomputable def displaced (x : Fin p → Rat) :
    MvPolynomial (Fin p) Rat →ₐ[Rat] MvPolynomial Nat Rat :=
  aeval fun k => C (x k) + X (k : Nat)

theorem eval_displaced (x d : Fin p → Rat) (P : MvPolynomial (Fin p) Rat) :
    eval ((List.ofFn d).getD · 0) (displaced x P) = eval (fun k => x k + d k) P := by
  have parameters : ∀ k : Fin p, aeval ((List.ofFn d).getD · 0)
      (C (x k) + X (k : Nat) : MvPolynomial Nat Rat) = x k + d k := by
    intro k
    rw [map_add, aeval_C, aeval_X, List.getD_eq_getElem _ _ (by simp), List.getElem_ofFn]
    rfl
  rw [displaced, ← coe_aeval_eq_eval, ← coe_aeval_eq_eval, RingHom.coe_coe, RingHom.coe_coe,
    comp_aeval_apply]
  simp only [parameters]

theorem totalDegree_displaced_le (x : Fin p → Rat) (P : MvPolynomial (Fin p) Rat) :
    (displaced x P).totalDegree ≤ P.totalDegree := by
  rw [displaced, aeval_def, eval₂_eq']
  refine totalDegree_finsetSum_le fun n hn => ?_
  have factor : ∀ k : Fin p, ((C (x k) + X (k : Nat) : MvPolynomial Nat Rat) ^ n k).totalDegree ≤
      n k := by
    intro k
    have linear : (C (x k) + X (k : Nat) : MvPolynomial Nat Rat).totalDegree ≤ 1 :=
      (totalDegree_add _ _).trans (max_le ((totalDegree_C _).le.trans (Nat.zero_le 1))
        (totalDegree_X _).le)
    exact (totalDegree_pow _ _).trans ((Nat.mul_le_mul_left _ linear).trans (Nat.mul_one _).le)
  calc (algebraMap Rat _ (coeff n P) * ∏ k, (C (x k) + X (k : Nat)) ^ n k).totalDegree
      ≤ 0 + ∑ k, n k := by
        refine (totalDegree_mul _ _).trans (Nat.add_le_add (totalDegree_C _).le ?_)
        exact (totalDegree_finsetProd _ _).trans (Finset.sum_le_sum fun k _ => factor k)
    _ ≤ P.totalDegree := by
        rw [zero_add, ← Finsupp.sum_fintype n (fun _ k => k) fun _ => rfl]
        exact le_totalDegree hn

/-- A displaced polynomial has the monomials of a jet, if its degree is not beyond the order. -/
theorem coeff_displaced_of_not_fits (x : Fin p → Rat) {P : MvPolynomial (Fin p) Rat}
    (hP : P.totalDegree ≤ o) {n : Exponent} (hn : ¬ Fits p o n) : coeff n (displaced x P) = 0 := by
  by_contra h
  have hs : n ∈ (displaced x P).support := mem_support_iff.mpr h
  refine hn ⟨fun j hj => ?_, ?_⟩
  · refine mem_support_notMem_vars_zero hs fun hv => ?_
    obtain ⟨k, -, hk⟩ := mem_vars_bind₁ _ _ hv
    have variable_k : j = k := by
      simpa only [vars_C, vars_X, Finset.empty_union, Finset.mem_singleton] using
        vars_add_subset _ _ hk
    exact absurd hj (variable_k ▸ Nat.not_le.mpr k.isLt)
  · exact (le_totalDegree hs).trans ((totalDegree_displaced_le x P).trans hP)

/-! ## What programs compute -/

theorem hasExpansion_parameter (k : Fin p) (x : Rat) :
    HasExpansion Scalar.rat (.ok (Jet.ofRat (Jet.parameter (complete p o) k x)))
      (truncated p o (C x + X (k : Nat))) := by
  refine ⟨_, by rw [Jet.parameter, List.length_map, List.length_range], rfl,
    expansion_eq_truncated fun n hn => ?_⟩
  rw [Jet.parameter, List.getD_eq_getElem?_getD, List.getElem?_map,
    List.getElem?_range (place_lt hn), Option.map_some, Option.getD_some, getElem?_place hn,
    parameters_complete, ← tuple_unit, coeff_add, coeff_C, coeff_X]
  rcases eq_or_ne n 0 with rfl | h₀
  · rw [place_zero, if_pos rfl, if_pos rfl, factorial_zero, Nat.cast_one, one_mul]
    exact (add_eq_left.mpr (if_neg (unit_ne_zero k))).symm
  rw [if_neg ((place_eq_zero_iff hn).not.mpr h₀), if_neg h₀.symm, zero_add]
  rcases eq_or_ne (unit k) n with rfl | h₁
  · rw [if_pos rfl, factorial_unit, Nat.cast_one, one_mul]
    exact (if_pos rfl).symm
  · have tuples : tuple p n ≠ tuple p (unit k) := fun he => h₁ <| by
      rw [← exponent_tuple hn.parameters, he, exponent_tuple]
      exact fun j hj => Finsupp.single_eq_of_ne (by omega)
    rw [if_neg fun he => tuples (Option.some.inj he)]
    exact (mul_eq_zero_of_right _ (if_neg h₁)).symm

section Run
variable (o) (x : Fin p → Rat)

mutual

/-- **A program computes the expansion of its polynomial.** -/
theorem Expression.hasExpansion : ∀ e : Expression p,
    HasExpansion Scalar.rat (e.run (complete p o) x) (truncated p o (displaced x e.polynomial))
  | .constant c => by
    rw [Expression.polynomial, displaced, aeval_C, AlgHom.commutes]
    exact HasExpansion.constant c
  | .parameter k => by
    rw [Expression.polynomial, displaced, aeval_X]
    exact hasExpansion_parameter k (x k)
  | .add e f => by
    rw [Expression.polynomial, map_add, map_add]
    exact (e.hasExpansion).add Scalar.isExactField_rat (f.hasExpansion)
  | .subtract e f => by
    rw [Expression.polynomial, map_sub, map_sub]
    exact (e.hasExpansion).sub Scalar.isExactField_rat (f.hasExpansion)
  | .multiply e f => by
    rw [Expression.polynomial, map_mul, map_mul]
    exact (e.hasExpansion).mul Scalar.isExactField_rat (f.hasExpansion)
  | .power e n => by
    rw [Expression.polynomial, map_pow, map_pow]
    exact (e.hasExpansion).powInt Scalar.isExactField_rat n
  | .combination terms => by
    obtain ⟨jets, hne, sizes, hrun, hsum⟩ := terms.exists_jets
    rw [Expression.polynomial, ← hsum, Expression.run, hrun]
    exact HasExpansion.linearCombination Scalar.isExactField_rat hne sizes

/-- The terms of a linear combination have expansions that add up to that of its polynomial. -/
theorem Combination.exists_jets : ∀ c : Combination p, ∃ jets : List (Rat × List Rat),
    jets ≠ [] ∧ (∀ t ∈ jets, t.2.length = (complete p o).size) ∧
      c.run (complete p o) x = .ok (jets.map fun t => (Scalar.rat t.1, Jet.ofRat t.2)) ∧
      (jets.map fun t => t.1 • expansion p o t.2).sum = truncated p o (displaced x c.polynomial)
  | .last c e => by
    obtain ⟨a, ha, hrun, he⟩ := e.hasExpansion
    refine ⟨[(c, a)], List.cons_ne_nil _ _, List.forall_mem_singleton.mpr ha, ?_, ?_⟩
    · rw [Combination.run, hrun]
      rfl
    · rw [Combination.polynomial, map_smul, map_smul, ← he, List.map_singleton, List.sum_singleton]
  | .more c e rest => by
    obtain ⟨a, ha, hrun, he⟩ := e.hasExpansion
    obtain ⟨jets, -, sizes, hrest, hsum⟩ := rest.exists_jets
    refine ⟨(c, a) :: jets, List.cons_ne_nil _ _, List.forall_mem_cons.mpr ⟨ha, sizes⟩, ?_, ?_⟩
    · rw [Combination.run, hrun, hrest]
      rfl
    · rw [Combination.polynomial, map_add, map_add, map_smul, map_smul, ← he, ← hsum,
        List.map_cons, List.sum_cons]

end

end Run

/-- **A polynomial up to the order is computed exactly**: the program succeeds, and the Taylor
expansion of its result has the value of the polynomial at the displaced point. -/
theorem Expression.taylor_of_built {t : Tables} (h : Built p o t) (e : Expression p)
    (x d : Fin p → Rat) (hd : e.polynomial.totalDegree ≤ o) :
    ∃ r, e.run t x = .ok r ∧
      Jet.taylor t.calculus.derivatives r ((List.ofFn d).map Scalar.rat) =
        .ok (.rat (eval (fun k => x k + d k) e.polynomial)) := by
  obtain rfl := h.eq_complete
  rw [← eval_displaced]
  exact (e.hasExpansion o x).taylor Scalar.isExactField_rat
    (fun n hn => coeff_displaced_of_not_fits x hd hn) (List.length_ofFn)

/-- The square of a parameter less its product with itself, and the parameter. -/
def Expression.cancelling : Expression 1 :=
  .add (.subtract (.power (.parameter 0) 2) (.multiply (.parameter 0) (.parameter 0)))
    (.parameter 0)

theorem Expression.polynomial_cancelling : cancelling.polynomial = X 0 := by
  rw [cancelling]
  simp only [polynomial]
  ring

/-- The squares are beyond the first order and cancel, so the expansion at `3` is exact. -/
theorem Expression.taylor_cancelling : Built 1 1 (complete 1 1) ∧
    cancelling.polynomial.totalDegree ≤ 1 ∧
    ∃ r, cancelling.run (complete 1 1) (fun _ => 3) = .ok r ∧
      Jet.taylor (complete 1 1).calculus.derivatives r
        ((List.ofFn fun _ : Fin 1 => (1 / 2 : Rat)).map Scalar.rat) = .ok (.rat (7 / 2)) := by
  have degree : cancelling.polynomial.totalDegree ≤ 1 := by
    rw [polynomial_cancelling, totalDegree_X]
  obtain ⟨r, hrun, hr⟩ := taylor_of_built (built_complete 1 1) cancelling (fun _ => 3)
    (fun _ => 1 / 2) degree
  refine ⟨built_complete 1 1, degree, r, hrun, hr.trans ?_⟩
  rw [polynomial_cancelling, eval_X]
  norm_num

end JetAlgebra
