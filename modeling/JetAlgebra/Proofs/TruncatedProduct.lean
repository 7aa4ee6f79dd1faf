import JetAlgebra.Proofs.LinearJets
import JetAlgebra.Proofs.TaylorSum

/-!
# Products of jets are truncated products of polynomials

Here the polynomial of a jet is read off its tables: `Tables.polynomial` takes each slot times
the monomial of the orders that the slot holds, over their factorials.  Multiplying jets
multiplies these polynomials and drops every monomial whose degree is beyond the order
(`polynomial_mulExact`).  Nothing is lost by going back and forth, because no polynomial of a jet
has a monomial that the jet has no slot for (`coeff_jetPolynomial_of_not_fits`).

So the jets of a signature are a commutative ring, whose laws are collected in
`Tables.IsTruncatedRing`.
-/
namespace JetAlgebra
open Tables Exponent MvPolynomial
open Finset.HasAntidiagonal (antidiagonal mem_antidiagonal)

variable {K : Type} [Field K] {p o : Nat}

/-- **The polynomial of a jet.** -/
noncomputable def Tables.polynomial (t : Tables) (a : List K) : MvPolynomial Nat K :=
  ∑ i ∈ Finset.range t.size, C (a.getD i 0) * ∏ j ∈ Finset.range t.parameters,
    (C (1 / ((t.derivatives.getD i []).getD j 0).factorial : K) *
      X j ^ (t.derivatives.getD i []).getD j 0)

/-- What is left of a polynomial without the monomials of a degree beyond `o`. -/
noncomputable def upToDegree (o : Nat) (F : MvPolynomial Nat K) : MvPolynomial Nat K :=
  ∑ d ∈ Finset.range (o + 1), homogeneousComponent d F

theorem coeff_upToDegree (o : Nat) (F : MvPolynomial Nat K) (n : Exponent) :
    coeff n (upToDegree o F) = if n.degree ≤ o then coeff n F else 0 := by
  rw [upToDegree, coeff_sum]
  simp only [coeff_homogeneousComponent, Finset.sum_ite_eq, Finset.mem_range, Nat.lt_succ_iff]

/-! ## Polynomials with the monomials of a jet -/

theorem coeff_jetPolynomial_of_not_fits {n : Exponent} (hn : ¬ Fits p o n) (a : List K) :
    coeff n (jetPolynomial p o a) = 0 := by
  rw [jetPolynomial, coeff_sum]
  refine Finset.sum_eq_zero fun s hs => ?_
  rw [coeff_monomial, if_neg]
  rintro rfl
  exact hn (mem_box.mp hs)

/-- Nothing of a polynomial is lost if it has no other monomials. -/
theorem eq_of_truncated_eq {F G : MvPolynomial Nat K} (hF : ∀ n, ¬ Fits p o n → coeff n F = 0)
    (hG : ∀ n, ¬ Fits p o n → coeff n G = 0) (h : truncated p o F = truncated p o G) : F = G := by
  ext n
  by_cases hn : Fits p o n
  · exact truncated_eq_iff.mp h n hn
  · rw [hF n hn, hG n hn]

/-- A monomial of a product that is not beyond the order is one of the jet. -/
theorem coeff_upToDegree_mul_of_not_fits (a b : List K) {n : Exponent} (hn : ¬ Fits p o n) :
    coeff n (upToDegree o (jetPolynomial p o a * jetPolynomial p o b)) = 0 := by
  rw [coeff_upToDegree]
  split
  · next hd =>
    rw [coeff_mul]
    refine Finset.sum_eq_zero fun x hx => ?_
    obtain rfl := mem_antidiagonal.mp hx
    -- The degree is small enough, so one of the factors has a derivative along no parameter.
    by_cases hl : Fits p o x.1
    · have hr : ¬ Fits p o x.2 := fun hr => hn ⟨fun j hj => by
        rw [Finsupp.add_apply, hl.parameters j hj, hr.parameters j hj], hd⟩
      rw [coeff_jetPolynomial_of_not_fits hr, mul_zero]
    · rw [coeff_jetPolynomial_of_not_fits hl, zero_mul]
  · rfl

theorem monomial_eq_prod {s : Exponent} (h : ∀ j, p ≤ j → s j = 0) (c : K) :
    monomial s (c / (factorial s : K)) = C c * ∏ j ∈ Finset.range p,
      (C (1 / ((s j).factorial : K)) * X j ^ s j) := by
  have factorials : (factorial s : K) = ∏ j ∈ Finset.range p, ((s j).factorial : K) := by
    rw [factorial, Finsupp.prod_of_support_subset s (support_subset h) _ fun _ _ =>
      Nat.factorial_zero, Nat.cast_prod]
  have powers : (s.prod fun j e => X j ^ e : MvPolynomial Nat K) =
      ∏ j ∈ Finset.range p, X j ^ s j :=
    Finsupp.prod_of_support_subset s (support_subset h) _ fun _ _ => pow_zero _
  rw [monomial_eq, powers, Finset.prod_mul_distrib, ← map_prod, ← mul_assoc, ← map_mul,
    factorials, Finset.prod_div_distrib, Finset.prod_const_one, mul_one_div]

/-- The polynomial that is read off the tables is the Taylor polynomial of the jet. -/
theorem polynomial_complete (p o : Nat) (a : List K) :
    (complete p o).polynomial a = jetPolynomial p o a := by
  rw [polynomial, jetPolynomial, sum_range_size, parameters_complete]
  refine Finset.sum_congr rfl fun s hs => ?_
  have fits := mem_box.mp hs
  have orders : (complete p o).derivatives.getD (place p o s) [] = tuple p s := by
    rw [List.getD_eq_getElem?_getD, getElem?_place fits, Option.getD_some]
  rw [orders, monomial_eq_prod fits.parameters]
  refine congrArg _ (Finset.prod_congr rfl fun j _ => ?_)
  rw [← exponent_apply, exponent_tuple fits.parameters]

/-- **The polynomial of a product** is the product of the polynomials up to the order. -/
theorem polynomial_mulExact [CharZero K] (a b : List K) :
    (complete p o).polynomial ((complete p o).mulExact a b) =
      upToDegree o ((complete p o).polynomial a * (complete p o).polynomial b) := by
  rw [polynomial_complete, polynomial_complete, polynomial_complete]
  refine eq_of_truncated_eq (p := p) (o := o) (fun n hn => coeff_jetPolynomial_of_not_fits hn _)
    (fun n hn => coeff_upToDegree_mul_of_not_fits a b hn) ?_
  have product := expansion_mulExact (p := p) (o := o) a b
  rw [expansion, expansion, expansion, ← map_mul] at product
  refine product.trans (truncated_eq_iff.mpr fun n hn => ?_)
  rw [coeff_upToDegree, if_pos hn.order]

/-! ## The ring of jets -/

section Ring
variable [CharZero K] (a b c : List K)

theorem mulExact_comm : (complete p o).mulExact a b = (complete p o).mulExact b a := by
  refine eq_of_expansion_eq (length_mulExact p o a b) (length_mulExact p o b a) ?_
  rw [expansion_mulExact, expansion_mulExact, mul_comm]

theorem mulExact_assoc : (complete p o).mulExact ((complete p o).mulExact a b) c =
    (complete p o).mulExact a ((complete p o).mulExact b c) := by
  refine eq_of_expansion_eq (length_mulExact p o _ _) (length_mulExact p o _ _) ?_
  simp only [expansion_mulExact, mul_assoc]

variable {b c} in
theorem mulExact_add (h : b.length = c.length) :
    (complete p o).mulExact a (List.zipWith (· + ·) b c) =
      List.zipWith (· + ·) ((complete p o).mulExact a b) ((complete p o).mulExact a c) := by
  have same : ((complete p o).mulExact a b).length = ((complete p o).mulExact a c).length := by
    rw [length_mulExact, length_mulExact]
  refine eq_of_expansion_eq (length_mulExact p o _ _) ?_ ?_
  · rw [List.length_zipWith, ← same, Nat.min_self, length_mulExact]
  · rw [expansion_mulExact, expansion_add h, expansion_add same, expansion_mulExact,
      expansion_mulExact, mul_add]

variable {a} in
theorem mulExact_unit (h : a.length = (complete p o).size) :
    (complete p o).mulExact a (Jet.unit K (complete p o).size) = a := by
  refine eq_of_expansion_eq (length_mulExact p o _ _) h ?_
  rw [expansion_mulExact, Jet.unit, expansion_constant, map_one, mul_one]

end Ring

/-! ## What callers may rely on -/

/-- **Jets multiply like truncated polynomials**: for the tables `t`, and at the jets `a`, `b`
and `c`. -/
structure Tables.IsTruncatedRing (t : Tables) (a b c : List Rat) : Prop where
  /-- The product has the product polynomial, without the monomials beyond the order. -/
  product : ∃ ab : List Rat, ab.length = t.size ∧
    Jet.mul t.calculus (Jet.ofRat a) (Jet.ofRat b) = .ok (Jet.ofRat ab) ∧
    t.polynomial ab = upToDegree t.order (t.polynomial a * t.polynomial b)
  commutative : ∃ ab, Jet.mul t.calculus (Jet.ofRat a) (Jet.ofRat b) = .ok ab ∧
    Jet.mul t.calculus (Jet.ofRat b) (Jet.ofRat a) = .ok ab
  associative : ∃ ab bc abc, Jet.mul t.calculus (Jet.ofRat a) (Jet.ofRat b) = .ok ab ∧
    Jet.mul t.calculus (Jet.ofRat b) (Jet.ofRat c) = .ok bc ∧
    Jet.mul t.calculus ab (Jet.ofRat c) = .ok abc ∧ Jet.mul t.calculus (Jet.ofRat a) bc = .ok abc
  distributive : ∃ sum ab ac total, Jet.add (Jet.ofRat b) (Jet.ofRat c) = .ok sum ∧
    Jet.mul t.calculus (Jet.ofRat a) (Jet.ofRat b) = .ok ab ∧
    Jet.mul t.calculus (Jet.ofRat a) (Jet.ofRat c) = .ok ac ∧
    Jet.mul t.calculus (Jet.ofRat a) sum = .ok total ∧ Jet.add ab ac = .ok total
  /-- The constant jet one changes nothing, on either side. -/
  unit : Jet.mul t.calculus (Jet.ofRat (Jet.unit Rat t.size)) (Jet.ofRat a) = .ok (Jet.ofRat a) ∧
    Jet.mul t.calculus (Jet.ofRat a) (Jet.ofRat (Jet.unit Rat t.size)) = .ok (Jet.ofRat a)

/-- **The jets of every signature are a ring of truncated polynomials.** -/
theorem Tables.isTruncatedRing_of_built {t : Tables} (h : Built p o t) {a b c : List Rat}
    (ha : a.length = t.size) (hb : b.length = t.size) (hc : c.length = t.size) :
    t.IsTruncatedRing a b c := by
  obtain rfl := h.eq_complete
  have exact := Scalar.isExact_rat
  have mul : ∀ {x y : List Rat}, x.length = (complete p o).size → y.length = (complete p o).size →
      Jet.mul (complete p o).calculus (Jet.ofRat x) (Jet.ofRat y) =
        .ok (Jet.ofRat ((complete p o).mulExact x y)) := exact.mul_complete
  have add : ∀ x y : List Rat, Jet.add (Jet.ofRat x) (Jet.ofRat y) =
      .ok (Jet.ofRat (List.zipWith (· + ·) x y)) := zipEach_map exact.add
  have product : ∀ x y : List Rat, ((complete p o).mulExact x y).length = (complete p o).size :=
    length_mulExact p o
  have sum : (List.zipWith (· + ·) b c).length = (complete p o).size := by
    rw [List.length_zipWith, hb, hc, Nat.min_self]
  have one : (Jet.unit Rat (complete p o).size).length = (complete p o).size :=
    length_powerExact p o [] 0
  refine ⟨⟨_, product a b, mul ha hb, ?_⟩, ⟨_, mul ha hb, ?_⟩,
    ⟨_, _, _, mul ha hb, mul hb hc, mul (product a b) hc, ?_⟩,
    ⟨_, _, _, _, add b c, mul ha hb, mul ha hc, mul ha sum, ?_⟩, ?_, ?_⟩
  · rw [order_complete, polynomial_mulExact]
  · rw [mul hb ha, mulExact_comm]
  · rw [mul ha (product b c), mulExact_assoc]
  · rw [add, mulExact_add a (hb.trans hc.symm)]
  · rw [mul one ha, mulExact_comm, mulExact_unit ha]
  · rw [mul ha one, mulExact_unit ha]

/-- Three jets of two parameters up to order one. -/
theorem Tables.isTruncatedRing_two_one : Built 2 1 (complete 2 1) ∧
    (complete 2 1).IsTruncatedRing [2, 1, 0] [3, 0, 1] [-1, 5, 1 / 2] :=
  ⟨built_complete 2 1,
    isTruncatedRing_of_built (built_complete 2 1) (by decide) (by decide) (by decide)⟩

end JetAlgebra
