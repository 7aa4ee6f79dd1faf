import JetAlgebra.Proofs.IntegerPowers
import JetAlgebra.Proofs.TruncatedProduct
import JetAlgebra.Proofs.WindowResults

/-!
# Division of exact jets

A quotient is computed as a product with the reciprocal, and the reciprocal is the power `-1`.
The exponent laws make that the inverse of the divisor (`mulExact_zpowExact_neg_one`), so division
and multiplication undo each other whenever the value of the divisor is not zero.  Where it is
zero the reciprocal fails, before anything else is looked at.
-/
namespace JetAlgebra
open Tables

section Exact
variable {K : Type} [Field K] {p o : Nat}

/-- The quotient of two jets over a field. -/
noncomputable def Tables.divExact (t : Tables) (a b : List K) : List K :=
  t.mulExact a (t.zpowExact b (-1))

theorem length_divExact (p o : Nat) (a b : List K) :
    ((complete p o).divExact a b).length = (complete p o).size :=
  length_mulExact p o _ _

variable [CharZero K] {a b : List K}

/-- **A jet times its reciprocal is one.** -/
theorem mulExact_zpowExact_neg_one (hb : b.length = (complete p o).size) (value : b.getD 0 0 ≠ 0) :
    (complete p o).mulExact b ((complete p o).zpowExact b (-1)) =
      Jet.unit K (complete p o).size := by
  have sum := zpowExact_add (p := p) (o := o) (m := 1) (n := -1) (Or.inr value)
  rw [zpowExact_one hb, add_neg_cancel, zpowExact_zero] at sum
  exact sum.symm

/-- **A product divided by a factor** is the other factor. -/
theorem divExact_mulExact (ha : a.length = (complete p o).size)
    (hb : b.length = (complete p o).size) (value : b.getD 0 0 ≠ 0) :
    (complete p o).divExact ((complete p o).mulExact a b) b = a := by
  rw [divExact, mulExact_assoc, mulExact_zpowExact_neg_one hb value, mulExact_unit ha]

/-- **A quotient times the divisor** is the dividend. -/
theorem mulExact_divExact (ha : a.length = (complete p o).size)
    (hb : b.length = (complete p o).size) (value : b.getD 0 0 ≠ 0) :
    (complete p o).mulExact ((complete p o).divExact a b) b = a := by
  rw [divExact, mulExact_assoc, mulExact_comm _ b, mulExact_zpowExact_neg_one hb value,
    mulExact_unit ha]

/-- **The quotient of two jets**, if the value of the divisor is not zero. -/
theorem IsExactDivision.divide_complete {E : Type} [Arithmetic E] {lift : K → E}
    (exact : IsExactDivision lift) (ha : a.length = (complete p o).size)
    (hb : b.length = (complete p o).size) (value : b.getD 0 0 ≠ 0) :
    Jet.divide (complete p o).calculus .faithful (a.map lift) (b.map lift) =
      .ok (((complete p o).divExact a b).map lift) :=
  bind_eq_ok (bind_eq_ok (exact.powInt_complete hb (Or.inr value)) (Storage.mapM_store _))
    (exact.mul_complete ha (length_zpowExact p o b (-1)))

end Exact

/-! ## What callers may rely on -/

/-- **A divisor with the value zero** fails a division, wherever the dividend is and the result
would go. -/
theorem divide_refuses {t : Tables} {g : List Rat} {m : Memory} {y : Window}
    (hy : m.Holds t.calculus y g) (hg : 0 < g.length) (value : g.getD 0 0 = 0) (x r : Window) :
    (Operation.binary .divide x y r).Refuses t.calculus m (.arithmetic .divisionByZero) := by
  have reciprocal : Jet.reciprocal t.calculus .faithful (Jet.ofRat g) = .error .divisionByZero :=
    powInt_of_value_zero hg value (by decide)
  exact refuses_of_error (f := (Operation.quotient t.calculus · x y r)) rfl
    (quotient_of_reciprocal hy.storageOf (hy.read _) reciprocal)

/-- **Division is the inverse of multiplication**: for the tables `t`, and at the jets `f` and
`g`. -/
structure Tables.InvertsMultiplication (t : Tables) (f g : List Rat) : Prop where
  /-- Dividing a product by a factor leaves the other factor. -/
  undone : g.getD 0 0 ≠ 0 → ∃ fg : List Rat, fg.length = t.size ∧
    t.Combines (.binary .multiply) f g fg ∧ t.Combines (.binary .divide) fg g f
  /-- Multiplying a quotient by the divisor leaves the dividend. -/
  redone : g.getD 0 0 ≠ 0 → ∃ q : List Rat, q.length = t.size ∧
    t.Combines (.binary .divide) f g q ∧ t.Combines (.binary .multiply) q g f
  /-- A divisor with the value zero is refused, and no buffer changes. -/
  refused : g.getD 0 0 = 0 → ∀ (m : Memory) (x y r : Window), m.Holds t.calculus y g →
    (Operation.binary .divide x y r).Refuses t.calculus m (.arithmetic .divisionByZero)

/-- **Division inverts multiplication** for every signature. -/
theorem Tables.invertsMultiplication_of_built {p o : Nat} {t : Tables} (h : Built p o t)
    {f g : List Rat} (hf : f.length = t.size) (hg : g.length = t.size) :
    t.InvertsMultiplication f g := by
  obtain rfl := h.eq_complete
  have exact := Scalar.isExactDivision_rat
  refine ⟨fun value => ?_, fun value => ?_, fun value m x y r hy => ?_⟩
  · have product := length_mulExact p o f g
    have quotient := exact.divide_complete product hg value
    rw [divExact_mulExact hf hg value] at quotient
    exact ⟨_, product, combines_multiply product (exact.mul_complete hf hg),
      combines_divide hf quotient⟩
  · have length := length_divExact p o f g
    have product := exact.mul_complete length hg
    rw [mulExact_divExact hf hg value] at product
    exact ⟨_, length, combines_divide length (exact.divide_complete hf hg value),
      combines_multiply hf product⟩
  · exact divide_refuses hy (hg ▸ size_pos p o) value x r

/-- Two jets of two parameters up to order one, with a value in the divisor and without. -/
theorem Tables.invertsMultiplication_two_one : Built 2 1 (complete 2 1) ∧
    (∃ m x y r, Memory.Holds m (complete 2 1).calculus x [2, 1, 0] ∧
      m.Holds (complete 2 1).calculus y [-3, 0, 1 / 2] ∧ m.Accepts (complete 2 1).calculus r) ∧
    (complete 2 1).InvertsMultiplication [2, 1, 0] [-3, 0, 1 / 2] ∧
    (complete 2 1).InvertsMultiplication [2, 1, 0] [0, 5, 1] :=
  ⟨built_complete 2 1, Memory.exists_holds (by decide) (by decide),
    invertsMultiplication_of_built (built_complete 2 1) (by decide) (by decide),
    invertsMultiplication_of_built (built_complete 2 1) (by decide) (by decide)⟩

end JetAlgebra
