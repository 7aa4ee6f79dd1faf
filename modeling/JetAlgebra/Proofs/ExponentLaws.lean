import JetAlgebra.Proofs.IntegerPowers
import JetAlgebra.Proofs.WindowResults

/-!
# The exponent laws

The operation that raises a jet of rationals to an integer takes one of three ways: none for the
exponent zero, up from the lowest power for a positive one, and through the reciprocal for a
negative one.  All three leave the same power of the jet (`maps_powInt`), so exponents add up
across them.  What is excluded is a negative power where the value of the jet is zero, and the
operation refuses that (`power_refuses`).
-/
namespace JetAlgebra
open Tables

section Runs
variable {p o : Nat} {g : List Rat}

/-- **Raising a jet to an integer** leaves its power, if there is one. -/
theorem maps_powInt (hg : g.length = (complete p o).size) {n : Int}
    (h : 0 ≤ n ∨ g.getD 0 0 ≠ 0) :
    (complete p o).Maps (.pow · (.scalar (.int n)) ·) g ((complete p o).zpowExact g n) :=
  maps_power (length_zpowExact p o g n)
    ((bind_assoc _ _ _).trans (Scalar.isExactDivision_rat.powInt_complete hg h))

/-- **A negative power of a jet with the value zero** fails, wherever the result would go. -/
theorem power_refuses {t : Tables} {m : Memory} {x : Window} (hx : m.Holds t.calculus x g)
    (hg : 0 < g.length) (value : g.getD 0 0 = 0) {n : Int} (hn : n < 0) (r : Window) :
    (Operation.pow x (.scalar (.int n)) r).Refuses t.calculus m (.arithmetic .divisionByZero) := by
  have read : Jet.value .faithful (Jet.ofRat g) = .ok (.rat (g.getD 0 0)) := Jet.value_map hg
  rw [value] at read
  have failed := Outer.integerPower_rat_zero hn t.calculus.order
  refine refuses_of_error (w := r)
    (f := (Operation.constantPower t.calculus · x (.scalar (.int n)) r)) rfl ?_
  rw [hx.constantPower, follow_of_value hx.storageOf (hx.read _) read]
  show ((Outer.integerPower n _ _).mapError _ >>= _) = _
  rw [failed]
  rfl

end Runs

/-- **Integer powers obey the exponent laws**: for the tables `t`, at the jet `g` and its powers. -/
structure Tables.ExponentLaws (t : Tables) (g : List Rat) (power : Int → List Rat) : Prop where
  size : ∀ n, (power n).length = t.size
  /-- The powers are what is computed: the natural ones always, and all of them unless the value
  is zero. -/
  computed : ∀ n, 0 ≤ n ∨ g.getD 0 0 ≠ 0 → t.Maps (.pow · (.scalar (.int n)) ·) g (power n)
  zero : power 0 = 1 :: List.replicate (t.size - 1) 0
  one : power 1 = g
  add : ∀ m n, (0 ≤ m ∧ 0 ≤ n) ∨ g.getD 0 0 ≠ 0 →
    t.Combines (.binary .multiply) (power m) (power n) (power (m + n))
  /-- A natural power is a product of so many factors. -/
  product : ∀ n : Nat, Jet.repeatedProduct t.calculus (Jet.ofRat (power 0)) (Jet.ofRat g) n =
    .ok (Jet.ofRat (power n))
  /-- A negative power is the inverse of a natural one. -/
  inverse : ∀ n : Int, g.getD 0 0 ≠ 0 →
    t.Combines (.binary .multiply) (power (-n)) (power n) (power 0)
  /-- Without a value there are no negative powers, and no buffer changes. -/
  refused : ∀ n < 0, g.getD 0 0 = 0 → ∀ (m : Memory) (x r : Window), m.Holds t.calculus x g →
    (Operation.pow x (.scalar (.int n)) r).Refuses t.calculus m (.arithmetic .divisionByZero)

/-- **Integer powers obey the exponent laws** for every signature. -/
theorem Tables.exponentLaws_of_built {p o : Nat} {t : Tables} (h : Built p o t) {g : List Rat}
    (hg : g.length = t.size) : ∃ power, t.ExponentLaws g power := by
  obtain rfl := h.eq_complete
  have exact := Scalar.isExactDivision_rat
  have length := length_zpowExact p o g
  have add : ∀ m n, (0 ≤ m ∧ 0 ≤ n) ∨ g.getD 0 0 ≠ 0 → (complete p o).Combines (.binary .multiply)
      ((complete p o).zpowExact g m) ((complete p o).zpowExact g n)
      ((complete p o).zpowExact g (m + n)) := by
    intro m n defined
    have product := exact.mul_complete (length m) (length n)
    rw [← zpowExact_add defined] at product
    exact combines_multiply (length _) product
  refine ⟨(complete p o).zpowExact g, length, fun n => maps_powInt hg, zpowExact_zero _ g,
    zpowExact_one hg, add, fun n => ?_, fun n value => ?_, fun n hn value m x r hx => ?_⟩
  · rw [zpowExact_natCast]
    exact exact.repeatedProduct_complete hg n
  · have cancelled := add (-n) n (Or.inr value)
    rwa [neg_add_cancel] at cancelled
  · exact power_refuses hx (hg ▸ size_pos p o) value hn r

/-- A jet of two parameters up to order one. -/
theorem Tables.exponentLaws_two_one : Built 2 1 (complete 2 1) ∧
    ([2, 1, -3] : List Rat).length = (complete 2 1).size ∧
    (∃ m x r, Memory.Holds m (complete 2 1).calculus x [2, 1, -3] ∧
      m.Accepts (complete 2 1).calculus r) ∧
    ∃ power, (complete 2 1).ExponentLaws [2, 1, -3] power := by
  have length : ([2, 1, -3] : List Rat).length = (complete 2 1).size := by decide
  obtain ⟨m, x, -, r, hx, -, hr⟩ :=
    @Memory.exists_holds (complete 2 1).calculus _ _ length length
  exact ⟨built_complete 2 1, length, ⟨m, x, r, hx, hr⟩,
    exponentLaws_of_built (built_complete 2 1) length⟩

end JetAlgebra
