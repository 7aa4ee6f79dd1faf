import JetAlgebra.Proofs.ExponentLaws
import JetAlgebra.Proofs.Rounding

/-!
# Integers as real exponents

A rational exponent that happens to be an integer takes the recipe for real exponents.  That
starts at the lowest power, which may be a negative one, and multiplies up; the falling factors,
which are rationals here, become zero where the other recipe writes zeros down.  Both list the
same derivatives (`Outer.realPower_rat`).

Whether the exponent or the value is zero is asked of the doubles next to them.  For the exponent
that is the same question (`Binary64.round_intCast_beq_zero`), and for the value it is what is
assumed.
-/
namespace JetAlgebra
open Tables

namespace Exact

/-- **An integer power of a rational other than zero** is the power. -/
theorem zpow_eq {q : Rat} (hq : q ≠ 0) (n : Int) : zpow q n = .ok (q ^ n) := by
  rw [zpow]
  rcases lt_or_ge n 0 with negative | natural
  · obtain ⟨m, rfl⟩ := Int.exists_eq_neg_ofNat negative.le
    rw [if_neg negative.not_ge, if_neg hq, neg_neg, Int.toNat_natCast, pow_eq, inv_pow, zpow_neg,
      zpow_natCast]
  · obtain ⟨m, rfl⟩ := Int.eq_ofNat_of_zero_le natural
    rw [if_pos natural, Int.toNat_natCast, pow_eq, zpow_natCast]

/-- A number with a finite double rounds to it. -/
theorem round_eq_of_toFloat {q : Rat} {x : Float} (h : toFloat q = .ok x) :
    Binary64.round q = x := by
  rw [toFloat] at h
  split at h
  · cases h
  · exact Except.ok.inj h

end Exact

/-- Rational integers are factors of rationals. -/
theorem Scalar.isFactor_rat : IsFactor Scalar.rat fun n => .rat n where
  times _ _ := rfl
  mul m n := congrArg (fun q => Except.ok (Scalar.rat q)) (Int.cast_mul m n).symm
  sub m n := congrArg (fun q => Except.ok (Scalar.rat q)) (Int.cast_sub m n).symm

theorem Scalar.pow_rat_intCast {x : Rat} (hx : x ≠ 0) (n : Int) :
    Arithmetic.pow (rat x) (rat n) = .ok (rat (x ^ n)) := by
  have power : Exact.power x n = .ok (x ^ n) := by
    rw [Exact.power, if_pos (Rat.den_intCast n), Rat.num_intCast, Exact.zpow_eq hx]
  exact bind_eq_ok power rfl

/-- **The powers below `x^n`, from the lowest one up.** -/
theorem Outer.realPowers {x : Rat} (hx : x ≠ 0) (n : Int) (order : Nat) :
    Outer.powersDown (Scalar.rat x) order (Scalar.rat (x ^ (n - order))) [] =
      .ok ((List.range (order + 1)).map fun k : Nat => Scalar.rat (x ^ (n - (k : Int)))) := by
  rw [Scalar.isExactField_rat.powersDown, List.append_nil]
  refine congrArg Except.ok (List.map_congr_left fun k hk => ?_)
  have below : k ≤ order := Nat.lt_succ_iff.mp (List.mem_range.mp hk)
  rw [← zpow_natCast, ← zpow_add₀ hx, Nat.cast_sub below, sub_add_sub_cancel]

/-- **The recipe for a real exponent lists the derivatives**, if neither the exponent nor the
value is next to zero. -/
theorem Outer.realPower_of_ne_zero {n : Int} {x : Rat} {y z : Float}
    (hy : Exact.toFloat n = .ok y) (hy0 : (y == 0.0) = false) (hz : Exact.toFloat x = .ok z)
    (hz0 : (z == 0.0) = false) (order : Nat) :
    Outer.realPower (.rat n) (Scalar.rat x) order =
      .ok (.compose ((Outer.zpowDerivatives n x order).map .rat)) := by
  have hx : x ≠ 0 := Binary64.ne_zero_of_round (by rwa [Exact.round_eq_of_toFloat hz])
  have scaled := Scalar.isFactor_rat.scalePowers n (fun k : Nat => x ^ (n - (k : Int))) order
  rw [Outer.zpowDerivatives, List.map_map, Outer.realPower]
  refine bind_eq_ok hy ?_
  rw [hy0]
  refine bind_eq_ok hz ?_
  rw [hz0]
  exact bind_eq_ok (Scalar.isFactor_rat.sub n order) (bind_eq_ok (Scalar.pow_rat_intCast hx _)
    (bind_eq_ok (Outer.realPowers hx n order) (bind_eq_ok scaled rfl)))

/-- **The two recipes for an integer exponent agree**, if the value has a double that is finite
and not zero. -/
theorem Outer.realPower_rat {n : Int} {x : Rat} {y z : Float} (hy : Exact.toFloat n = .ok y)
    (hz : Exact.toFloat x = .ok z) (hz0 : (z == 0.0) = false) (order : Nat) :
    Outer.realPower (.rat n) (Scalar.rat x) order = Outer.integerPower n (Scalar.rat x) order := by
  have same : (y == 0.0) = true ↔ n = 0 := by
    rw [← Exact.round_eq_of_toFloat hy, Binary64.round_intCast_beq_zero]
  by_cases hn : n = 0
  · have one := Scalar.isExact_rat.oneLike x
    rw [Outer.realPower, Outer.integerPower, if_pos hn, one]
    refine bind_eq_ok hy ?_
    rw [same.mpr hn]
    exact bind_eq_ok one rfl
  · have hx : x ≠ 0 := Binary64.ne_zero_of_round (by rwa [Exact.round_eq_of_toFloat hz])
    rw [Outer.realPower_of_ne_zero hy (Bool.eq_false_iff.mpr (mt same.mp hn)) hz hz0,
      Scalar.isExactDivision_rat.integerPower hn hx]

/-- **Both exponents do the same to a memory**, also if the result has no place in it. -/
theorem run_pow_rat {t : Tables} {g : List Rat} {m : Memory} {x : Window}
    (hx : m.Holds t.calculus x g) (hg : 0 < g.length) {n : Int} {y z : Float}
    (hy : Exact.toFloat n = .ok y) (hz : Exact.toFloat (g.getD 0 0) = .ok z)
    (hz0 : (z == 0.0) = false) (r : Window) :
    (Operation.run t.calculus (.pow x (.scalar (.rat n)) r)).run.run m =
      (Operation.run t.calculus (.pow x (.scalar (.int n)) r)).run.run m := by
  have read := hx.read "operand"
  have value : Jet.value .faithful (Jet.ofRat g) = .ok (.rat (g.getD 0 0)) := Jet.value_map hg
  have recipe := Outer.realPower_rat hy hz hz0 t.calculus.order
  have computed : Operation.constantPower t.calculus m x (.scalar (.rat n)) r =
      Operation.constantPower t.calculus m x (.scalar (.int n)) r := by
    rw [hx.constantPower, hx.constantPower, follow_of_value hx.storageOf read value,
      follow_of_value hx.storageOf read value]
    exact congrArg (Except.mapError _ · >>= _) recipe
  rw [Operation.run, Operation.run, run_compute, run_compute, computed]

/-! ## What callers may rely on -/

/-- **A rational integer does what a plain one does** as the exponent of a power: for the tables
`t`, at the jet `g` and the integer `n`. -/
structure Tables.AgreesOnInteger (t : Tables) (g : List Rat) (n : Int) : Prop where
  /-- There is one jet that both exponents leave. -/
  computed : ∃ c : List Rat, c.length = t.size ∧ t.Maps (.pow · (.scalar (.rat n)) ·) g c ∧
    t.Maps (.pow · (.scalar (.int n)) ·) g c
  /-- Both have the same outcome and the same memory after it, also if the result has no place. -/
  same : ∀ (m : Memory) (x r : Window), m.Holds t.calculus x g →
    (Operation.run t.calculus (.pow x (.scalar (.rat n)) r)).run.run m =
      (Operation.run t.calculus (.pow x (.scalar (.int n)) r)).run.run m

/-- **Integers may be rationals**, for every signature, if the exponent and the value have finite
doubles and that of the value is not zero. -/
theorem Tables.agreesOnInteger_of_built {p o : Nat} {t : Tables} (h : Built p o t) {g : List Rat}
    (hg : g.length = t.size) {n : Int} {y z : Float} (hy : Exact.toFloat n = .ok y)
    (hz : Exact.toFloat (g.getD 0 0) = .ok z) (hz0 : (z == 0.0) = false) :
    t.AgreesOnInteger g n := by
  obtain rfl := h.eq_complete
  have same : ∀ (m : Memory) (x r : Window), m.Holds (complete p o).calculus x g → _ :=
    fun m x r hx => run_pow_rat hx (hg ▸ size_pos p o) hy hz hz0 r
  have value : g.getD 0 0 ≠ 0 := Binary64.ne_zero_of_round (by rwa [Exact.round_eq_of_toFloat hz])
  have plain := maps_powInt (n := n) hg (Or.inr value)
  refine ⟨⟨_, length_zpowExact p o g n, fun m x r hx hr => ?_, plain⟩, same⟩
  obtain ⟨after, run, holds⟩ := plain m x r hx hr
  exact ⟨after, (same m x r hx).trans run, holds⟩

/-- A jet of two parameters up to order one, to the power of minus two. -/
theorem Tables.agreesOnInteger_two_one : Built 2 1 (complete 2 1) ∧
    Exact.toFloat ((-2 : Int) : Rat) = .ok (-2.0) ∧ Exact.toFloat 3 = .ok 3.0 ∧
    ((3.0 : Float) == 0.0) = false ∧ (complete 2 1).AgreesOnInteger [3, 1 / 2, 0] (-2) := by
  have exponent : Exact.toFloat ((-2 : Int) : Rat) = .ok (-2.0) := by decide +kernel
  have value : Exact.toFloat 3 = .ok 3.0 := by decide +kernel
  have nonzero : ((3.0 : Float) == 0.0) = false := by decide +kernel
  exact ⟨built_complete 2 1, exponent, value, nonzero,
    agreesOnInteger_of_built (built_complete 2 1) (by decide) exponent value nonzero⟩

end JetAlgebra
