import JetAlgebra.Operation
import JetAlgebra.Proofs.PolynomialSweeps

/-!
# Derivatives of the inverse functions

Each of the six inverse functions has a first derivative that is a constant times a power of
`1 / (constant + square * x^2)`, so all its derivatives are polynomials in `x` times such powers,
and the polynomials obey a differential rule.  `InverseFunction.rule` says which, and
`InverseFunction.derivative` what the derivatives are.

The recipes write down exactly that over exact elements
(`InverseFunction.derivativesOf_eq_ok`), whatever the function and the square root are, wherever
the quadratic is not zero.
-/
namespace JetAlgebra
open Arithmetic Polynomial Outer

/-! ## A recurrence that starts from a constant -/

section Recipe
variable {K E : Type} [Field K] [Arithmetic E] {lift : K → E} (exact : IsExactElement lift)
  {r : Recurrence} {rule : DifferentialRule} (computes : r.Computes rule 2) {P : Nat → K[X]}
  (next : ∀ n, P (n + 2) = rule.next ((n + 2 : Nat) : Int) (P (n + 1)))
include next

theorem Outer.alternates_of_constant {a : K} (first : P 1 = C a) (n : Nat) :
    Alternates n (P (n + 1)) := by
  induction n with
  | zero =>
    intro j hj
    rw [first, coeff_C, if_neg (by omega)]
  | succ n ih =>
    rw [next]
    exact ih.next _

include exact computes

/-- **One derivative** and the list of coefficients for the one after it. -/
theorem Outer.inverseStep_eq_ok {n order : Nat} {p : List E} (alternates : Alternates n (P (n + 1)))
    (carried : Carries lift p (P (n + 1)) n) (length : p.length = order) (hn : n + 1 < order)
    (x f s : K) :
    ∃ q, inverseStep r (lift x) (lift (x * x)) (lift 0) (lift f) (n + 2, lift s, p) =
        .ok (lift (s * f * (P (n + 2)).eval x), n + 3, lift (s * f), q) ∧
      q.length = order ∧ Carries lift q (P (n + 2)) (n + 1) := by
  have degree : ((n + 2 : Nat) : Int) - 2 = n := by omega
  obtain ⟨top, ht, scaled⟩ :=
    bind_eq_ok_iff.mp (leading_eq_ok exact.toIsExactRing computes alternates carried degree)
  obtain ⟨q, advanced, kept, carries⟩ := advance_eq_ok exact.toIsExactRing computes alternates
    carried (length ▸ hn) (n := n + 2) (by omega) x
  rw [← next] at advanced scaled carries
  refine ⟨q, ?_, kept.trans length, carries⟩
  rw [inverseStep, degree]
  exact bind_eq_ok ht (bind_eq_ok scaled (bind_eq_ok advanced
    (bind_eq_ok (exact.mul s f) (bind_eq_ok (exact.mul _ _) rfl))))

/-- **All derivatives** of an inverse function, from its value, the scale and the ratio of two
scales. -/
theorem Outer.inverseFunction_eq_ok {first : Float} {a : Int}
    (constant : Binary64.toRat? first = some (a : Rat)) (hP : P 1 = C (a : K)) (x v c f : K)
    (order : Nat) :
    inverseFunction r first (lift x) (lift v) order (lift c) (lift f) =
      .ok (lift v :: (List.range order).map fun n => lift (c * f ^ n * (P (n + 1)).eval x)) := by
  cases order with
  | zero => rfl
  | succ m =>
    have alternates := alternates_of_constant next hP
    have coefficients : (List.replicate (m + 1) (ofFloat 0.0)).set 0 (ofFloat first) =
        lift (a : K) :: List.replicate m (lift 0) := by
      rw [exact.ofFloat constant, exact.ofFloat_zero]
      rfl
    have start : Carries lift (lift (a : K) :: List.replicate m (lift 0)) (P 1) 0 := by
      refine ⟨by simp, fun j hj _ => ?_⟩
      rw [Nat.le_zero.mp hj, hP, coeff_C_zero]
      rfl
    -- Before derivative `n + 2` the scale is `c * f^n`, and the list carries polynomial `n + 1`.
    have rest := trail_eq_ok (fun n => lift (c * f ^ (n + 1) * (P (n + 2)).eval x))
      (fun n (state : Nat × E × List E) => state.1 = n + 2 ∧ state.2.1 = lift (c * f ^ n) ∧
        state.2.2.length = m + 1 ∧ Carries lift state.2.2 (P (n + 1)) n) m
      (by
        rintro n ⟨_, _, p⟩ hn ⟨rfl, rfl, length, carried⟩
        obtain ⟨q, run, kept, carries⟩ := inverseStep_eq_ok exact computes next (alternates n)
          carried length (Nat.succ_lt_succ hn) x f (c * f ^ n)
        rw [mul_assoc c, ← pow_succ] at run
        exact ⟨_, run, rfl, rfl, kept, carries⟩)
      m (i := 0) (s := (2, lift c, lift (a : K) :: List.replicate m (lift 0))) (by omega)
      ⟨rfl, by rw [pow_zero, mul_one], by simp, start⟩
    rw [← inverseFrom_eq, ← List.range_eq_range'] at rest
    have whole : inverseFunction r first (lift x) (lift v) (m + 1) (lift c) (lift f) = (do
        let zero ← zeroLike (lift x)
        let p := (List.replicate (m + 1) (ofFloat 0.0)).set 0 (ofFloat first)
        let x2 ← mul (lift x) (lift x)
        let d ← mul (lift c) (← slot p 0)
        return lift v :: d :: (← inverseFrom r (lift x) x2 zero (lift f) m 2 (lift c) p)) := rfl
    rw [whole, coefficients]
    refine bind_eq_ok (exact.zeroLike x) (bind_eq_ok (exact.mul x x) (bind_eq_ok rfl
      (bind_eq_ok (exact.mul c a) (bind_eq_ok rest ?_))))
    rw [List.range_succ_eq_map, List.map_cons, List.map_map, pow_zero, mul_one, hP, eval_C]
    rfl

end Recipe

/-! ## The six functions -/

/-- The inverse functions whose derivatives come from a recurrence. -/
inductive InverseFunction where
  | asin | acos | atan | asinh | acosh | atanh
  deriving DecidableEq, Repr

namespace InverseFunction

/-- The elementary function. -/
def elementary : InverseFunction → Elementary
  | .asin => .asin
  | .acos => .acos
  | .atan => .atan
  | .asinh => .asinh
  | .acosh => .acosh
  | .atanh => .atanh

/-- How its polynomials come from each other: polynomial `n` is
`(constant + square * X^2) * P' + factor n * X * P` for the polynomial `P` before. -/
def rule : InverseFunction → DifferentialRule
  | .asin | .acos => { constant := 1, square := -1, factor := fun n => 2 * n - 3 }
  | .atan => { constant := 1, square := 1, factor := fun n => -(2 * (n - 1)) }
  | .asinh => { constant := 1, square := 1, factor := fun n => -(2 * n - 3) }
  | .acosh => { constant := -1, square := 1, factor := fun n => -(2 * n - 3) }
  | .atanh => { constant := 1, square := -1, factor := fun n => 2 * (n - 1) }

/-- The first of its polynomials, which is a constant. -/
def first : InverseFunction → Int
  | .acos => -1
  | .asin | .atan | .asinh | .acosh | .atanh => 1

variable {K : Type} [Field K] (f : InverseFunction)

/-- **The polynomials of an inverse function.**  They are counted from one. -/
noncomputable def polynomial : Nat → K[X]
  | 0 => 0
  | 1 => C (f.first : K)
  | n + 2 => f.rule.next ((n + 2 : Nat) : Int) (polynomial (n + 1))

/-- The quadratic that the derivatives have in their denominators. -/
def denominator (x : K) : K := f.rule.constant + f.rule.square * x ^ 2

/-- The scale of the first derivative, from the reciprocal of the quadratic. -/
def scale {E : Type} [Arithmetic E] (reciprocal : E) : Except ArithmeticFault E :=
  match f with
  | .atan | .atanh => .ok reciprocal
  | .asin | .acos | .asinh | .acosh => apply .sqrt reciprocal

/-- **The derivatives of an inverse function** at `x`, where it has the value `v`, for the scale
`c` of the first one. -/
noncomputable def derivative (x v c : K) : Nat → K
  | 0 => v
  | n + 1 => c * (f.denominator x)⁻¹ ^ n * (f.polynomial (n + 1)).eval x

/-- The recurrence that its recipe follows. -/
def recurrence : InverseFunction → Recurrence
  | .asin | .acos => arcsineRecurrence
  | .atan => arctangentRecurrence
  | .asinh => areaSineRecurrence
  | .acosh => areaCosineRecurrence
  | .atanh => areaTangentRecurrence

/-- The first constant, as its recipe writes it down. -/
def firstDouble : InverseFunction → Float
  | .acos => -1.0
  | .asin | .atan | .asinh | .acosh | .atanh => 1.0

theorem toRat?_firstDouble (f : InverseFunction) :
    Binary64.toRat? f.firstDouble = some (f.first : Rat) := by
  cases f <;> decide +kernel

/-- **The recurrences compute the rules.** -/
theorem recurrence_computes (f : InverseFunction) : f.recurrence.Computes f.rule 2 := by
  constructor
  case negated => cases f <;> rfl
  case leading => intro n; cases f <;> simp only [recurrence, rule, arcsineRecurrence,
    arctangentRecurrence, areaSineRecurrence, areaCosineRecurrence, areaTangentRecurrence] <;> ring
  case above => intro n k; cases f <;> simp only [recurrence, rule, arcsineRecurrence,
    arctangentRecurrence, areaSineRecurrence, areaCosineRecurrence, areaTangentRecurrence] <;> ring
  case below => intro n k; cases f <;> simp only [recurrence, rule, arcsineRecurrence,
    arctangentRecurrence, areaSineRecurrence, areaCosineRecurrence, areaTangentRecurrence] <;> ring

/-- The reciprocal of the quadratic, as its recipe computes it. -/
def reciprocal {E : Type} [Arithmetic E] (x : E) : Except ArithmeticFault E :=
  match f with
  | .asin | .acos | .atanh => overOneMinusSquare x
  | .atan | .asinh => overSquarePlusOne x
  | .acosh => overSquareMinusOne x

/-- **All six recipes** compute the reciprocal first, then the value and then the scale. -/
theorem derivativesOf_eq {E : Type} [Arithmetic E] (f : InverseFunction) (x : E) (order : Nat) :
    Operation.derivativesOf f.elementary x order = (do
      let r ← f.reciprocal x
      let v ← apply f.elementary x
      let c ← f.scale r
      inverseFunction f.recurrence f.firstDouble x v order c r) := by
  cases f <;> rfl

section Run
variable {E : Type} [Arithmetic E] {lift : K → E} (exact : IsExactElement lift)
include exact

theorem reciprocal_eq_ok {x : K} (hx : f.denominator x ≠ 0) :
    f.reciprocal (lift x) = .ok (lift (f.denominator x)⁻¹) := by
  have reciprocal := exact.toIsExactDivision.reciprocal hx
  have one : Arithmetic.ofInt 1 = lift 1 := by rw [exact.ofInt, Int.cast_one]
  cases f with
  | asin | acos | atanh =>
    have quadratic : 1 - x * x = denominator .asin x := by simp [denominator, rule]; ring
    refine bind_eq_ok (exact.mul x x) ?_
    rw [one, exact.sub, quadratic]
    exact reciprocal
  | atan | asinh =>
    have quadratic : x * x + 1 = denominator .atan x := by simp [denominator, rule]; ring
    refine bind_eq_ok (exact.mul x x) ?_
    rw [one, exact.add, quadratic]
    exact reciprocal
  | acosh =>
    have quadratic : x * x - 1 = denominator .acosh x := by simp [denominator, rule]; ring
    refine bind_eq_ok (exact.mul x x) ?_
    rw [one, exact.sub, quadratic]
    exact reciprocal

/-- **The derivatives of the inverse functions** are the polynomials of the rule, over powers of the
quadratic: for every order, wherever the quadratic is not zero, and whatever the function and
the square root are. -/
theorem derivativesOf_eq_ok {x v c : K} (hx : f.denominator x ≠ 0)
    (value : apply f.elementary (lift x) = .ok (lift v))
    (scaled : f.scale (lift (f.denominator x)⁻¹) = .ok (lift c)) (order : Nat) :
    Operation.derivativesOf f.elementary (lift x) order =
      .ok ((List.range (order + 1)).map fun n => lift (f.derivative x v c n)) := by
  have derivatives := inverseFunction_eq_ok exact f.recurrence_computes
    (P := f.polynomial (K := K)) (fun _ => rfl) f.toRat?_firstDouble rfl x v c
    (f.denominator x)⁻¹ order
  rw [derivativesOf_eq, List.range_succ_eq_map, List.map_cons, List.map_map]
  exact bind_eq_ok (f.reciprocal_eq_ok exact hx)
    (bind_eq_ok value (bind_eq_ok scaled derivatives))

end Run

/-- The inverse hyperbolic cosine at two, up to the third derivative.  The square root of a third
is some number `c`. -/
theorem derivativesOf_acosh_two : denominator .acosh (2 : Rat) ≠ 0 ∧
    Operation.derivativesOf .acosh (⟨2⟩ : ExactNumber Elementary.onRat) 3 =
      .ok ((List.range 4).map fun n => ⟨derivative .acosh (2 : Rat) (Elementary.onRat .acosh 2)
        (Elementary.onRat .sqrt (denominator .acosh (2 : Rat))⁻¹) n⟩) := by
  have quadratic : denominator .acosh (2 : Rat) ≠ 0 := by decide +kernel
  exact ⟨quadratic, derivativesOf_eq_ok .acosh ExactNumber.isExactElement quadratic rfl rfl 3⟩

end InverseFunction

end JetAlgebra
