import JetAlgebra.Proofs.IntegerPowers

/-!
# Exact elements

Over elements that compute exactly, recipes are formulas: their constants are the integers that
are written down, also where they are written as doubles, and no step rounds.  `IsExactElement`
says so of the elements `lift x` for the numbers `x` of a field, and `IsExactRing` is the part
of it that makes sense in a ring; every commutative ring has such elements (`RingNumber`).  What
the elementary functions are is left open.

Rational scalars are not exact in this sense, as a recipe's double stays a double until it meets a
rational.  `ExactNumber` takes it as a rational at once; its elementary functions are given with
the type, so that they can satisfy whatever is asked of them.  What both have in common is
`IsExactScalar`.
-/
namespace JetAlgebra
open Arithmetic

/-- **Elements that compute like a ring**, constants included. -/
structure IsExactRing {K E : Type} [CommRing K] [Arithmetic E] (lift : K → E) : Prop where
  add : ∀ x y, Arithmetic.add (lift x) (lift y) = .ok (lift (x + y))
  sub : ∀ x y, Arithmetic.sub (lift x) (lift y) = .ok (lift (x - y))
  mul : ∀ x y, Arithmetic.mul (lift x) (lift y) = .ok (lift (x * y))
  neg : ∀ x, Arithmetic.neg (lift x) = .ok (lift (-x))
  zeroLike : ∀ x, Arithmetic.zeroLike (lift x) = .ok (lift 0)
  oneLike : ∀ x, Arithmetic.oneLike (lift x) = .ok (lift 1)
  ofInt : ∀ n : Int, Arithmetic.ofInt n = lift n
  /-- A double that is an integer stands for that integer. -/
  ofFloat : ∀ {x : Float} {n : Int}, Binary64.toRat? x = some (n : Rat) →
    Arithmetic.ofFloat x = lift n

/-- **Elements that compute like a field**, constants included. -/
structure IsExactElement {K E : Type} [Field K] [Arithmetic E] (lift : K → E) : Prop
    extends IsExactRing lift where
  div : ∀ x {y}, y ≠ 0 → Arithmetic.div (lift x) (lift y) = .ok (lift (x / y))
  pow : ∀ x (n : Nat), Arithmetic.pow (lift x) (lift (n : K)) = .ok (lift (x ^ n))

section Ring
variable {K E : Type} [CommRing K] [Arithmetic E] {lift : K → E} (exact : IsExactRing lift)
include exact

theorem IsExactRing.scale (n : Int) (x : K) :
    Arithmetic.scale n (lift x) = .ok (lift (n * x)) := by
  rw [Arithmetic.scale, exact.ofInt, exact.mul]

theorem IsExactRing.toIsExact : IsExact lift :=
  ⟨exact.add, exact.mul, exact.scale, exact.oneLike⟩

theorem IsExactRing.ofFloat_zero : Arithmetic.ofFloat 0.0 = lift 0 := by
  have double : Binary64.toRat? 0.0 = some ((0 : Int) : Rat) := by decide +kernel
  rw [exact.ofFloat double, Int.cast_zero]

theorem IsExactRing.one_eq : (Outer.one : E) = lift 1 := by
  have double : Binary64.toRat? 1.0 = some ((1 : Int) : Rat) := by decide +kernel
  rw [Outer.one, exact.ofFloat double, Int.cast_one]

end Ring

/-- Exact elements can be divided, by each other and by the integers of a recipe. -/
theorem IsExactElement.toIsExactDivision {K E : Type} [Field K] [Arithmetic E] {lift : K → E}
    (exact : IsExactElement lift) : IsExactDivision lift where
  toIsExact := exact.toIsExact
  sub := exact.sub
  zeroLike := exact.zeroLike
  mul_ofInt x n := by rw [exact.ofInt, exact.mul]
  div_ofInt x n hn := by rw [exact.ofInt, exact.div x hn]
  pow_ofNat x n := by rw [exact.ofInt, Int.cast_natCast, exact.pow]
  ofInt_mul m n := by rw [exact.ofInt, exact.ofInt, exact.ofInt, exact.mul, Int.cast_mul]
  ofInt_sub m n := by rw [exact.ofInt, exact.ofInt, exact.ofInt, exact.sub, Int.cast_sub]
  reciprocal hx := by rw [exact.one_eq, exact.div 1 hx, one_div]

/-- **Exact numbers that doubles meet**: there a double stands for the number that it is. -/
structure IsExactScalar {K E : Type} [Field K] [Arithmetic E] (lift : K → E) : Prop
    extends IsExactDivision lift where
  neg : ∀ x, Arithmetic.neg (lift x) = .ok (lift (-x))
  add_ofFloat : ∀ x {d : Float} {q : Rat}, Binary64.toRat? d = some q →
    Arithmetic.add (lift x) (ofFloat d) = .ok (lift (x + q))
  div_computed : ∀ x {d : Float} {q : Rat}, Binary64.toRat? d = some q → (q : K) ≠ 0 →
    Arithmetic.div (lift x) (computed d) = .ok (lift (x / q))

theorem Scalar.isExactScalar_rat : IsExactScalar Scalar.rat where
  toIsExactDivision := isExactDivision_rat
  neg _ := rfl
  add_ofFloat x d q h := by
    have double : Exact.ofFloat d = .ok q := by rw [Exact.ofFloat, h]
    exact bind_eq_ok double rfl
  div_computed x d q h hq := by
    have double : Exact.ofFloat d = .ok q := by rw [Exact.ofFloat, h]
    have quotient : Exact.div x q = .ok (x / q) := if_neg hq
    exact bind_eq_ok double (bind_eq_ok quotient rfl)

/-! ## Numbers of a ring -/

/-- A number of a commutative ring, in which there is nothing but sums and products. -/
structure RingNumber (K : Type) where
  value : K

namespace RingNumber
variable {K : Type} [CommRing K]

instance : Arithmetic (RingNumber K) where
  ofInt n := ⟨n⟩
  ofFloat x := ⟨((Binary64.toRat? x).getD 0).num⟩
  computed x := ⟨((Binary64.toRat? x).getD 0).num⟩
  add a b := .ok ⟨a.value + b.value⟩
  sub a b := .ok ⟨a.value - b.value⟩
  mul a b := .ok ⟨a.value * b.value⟩
  div _ _ := .error .unsupported
  pow _ _ := .error .unsupported
  neg a := .ok ⟨-a.value⟩
  zeroLike _ := .ok ⟨0⟩
  oneLike _ := .ok ⟨1⟩
  toFloat _ := .error .unsupported
  apply _ _ := .error .unsupported
  atan2 _ _ := .error .unsupported
  remainder _ _ := .error .unsupported

/-- **Every commutative ring** has exact elements. -/
theorem isExactRing : IsExactRing (RingNumber.mk : K → RingNumber K) where
  add _ _ := rfl
  sub _ _ := rfl
  mul _ _ := rfl
  neg _ := rfl
  zeroLike _ := rfl
  oneLike _ := rfl
  ofInt _ := rfl
  ofFloat {x n} h := by
    show (⟨((Binary64.toRat? x).getD 0).num⟩ : RingNumber K) = ⟨(n : K)⟩
    rw [h, Option.getD_some, Rat.num_intCast]

end RingNumber

/-! ## Rationals with elementary functions of their own -/

/-- A rational whose elementary functions are the given ones. -/
structure ExactNumber (kernel : Elementary → Rat → Rat) where
  value : Rat

namespace ExactNumber
variable {kernel : Elementary → Rat → Rat}

/-- The rational that a double is, if it is one. -/
def ofDouble (x : Float) : ExactNumber kernel := ⟨(Binary64.toRat? x).getD 0⟩

instance : Arithmetic (ExactNumber kernel) where
  ofInt n := ⟨n⟩
  ofFloat := ofDouble
  computed := ofDouble
  add a b := .ok ⟨a.value + b.value⟩
  sub a b := .ok ⟨a.value - b.value⟩
  mul a b := .ok ⟨a.value * b.value⟩
  div a b := do return ⟨← Exact.div a.value b.value⟩
  pow a b := do return ⟨← Exact.power a.value b.value⟩
  neg a := .ok ⟨-a.value⟩
  zeroLike _ := .ok ⟨0⟩
  oneLike _ := .ok ⟨1⟩
  toFloat a := Exact.toFloat a.value
  apply f a := .ok ⟨kernel f a.value⟩
  atan2 y x := .ok ⟨Exact.atan2 y.value x.value⟩
  remainder a b := do return ⟨← Exact.remainder a.value b.value⟩

theorem isExactElement : IsExactElement (ExactNumber.mk : Rat → ExactNumber kernel) where
  add _ _ := rfl
  sub _ _ := rfl
  mul _ _ := rfl
  neg _ := rfl
  zeroLike _ := rfl
  oneLike _ := rfl
  ofInt _ := rfl
  ofFloat h := by
    show ofDouble _ = _
    rw [ofDouble, h, Option.getD_some]
  div x y hy := by
    have quotient : Exact.div x y = .ok (x / y) := if_neg hy
    exact bind_eq_ok quotient rfl
  pow x n := bind_eq_ok (Exact.power_natCast x n) rfl

theorem isExactScalar : IsExactScalar (ExactNumber.mk : Rat → ExactNumber kernel) where
  toIsExactDivision := isExactElement.toIsExactDivision
  neg := isExactElement.neg
  add_ofFloat x d q h := by
    show Except.ok (mk (x + (ofDouble d).value)) = _
    rw [ofDouble, h, Option.getD_some, Rat.cast_id]
  div_computed x d q h hq := by
    have double : (ofDouble d : ExactNumber kernel) = ⟨q⟩ := by rw [ofDouble, h, Option.getD_some]
    show Arithmetic.div (mk x) (ofDouble d) = _
    rw [double]
    exact isExactElement.div x hq

end ExactNumber

end JetAlgebra
