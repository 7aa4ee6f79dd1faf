import JetAlgebra.Proofs.ArcTangents
import JetAlgebra.Proofs.JetDerivatives
import JetAlgebra.Proofs.Roots

/-!
# The angle of a point

The angle of the point `(x, y)` goes through the distance `r` from the origin: on the right it is
twice the arc tangent of `y / (r + x)`, and on the left half a turn less twice that of
`y / (r - x)`.  Whatever the side, the derivative of the angle is the quotient of
`x * dy - y * dx` and `x^2 + y^2` (`derivative_angleExact`), and that is an identity of a
commutative ring (`side_identity`) once the derivatives of the root, of the quotient and of the arc
tangent are known.

So the derivatives of the angle do not depend on the side, nor on the distance that the square
root returns (`tail_angleExact`).
-/
namespace JetAlgebra
open Arithmetic Tables Exponent Expansion

/-! ## Two sides -/

/-- The half plane of a point. -/
inductive Side where
  | right
  | left
  deriving DecidableEq, Repr

namespace Side

/-- The side that the double next to the abscissa tells. -/
def ofAbscissa (d : Float) : Side := if d ≥ 0.0 then .right else .left

/-- The sign of the abscissa. -/
def sign : Side → Int
  | .right => 1
  | .left => -1

theorem sign_sq {R : Type} [CommRing R] (side : Side) : (side.sign : R) ^ 2 = 1 := by
  cases side <;> simp [sign]

/-- The distance and the length of the abscissa together. -/
def far {K : Type} [Field K] (side : Side) (r x : List K) : List K :=
  match side with
  | .right => List.zipWith (· + ·) r x
  | .left => List.zipWith (· - ·) r x

/-- **A distance from the origin** of a point that is not the origin, and not straight on the other
side of it. -/
structure Reaches {K : Type} [Field K] (side : Side) (r y x : K) : Prop where
  square : r ^ 2 = x ^ 2 + y ^ 2
  nonzero : r ≠ 0
  far : r + side.sign * x ≠ 0

section Far
variable {K : Type} [Field K] (side : Side) {r x : List K}

theorem length_far (h : r.length = x.length) : (side.far r x).length = x.length := by
  cases side <;> rw [far, List.length_zipWith, h, Nat.min_self]

theorem getD_far (h : r.length = x.length) (i : Nat) :
    (side.far r x).getD i 0 = r.getD i 0 + side.sign * x.getD i 0 := by
  cases side with
  | right => rw [far, getD_zipWith (add_zero 0) h, sign, Int.cast_one, one_mul]
  | left =>
    rw [far, getD_zipWith (sub_zero 0) h, sign, Int.cast_neg, Int.cast_one, neg_one_mul,
      sub_eq_add_neg]

theorem expansion_far {p o : Nat} (h : r.length = x.length) : expansion p o (side.far r x) =
    expansion p o r + (side.sign : K) • expansion p o x := by
  cases side with
  | right => rw [far, expansion_add h, sign, Int.cast_one, one_smul]
  | left =>
    rw [far, expansion_sub h, sign, Int.cast_neg, Int.cast_one, neg_one_smul, sub_eq_add_neg]

/-- The quadratic of the arc tangent is not zero. -/
theorem Reaches.quadratic [CharZero K] {side : Side} {r y x : K} (h : side.Reaches r y x) :
    1 + (y / (r + side.sign * x)) ^ 2 ≠ 0 := by
  have sign := side.sign_sq (R := K)
  have far := h.far
  have quotient : 1 + (y / (r + side.sign * x)) ^ 2 = 2 * r / (r + side.sign * x) := by
    field_simp
    linear_combination x ^ 2 * sign - h.square
  rw [quotient]
  exact div_ne_zero (mul_ne_zero two_ne_zero h.nonzero) far

end Far

end Side

/-- **The derivative of the angle**, from those of the root, the quotient and the arc tangent: `f`
is the distance with the abscissa, `t` the slope and `a` the arc tangent. -/
theorem side_identity {R : Type} [CommRing R] {x y r f t x' y' r' f' t' a' s : R}
    (sign : s ^ 2 = 1) (root : r ^ 2 = x ^ 2 + y ^ 2) (root' : r * r' = x * x' + y * y')
    (far : f = r + s * x) (far' : f' = r' + s * x') (quotient : t * f = y)
    (quotient' : t' * f + t * f' = y') (arc : (1 + t ^ 2) * a' = t') (unit : IsUnit f) :
    (x ^ 2 + y ^ 2) * (s * 2 * a') = x * y' - y * x' := by
  have norm : f ^ 2 + y ^ 2 = 2 * r * f := by
    rw [far]
    linear_combination x ^ 2 * sign - root
  have twice : 2 * r * f * a' = f * y' - y * f' := by
    linear_combination f ^ 2 * arc + f * quotient' - a' * norm - ((t * f + y) * a' + f') * quotient
  refine unit.mul_left_cancel ?_
  rw [far, far'] at twice
  rw [far]
  linear_combination s * r * twice + r * (x * y' - y * x') * sign - s * y * root' +
    (s * y' - 2 * s * (r + s * x) * a') * root

/-! ## Jets -/

section Jets
variable {K : Type} [Field K] {p o : Nat}

/-- The square of the distance from the origin. -/
def Tables.normExact (t : Tables) (y x : List K) : List K :=
  List.zipWith (· + ·) (t.mulExact x x) (t.mulExact y y)

/-- **The distance from the origin**, with the value `r`. -/
noncomputable def Tables.distanceExact (t : Tables) (r : K) (y x : List K) : List K :=
  t.rootExact r ((2 : Int) : K)⁻¹ (t.normExact y x)

/-- **The tangent of half the angle**, from the value `r` of the distance. -/
noncomputable def Tables.slopeExact (t : Tables) (side : Side) (r : K) (y x : List K) : List K :=
  t.divExact y (side.far (t.distanceExact r y x) x)

/-- **The angle** with the value `θ`, from the values of the distance and of half the angle. -/
noncomputable def Tables.angleExact (t : Tables) (side : Side) (r v θ : K) (y x : List K) :
    List K :=
  θ :: (t.atanExact v (t.slopeExact side r y x)).tail.map (· * (side.sign * 2))

theorem length_normExact (y x : List K) :
    ((complete p o).normExact y x).length = (complete p o).size := by
  rw [normExact, List.length_zipWith, length_mulExact, length_mulExact, Nat.min_self]

theorem length_distanceExact (r : K) (y x : List K) :
    ((complete p o).distanceExact r y x).length = (complete p o).size := length_rootExact _ _ _

theorem length_slopeExact (side : Side) (r : K) (y x : List K) :
    ((complete p o).slopeExact side r y x).length = (complete p o).size := length_divExact p o _ _

theorem length_angleExact (side : Side) (r v θ : K) (y x : List K) :
    ((complete p o).angleExact side r v θ y x).length = (complete p o).size := by
  rw [angleExact, List.length_cons, List.length_map, List.length_tail, length_atanExact,
    Nat.sub_add_cancel (size_pos p o)]

variable [CharZero K] {y x : List K} {side : Side} {r : K}

theorem getD_zero_normExact (y x : List K) : ((complete p o).normExact y x).getD 0 0 =
    x.getD 0 0 * x.getD 0 0 + y.getD 0 0 * y.getD 0 0 := by
  rw [normExact, getD_zipWith (add_zero 0) (by rw [length_mulExact, length_mulExact]),
    getD_zero_mulExact, getD_zero_mulExact]

theorem expansion_normExact (y x : List K) : expansion p o ((complete p o).normExact y x) =
    expansion p o x ^ 2 + expansion p o y ^ 2 := by
  rw [normExact, expansion_add (by rw [length_mulExact, length_mulExact]), expansion_mulExact,
    expansion_mulExact, sq, sq]

theorem getD_zero_divExact {a b : List K} (hb : b.getD 0 0 ≠ 0) :
    ((complete p o).divExact a b).getD 0 0 = a.getD 0 0 / b.getD 0 0 := by
  rw [divExact, getD_zero_mulExact, getD_zero_zpowExact hb, zpow_neg_one, div_eq_mul_inv]

section Reached
variable (h : side.Reaches r (y.getD 0 0) (x.getD 0 0))
include h

theorem Side.Reaches.norm_ne_zero : ((complete p o).normExact y x).getD 0 0 ≠ 0 := by
  rw [getD_zero_normExact, ← sq, ← sq, ← h.square]
  exact pow_ne_zero 2 h.nonzero

theorem Side.Reaches.fit : r ^ (2 : Int) = ((complete p o).normExact y x).getD 0 0 := by
  rw [getD_zero_normExact, ← sq, ← sq, ← h.square]
  exact zpow_ofNat r 2

theorem expansion_distanceExact : expansion p o ((complete p o).distanceExact r y x) ^ 2 =
    expansion p o x ^ 2 + expansion p o y ^ 2 := by
  have root := zpowExact_rootExact (length_normExact y x) two_ne_zero h.norm_ne_zero
    (h.fit (p := p) (o := o))
  rw [← expansion_normExact, ← root]
  exact (expansion_zpowExact_natCast _ 2).symm

end Reached

variable (hx : x.length = (complete p o).size) (h : side.Reaches r (y.getD 0 0) (x.getD 0 0))
include hx

theorem Side.getD_zero_far (side : Side) (r : K) (y : List K) :
    (side.far ((complete p o).distanceExact r y x) x).getD 0 0 = r + side.sign * x.getD 0 0 := by
  rw [side.getD_far ((length_distanceExact r y x).trans hx.symm), distanceExact,
    getD_zero_rootExact]

include h

theorem getD_zero_slopeExact : ((complete p o).slopeExact side r y x).getD 0 0 =
    y.getD 0 0 / (r + side.sign * x.getD 0 0) := by
  have value := side.getD_zero_far hx r y
  rw [slopeExact, getD_zero_divExact (value ▸ h.far), value]

theorem expansion_slopeExact (hy : y.length = (complete p o).size) :
    expansion p o ((complete p o).slopeExact side r y x) *
      (expansion p o ((complete p o).distanceExact r y x) +
        (side.sign : K) • expansion p o x) = expansion p o y := by
  have same := (length_distanceExact (p := p) (o := o) r y x).trans hx.symm
  have value := side.getD_zero_far hx r y
  rw [← side.expansion_far same, ← expansion_mulExact, slopeExact,
    mulExact_divExact hy ((side.length_far same).trans hx) (value ▸ h.far)]

/-! ## Derivatives -/

variable {k : Nat} (hk : k < o) (j : Fin p)

omit hx h in
/-- The derivative of a list that is a value and a multiple of the derivatives of a jet. -/
theorem derivative_expansion_cons (θ c : K) {a : List K} (ha : 0 < a.length) :
    derivative hk j (expansion p o (θ :: a.tail.map (· * c))) =
      c • derivative hk j (expansion p o a) := by
  have same : (θ :: a.tail.map (· * c)).set 0 0 = (a.set 0 0).map (· * c) := by
    cases a with
    | nil => exact absurd ha (Nat.lt_irrefl 0)
    | cons v a => simp
  rw [← derivative_expansion_set_zero hk j (θ :: a.tail.map (· * c)), same, expansion_scale,
    map_smul, derivative_expansion_set_zero]

omit hx in
/-- The derivative of the distance, times the distance. -/
theorem derivative_distanceExact :
    upTo hk.le (expansion p o ((complete p o).distanceExact r y x)) *
        derivative hk j (expansion p o ((complete p o).distanceExact r y x)) =
      upTo hk.le (expansion p o x) * derivative hk j (expansion p o x) +
        upTo hk.le (expansion p o y) * derivative hk j (expansion p o y) := by
  have squares := congrArg (derivative hk j) (expansion_distanceExact (p := p) (o := o) h)
  rw [map_add, derivative_pow, derivative_pow, derivative_pow, pow_one, pow_one, pow_one,
    ← smul_add] at squares
  have two : ((1 : Nat) : K) + 1 ≠ 0 := Nat.cast_add_one_ne_zero 1
  exact (IsUnit.mk0 _ two).smul_left_cancel.mp squares

/-- **The derivative of the angle** is the same on both sides. -/
theorem derivative_angleExact (hy : y.length = (complete p o).size) (v θ : K) :
    (upTo hk.le (expansion p o x) ^ 2 + upTo hk.le (expansion p o y) ^ 2) *
        derivative hk j (expansion p o ((complete p o).angleExact side r v θ y x)) =
      upTo hk.le (expansion p o x) * derivative hk j (expansion p o y) -
        upTo hk.le (expansion p o y) * derivative hk j (expansion p o x) := by
  have square := congrArg (upTo hk.le) (expansion_distanceExact (p := p) (o := o) h)
  have slope := expansion_slopeExact hx h hy
  have quotient := congrArg (upTo hk.le) slope
  have quotient' := congrArg (derivative hk j) slope
  have arc := derivative_atanExact hk j (g := (complete p o).slopeExact side r y x)
    (by rw [getD_zero_slopeExact hx h]; exact h.quadratic) v
  have unit : IsUnit (upTo hk.le (expansion p o ((complete p o).distanceExact r y x) +
      (side.sign : K) • expansion p o x)) := by
    rw [← side.expansion_far ((length_distanceExact r y x).trans hx.symm)]
    exact (isUnit_expansion (by rw [side.getD_zero_far hx r y]; exact h.far)).map _
  have sign : algebraMap K (Expansion p k K) side.sign ^ 2 = 1 := by
    rw [← map_pow, side.sign_sq, map_one]
  rw [map_pow, map_add, map_pow, map_pow] at square
  rw [map_mul] at quotient
  rw [derivative_mul] at quotient'
  have identity := side_identity sign square (derivative_distanceExact h hk j)
    (by rw [map_add, map_smul, Expansion.smul_eq]) (by rw [map_add, map_smul, Expansion.smul_eq])
    quotient quotient' arc unit
  rw [angleExact, derivative_expansion_cons hk j θ _ (by rw [length_atanExact]; exact size_pos p o),
    Expansion.smul_eq, map_mul, map_ofNat]
  exact identity

omit hx h in
/-- Jets with the same derivatives have the same tail. -/
theorem tail_eq_of_derivative_eq {a b : List K} (ha : a.length = (complete p o).size)
    (hb : b.length = (complete p o).size) (same : ∀ k (hk : k < o) (j : Fin p),
      derivative hk j (expansion p o a) = derivative hk j (expansion p o b)) : a.tail = b.tail := by
  refine List.ext_getElem (by rw [List.length_tail, List.length_tail, ha, hb]) fun i hi hi' => ?_
  have slot := getD_eq_of_derivative_eq ha hb same (Nat.succ_pos i)
  rw [List.length_tail] at hi hi'
  rw [List.getElem_tail, List.getElem_tail]
  rwa [List.getD_eq_getElem _ _ (by omega), List.getD_eq_getElem _ _ (by omega)] at slot

/-- **The derivatives of the angle** do not depend on the side, the distance or the values. -/
theorem tail_angleExact (hy : y.length = (complete p o).size) {side' : Side} {r' : K}
    (h' : side'.Reaches r' (y.getD 0 0) (x.getD 0 0)) (v θ v' θ' : K) :
    ((complete p o).angleExact side r v θ y x).tail =
      ((complete p o).angleExact side' r' v' θ' y x).tail := by
  refine tail_eq_of_derivative_eq (length_angleExact _ _ _ _ _ _) (length_angleExact _ _ _ _ _ _)
    fun k hk j => ?_
  have unit : IsUnit (upTo hk.le (expansion p o x) ^ 2 + upTo hk.le (expansion p o y) ^ 2) := by
    rw [← map_pow, ← map_pow, ← map_add, ← expansion_normExact]
    exact (isUnit_expansion h.norm_ne_zero).map _
  exact unit.mul_left_cancel ((derivative_angleExact hx h hk j hy v θ).trans
    (derivative_angleExact hx h' hk j hy v' θ').symm)

end Jets

end JetAlgebra
