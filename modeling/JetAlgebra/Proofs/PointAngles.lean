import JetAlgebra.Jet.Angle
import JetAlgebra.Proofs.Angles
import JetAlgebra.Proofs.OperationResults

/-!
# Angles of points, as they are computed

The angle is computed through two squares, a root, a reciprocal, a product and an arc tangent, and
with exact numbers each of them leaves the jet that it stands for
(`IsExactNumber.angle_complete`).  Then its value is replaced by that of the function of two numbers
(`IsExactNumber.pointAngle_complete`).  On windows that is a second write
(`leaves_pointAngle`).

So, whatever the branch is and whatever the functions of numbers return, the angle has the same
derivatives, and they solve `(x^2 + y^2) * da = x * dy - y * dx`: `Tables.TakesAngles`.
-/
namespace JetAlgebra
open Arithmetic Tables Exponent Expansion

/-! ## What is computed -/

/-- **The angle of a point** as it is left in the end, with the value that the function of two
numbers has. -/
def Jet.pointAngle {E : Type} [Arithmetic E] (k : Calculus) (s : Storage E) (y x : Jet E) :
    Except ArithmeticFault (Jet E) := do
  let a ← angle k s y x
  let v ← Arithmetic.atan2 (← slot y 0) (← slot x 0)
  return v :: a.tail

section Branches
variable {E : Type} [Arithmetic E]

/-- What the ordinate is divided by. -/
def Side.farJet (side : Side) (r x : Jet E) : Except ArithmeticFault (Jet E) :=
  match side with
  | .right => Jet.add r x
  | .left => Jet.sub r x

/-- What becomes of half the angle. -/
def Side.whole (side : Side) (s : Storage E) (a : Jet E) : Except ArithmeticFault (Jet E) :=
  match side with
  | .right => Jet.doubled a
  | .left => Jet.reflected s a

/-- **Both branches take the same steps.** -/
theorem Jet.angle_eq (k : Calculus) (s : Storage E) (y x : Jet E) : angle k s y x = (do
    let r ← distance k s y x
    let side := Side.ofAbscissa (← toFloat (← slot x 0))
    let t ← stored s (divide k s y (← stored s (side.farJet r x)))
    side.whole s (← stored s (through k s t Outer.atan))) := by
  refine bind_congr fun r => bind_congr fun x₀ => bind_congr fun d => ?_
  by_cases right : d ≥ 0.0
  · have side : Side.ofAbscissa d = .right := if_pos right
    rw [if_pos right, side]
    rfl
  · have side : Side.ofAbscissa d = .left := if_neg right
    rw [if_neg right, side]
    rfl

end Branches

/-- **The values that the functions return** at a point: the square root is a distance from the
origin, and the others are just numbers. -/
structure AngleValues {K E : Type} [Field K] [Arithmetic E] (lift : K → E) (y x : K) where
  abscissa : Float
  distance : K
  half : K
  angle : K
  toFloat_abscissa : toFloat (lift x) = .ok abscissa
  sqrt : apply .sqrt (lift (x * x + y * y)) = .ok (lift distance)
  reaches : (Side.ofAbscissa abscissa).Reaches distance y x
  atan : apply .atan (lift (y / (distance + (Side.ofAbscissa abscissa).sign * x))) = .ok (lift half)
  /-- On the left the sign of the arc tangent is asked for. -/
  toFloat_half : Side.ofAbscissa abscissa = .left → ∃ d, toFloat (lift half) = .ok d
  atan2 : Arithmetic.atan2 (lift y) (lift x) = .ok (lift angle)

/-- The double next to half a turn is a number, and so is its negative. -/
theorem exists_pi : ∃ q : Rat, Binary64.toRat? Binary64.pi = some q ∧
    Binary64.toRat? (-Binary64.pi) = some (-q) :=
  ⟨884279719003555 / 281474976710656, by decide +kernel, by decide +kernel⟩

section Computed
variable {K E : Type} [Field K] [Arithmetic E] {lift : K → E} (exact : IsExactNumber lift)
include exact

/-- The entries of a list times an integer. -/
theorem IsExactNumber.mapM_mul_ofInt (n : Int) (a : List K) :
    (a.map lift).mapM (fun v => Arithmetic.mul v (ofInt n)) =
      .ok ((a.map (· * (n : K))).map lift) := by
  rw [List.mapM_map, List.map_map]
  exact mapM_eq_ok fun v _ => by rw [Function.comp_apply, exact.ofInt, exact.mul]; rfl

theorem IsExactNumber.far_complete (side : Side) (r x : List K) :
    side.farJet (r.map lift) (x.map lift) = .ok ((side.far r x).map lift) := by
  cases side with
  | right => exact zipEach_map exact.add _ _
  | left => exact zipEach_map exact.sub _ _

/-- On the right the derivatives are doubled. -/
theorem IsExactNumber.doubled_complete {a : List K} (ha : 0 < a.length) :
    ∃ w, Jet.doubled (a.map lift) =
      .ok (w :: (a.tail.map (· * ((Side.right.sign : K) * 2))).map lift) := by
  obtain ⟨b, bs, rfl⟩ := List.exists_cons_of_ne_nil (List.ne_nil_of_length_pos ha)
  have factor : (Side.right.sign : K) * 2 = (2 : Int) := by
    rw [Side.sign, Int.cast_one, one_mul, Int.cast_ofNat]
  rw [factor]
  exact ⟨lift (b * (2 : Int)), exact.mapM_mul_ofInt 2 (b :: bs)⟩

/-- On the left they are doubled and have the other sign. -/
theorem IsExactNumber.reflected_complete {a : List K} (ha : 0 < a.length)
    {d : Float} (toFloat : Arithmetic.toFloat (lift (a.getD 0 0)) = .ok d) :
    ∃ w, Jet.reflected .faithful (a.map lift) =
      .ok (w :: (a.tail.map (· * ((Side.left.sign : K) * 2))).map lift) := by
  have factor : (Side.left.sign : K) * 2 = (-2 : Int) := by
    rw [Side.sign]
    push_cast
    ring
  have derivatives := exact.mapM_mul_ofInt (-2) a.tail
  have product : Arithmetic.mul (lift (a.getD 0 0)) (ofInt (-2)) =
      .ok (lift (a.getD 0 0 * (-2 : Int))) := by rw [exact.ofInt, exact.mul]
  obtain ⟨q, pi, minus⟩ := exists_pi
  obtain ⟨turn, half⟩ : ∃ turn : K,
      Arithmetic.ofFloat (if d ≤ 0.0 then -Binary64.pi else Binary64.pi) = lift turn := by
    by_cases sign : d ≤ 0.0
    · exact ⟨_, by rw [if_pos sign, exact.ofRat minus]⟩
    · exact ⟨_, by rw [if_neg sign, exact.ofRat pi]⟩
  have sum := exact.add (a.getD 0 0 * (-2 : Int)) turn
  rw [← half] at sum
  rw [factor]
  rw [List.map_tail] at derivatives
  exact ⟨_, bind_eq_ok (Jet.value_map ha) (bind_eq_ok toFloat (bind_eq_ok derivatives
    (bind_eq_ok product (bind_eq_ok sum rfl))))⟩

theorem IsExactNumber.whole_complete (side : Side) {a : List K} (ha : 0 < a.length)
    (sign : side = .left → ∃ d, toFloat (lift (a.getD 0 0)) = .ok d) :
    ∃ w, side.whole .faithful (a.map lift) =
      .ok (w :: (a.tail.map (· * ((side.sign : K) * 2))).map lift) := by
  cases side with
  | right => exact exact.doubled_complete ha
  | left =>
    obtain ⟨d, toFloat⟩ := sign rfl
    exact exact.reflected_complete ha toFloat

variable [CharZero K] {p o : Nat} {y x : List K}

theorem IsExactNumber.distance_complete (hy : y.length = (complete p o).size)
    (hx : x.length = (complete p o).size) {side : Side} {r : K}
    (h : side.Reaches r (y.getD 0 0) (x.getD 0 0))
    (sqrt : apply .sqrt (lift (x.getD 0 0 * x.getD 0 0 + y.getD 0 0 * y.getD 0 0)) =
      .ok (lift r)) :
    Jet.distance (complete p o).calculus .faithful (y.map lift) (x.map lift) =
      .ok (((complete p o).distanceExact r y x).map lift) := by
  have squares := exact.toIsExact.mul_complete hx hx
  have squares' := exact.toIsExact.mul_complete hy hy
  have sum : Jet.add (((complete p o).mulExact x x).map lift)
      (((complete p o).mulExact y y).map lift) = .ok (((complete p o).normExact y x).map lift) :=
    zipEach_map exact.add _ _
  rw [← getD_zero_normExact (p := p) (o := o)] at sqrt
  have listed := exact.root two_ne_zero h.norm_ne_zero sqrt h.fit o
  have enough : o < (Outer.rootDerivatives r (((complete p o).normExact y x).getD 0 0)
      (((2 : Int) : K))⁻¹ o).length := by
    rw [Outer.length_rootDerivatives]
    exact Nat.lt_succ_self o
  have root := exact.toIsExact.through_complete (length_normExact y x) listed enough
  rw [distanceExact, rootExact, order_complete]
  exact bind_eq_ok (bind_eq_ok squares (Storage.mapM_store _))
    (bind_eq_ok (bind_eq_ok squares' (Storage.mapM_store _))
      (bind_eq_ok (bind_eq_ok sum (Storage.mapM_store _))
        (bind_eq_ok root (Storage.mapM_store _))))

theorem IsExactNumber.slope_complete (hy : y.length = (complete p o).size)
    (hx : x.length = (complete p o).size) {side : Side} {r : K}
    (h : side.Reaches r (y.getD 0 0) (x.getD 0 0)) :
    Jet.divide (complete p o).calculus .faithful (y.map lift)
        ((side.far ((complete p o).distanceExact r y x) x).map lift) =
      .ok (((complete p o).slopeExact side r y x).map lift) := by
  have length := (side.length_far ((length_distanceExact (p := p) (o := o) r y x).trans hx.symm))
  have value := side.getD_zero_far hx r y
  exact exact.toIsExactDivision.divide_complete hy (length.trans hx) (value ▸ h.far)

theorem IsExactNumber.half_complete (hx : x.length = (complete p o).size) {side : Side} {r v : K}
    (h : side.Reaches r (y.getD 0 0) (x.getD 0 0))
    (atan : apply .atan (lift (y.getD 0 0 / (r + side.sign * x.getD 0 0))) = .ok (lift v)) :
    Jet.through (complete p o).calculus .faithful
        (((complete p o).slopeExact side r y x).map lift) Outer.atan =
      .ok (((complete p o).atanExact v ((complete p o).slopeExact side r y x)).map lift) := by
  have value := getD_zero_slopeExact hx h
  exact exact.toIsExactElement.atan_complete (length_slopeExact side r y x)
    (by rw [value]; exact h.quadratic) (value ▸ atan)

/-- **The formula for the angle** leaves its derivatives, behind some value. -/
theorem IsExactNumber.angle_complete (hy : y.length = (complete p o).size)
    (hx : x.length = (complete p o).size) (v : AngleValues lift (y.getD 0 0) (x.getD 0 0)) :
    ∃ w, Jet.angle (complete p o).calculus .faithful (y.map lift) (x.map lift) =
      .ok (w :: ((complete p o).angleExact (Side.ofAbscissa v.abscissa) v.distance v.half v.angle
        y x).tail.map lift) := by
  have distance := exact.distance_complete hy hx v.reaches v.sqrt
  have abscissa : slot (x.map lift) 0 = .ok (lift (x.getD 0 0)) := slot_map (hx ▸ size_pos p o)
  have far := exact.far_complete (Side.ofAbscissa v.abscissa)
    ((complete p o).distanceExact v.distance y x) x
  have slope := exact.slope_complete hy hx v.reaches
  have half := exact.half_complete hx v.reaches v.atan
  obtain ⟨w, whole⟩ := exact.whole_complete (Side.ofAbscissa v.abscissa)
    (a := (complete p o).atanExact v.half ((complete p o).slopeExact
      (Side.ofAbscissa v.abscissa) v.distance y x))
    (by rw [length_atanExact]; exact size_pos p o)
    (by rw [getD_zero_atanExact]; exact v.toFloat_half)
  rw [Jet.angle_eq]
  exact ⟨w, bind_eq_ok distance (bind_eq_ok abscissa (bind_eq_ok v.toFloat_abscissa
    (bind_eq_ok (bind_eq_ok far (Storage.mapM_store _))
      (bind_eq_ok (bind_eq_ok slope (Storage.mapM_store _))
        (bind_eq_ok (bind_eq_ok half (Storage.mapM_store _)) whole)))))⟩

/-- **The angle of a point**, with the value of the function of two numbers. -/
theorem IsExactNumber.pointAngle_complete (hy : y.length = (complete p o).size)
    (hx : x.length = (complete p o).size) (v : AngleValues lift (y.getD 0 0) (x.getD 0 0)) :
    Jet.pointAngle (complete p o).calculus .faithful (y.map lift) (x.map lift) =
      .ok (((complete p o).angleExact (Side.ofAbscissa v.abscissa) v.distance v.half v.angle
        y x).map lift) := by
  obtain ⟨w, angle⟩ := exact.angle_complete hy hx v
  exact bind_eq_ok angle (bind_eq_ok (slot_map (i := 0) (hy ▸ size_pos p o))
    (bind_eq_ok (slot_map (i := 0) (hx ▸ size_pos p o)) (bind_eq_ok v.atan2 rfl)))

end Computed

/-! ## The angle on windows -/

section Windows
open Operation
variable {p o : Nat} {m : Memory} {a b r : Window} {y x c : Jet Scalar}

theorem angle_of_read {k : Calculus} {u : Jet Scalar} (hs : storageOf m b = .faithful)
    (hy : read k m "y" a = .ok y) (hx : read k m "x" b = .ok x) (hr : checkResult k m r = .ok ())
    (h : Jet.angle k .faithful y x = .ok u) : Operation.angle k m a b r = .ok u := by
  refine bind_eq_ok hy (bind_eq_ok hx (bind_eq_ok hr ?_))
  rw [hs]
  exact mapError_eq_ok_iff.mpr h

theorem angleValue_of_read {k : Calculus} {y₀ x₀ v : Scalar} (hy : read k m "y" a = .ok y)
    (hx : read k m "x" b = .ok x) (hy₀ : slot y 0 = .ok y₀) (hx₀ : slot x 0 = .ok x₀)
    (h : Arithmetic.atan2 y₀ x₀ = .ok v) : angleValue k m a b = .ok [v] :=
  bind_eq_ok hy (bind_eq_ok (mapError_eq_ok_iff.mpr hy₀) (bind_eq_ok hx
    (bind_eq_ok (mapError_eq_ok_iff.mpr hx₀) (bind_eq_ok (mapError_eq_ok_iff.mpr h) rfl))))

/-- **The operation on windows leaves the angle**, in two steps: all of it, then its value again. -/
theorem leaves_pointAngle (hs : storageOf m b = .faithful)
    (hy : read (complete p o).calculus m "y" a = .ok y)
    (hx : read (complete p o).calculus m "x" b = .ok x)
    (hr : m.Accepts (complete p o).calculus r)
    (h : Jet.pointAngle (complete p o).calculus .faithful y x = .ok c) :
    ∃ after, (run (complete p o).calculus (.binary .angle a b r)).run.run m = (.ok (), after) ∧
      ∀ name, read (complete p o).calculus after name r = .ok c := by
  obtain ⟨u, angle, h⟩ := bind_eq_ok_iff.mp h
  obtain ⟨y₀, hy₀, h⟩ := bind_eq_ok_iff.mp h
  obtain ⟨x₀, hx₀, h⟩ := bind_eq_ok_iff.mp h
  obtain ⟨v, atan2, h⟩ := bind_eq_ok_iff.mp h
  obtain rfl : v :: u.tail = c := Except.ok.inj h
  have length := length_of_angle (isFull p o) angle
  obtain ⟨w, ws, rfl⟩ := List.exists_cons_of_ne_nil
    (List.ne_nil_of_length_pos ((size_pos p o).trans_eq length.symm))
  have computed := angle_of_read hs hy hx hr.check angle
  have again := angleValue_of_read hy hx hy₀ hx₀ atan2
  obtain ⟨before, old, after, hm, hw, hold⟩ := hr.exists_stretch
  obtain ⟨m', whole, there⟩ := exists_compute_stretch
    (f := (Operation.angle (complete p o).calculus · a b r)) hm hw (hold.trans length.symm) computed
  -- The second stretch is the first slot of the first one.
  have first (s : Scalar) : before ++ s :: ws ++ after = before ++ [s] ++ (ws ++ after) := by
    rw [List.append_assoc, List.append_assoc]
    rfl
  have same : [w].length = [v].length := rfl
  rw [first] at there
  obtain ⟨m'', value, there⟩ := exists_compute_stretch
    (f := fun _ => angleValue (complete p o).calculus m a b) there hw same again
  rw [← first] at there
  refine ⟨m'', ?_, read_stretch there hw length⟩
  rw [run_angle, run_bind, whole]
  exact value

end Windows

/-! ## What callers may rely on -/

/-- The squares of the coordinates together, times another jet. -/
def Jet.squaresTimes {E : Type} [Arithmetic E] (k : Calculus) (y x d : Jet E) :
    Except ArithmeticFault (Jet E) := do
  mul k (← add (← mul k x x) (← mul k y y)) d

/-- The abscissa times one jet, less the ordinate times another. -/
def Jet.cross {E : Type} [Arithmetic E] (k : Calculus) (y x dy dx : Jet E) :
    Except ArithmeticFault (Jet E) := do
  sub (← mul k x dy) (← mul k y dx)

/-- **The derivative of an angle**: along parameter `j` the two sides of
`(x^2 + y^2) * da = x * dy - y * dx` are the same jet of the lower tables. -/
def Tables.TurnsAlong {K E : Type} [Field K] [Arithmetic E] (t low : Tables) (lift : K → E)
    (y x a : List K) (j : Nat) : Prop :=
  ∃ c : List K,
    Jet.squaresTimes low.calculus ((t.lowerPart y).map lift) ((t.lowerPart x).map lift)
      ((t.along low j a).map lift) = .ok (c.map lift) ∧
    Jet.cross low.calculus ((t.lowerPart y).map lift) ((t.lowerPart x).map lift)
      ((t.along low j y).map lift) ((t.along low j x).map lift) = .ok (c.map lift)

/-- **Angles of points are angles of whole jets**: for the tables `t` and the lower tables `low`. -/
structure Tables.TakesAngles (t low : Tables) : Prop where
  /-- Over exact numbers there are derivatives that do not depend on the branch, nor on what the
  functions of numbers return: they are in the angle, behind the value of the function of two
  numbers, and they are what the derivatives of an angle should be. -/
  computed : ∀ {K : Type} [Field K] [CharZero K] {y x : List K}, y.length = t.size →
    x.length = t.size → ∃ derivatives : List K, derivatives.length + 1 = t.size ∧
      ∀ {E : Type} [Arithmetic E] {lift : K → E}, IsExactNumber lift →
        ∀ v : AngleValues lift (y.getD 0 0) (x.getD 0 0),
          Jet.pointAngle t.calculus .faithful (y.map lift) (x.map lift) =
            .ok ((v.angle :: derivatives).map lift) ∧
          ∀ j < t.parameters, t.TurnsAlong low lift y x (v.angle :: derivatives) j
  /-- The operation on windows leaves the same angle. -/
  windows : ∀ {m : Memory} {a b r : Window} {y x c : Jet Scalar},
    Operation.storageOf m b = .faithful → Operation.read t.calculus m "y" a = .ok y →
      Operation.read t.calculus m "x" b = .ok x → m.Accepts t.calculus r →
        Jet.pointAngle t.calculus .faithful y x = .ok c →
          ∃ after, (Operation.run t.calculus (.binary .angle a b r)).run.run m = (.ok (), after) ∧
            ∀ name, Operation.read t.calculus after name r = .ok c

section Turns
variable {K E : Type} [Field K] [CharZero K] [Arithmetic E] {lift : K → E}
  (exact : IsExactNumber lift) {p o : Nat} {y x : List K} {side : Side} {r : K}
include exact

/-- **The derivative of the angle** is what it should be, also as it is computed. -/
theorem IsExactNumber.turnsAlong (hy : y.length = (complete p (o + 1)).size)
    (hx : x.length = (complete p (o + 1)).size) (h : side.Reaches r (y.getD 0 0) (x.getD 0 0))
    (v θ : K) (j : Fin p) : (complete p (o + 1)).TurnsAlong (complete p o) lift y x
      ((complete p (o + 1)).angleExact side r v θ y x) j := by
  have products {a b : List K} (ha : a.length = (complete p o).size)
      (hb : b.length = (complete p o).size) :
      Jet.mul (complete p o).calculus (a.map lift) (b.map lift) =
        .ok (((complete p o).mulExact a b).map lift) := exact.toIsExact.mul_complete ha hb
  have identity := derivative_angleExact hx h (Nat.lt_succ_self o) j hy v θ
  rw [← expansion_lowerPart, ← expansion_lowerPart, ← expansion_along, ← expansion_along,
    ← expansion_along, ← expansion_normExact, ← expansion_mulExact, ← expansion_mulExact,
    ← expansion_mulExact, ← expansion_sub (by rw [length_mulExact, length_mulExact])] at identity
  have same := eq_of_expansion_eq (length_mulExact p o _ _) (by
    rw [List.length_zipWith, length_mulExact, length_mulExact, Nat.min_self]) identity
  refine ⟨_, ?_, bind_eq_ok (products (length_lowerPart x) (length_along j y))
    (bind_eq_ok (products (length_lowerPart y) (length_along j x)) (zipEach_map exact.sub _ _))⟩
  rw [← same]
  exact bind_eq_ok (products (length_lowerPart x) (length_lowerPart x))
    (bind_eq_ok (products (length_lowerPart y) (length_lowerPart y))
      (bind_eq_ok (zipEach_map exact.add _ _)
        (products (length_normExact _ _) (length_along j _))))

end Turns

/-- **Angles of points are angles of whole jets**, for every signature with derivatives. -/
theorem Tables.takesAngles_of_built {p o : Nat} {t low : Tables} (h : Built p (o + 1) t)
    (hlow : Built p o low) : t.TakesAngles low := by
  obtain rfl := h.eq_complete
  obtain rfl := hlow.eq_complete
  constructor
  case computed =>
    intro K _ _ y x hy hx
    by_cases reached : ∃ (side : Side) (r : K), side.Reaches r (y.getD 0 0) (x.getD 0 0)
    · obtain ⟨side, r, h⟩ := reached
      let angle := (complete p (o + 1)).angleExact side r 0 0 y x
      have length : angle.length = (complete p (o + 1)).size := length_angleExact _ _ _ _ _ _
      refine ⟨angle.tail, ?_, fun {E} _ {lift} exact v => ?_⟩
      · rw [List.length_tail, length, Nat.sub_add_cancel (size_pos p (o + 1))]
      have same : v.angle :: angle.tail = (complete p (o + 1)).angleExact
          (Side.ofAbscissa v.abscissa) v.distance v.half v.angle y x :=
        congrArg (v.angle :: ·) (tail_angleExact hx h hy v.reaches 0 0 v.half v.angle)
      rw [same]
      exact ⟨exact.pointAngle_complete hy hx v,
        fun j hj => exact.turnsAlong hy hx v.reaches _ _ ⟨j, parameters_complete p (o + 1) ▸ hj⟩⟩
    · refine ⟨List.replicate ((complete p (o + 1)).size - 1) 0, ?_, fun {E} _ {lift} exact v => ?_⟩
      · rw [List.length_replicate, Nat.sub_add_cancel (size_pos p (o + 1))]
      · exact absurd ⟨_, _, v.reaches⟩ reached
  case windows => exact leaves_pointAngle

/-- The square root of twenty-five. -/
def ofTwentyFive : Elementary → Rat → Rat
  | .sqrt, q => q / 5
  | _, q => q

/-- Jets of two parameters up to order two, to the right and to the left of the origin. -/
theorem Tables.takesAngles_two_two : Built 2 2 (complete 2 2) ∧ Built 2 1 (complete 2 1) ∧
    (complete 2 2).TakesAngles (complete 2 1) ∧ ∀ x₀ ∈ [(3 : Rat), -3],
      ∃ v : AngleValues (.mk : Rat → ExactNumber ofTwentyFive) 4 x₀,
        Side.ofAbscissa v.abscissa = (if 0 ≤ x₀ then .right else .left) ∧
        ∃ derivatives : List Rat, Jet.pointAngle (complete 2 2).calculus .faithful
          ([4, 1, 0, 3, 1, -1].map .mk) ([x₀, 0, 2, 1, -1, 5].map .mk) =
            .ok ((v.angle :: derivatives).map (.mk : Rat → ExactNumber ofTwentyFive)) ∧
          ∀ j < 2, (complete 2 2).TurnsAlong (complete 2 1)
            (.mk : Rat → ExactNumber ofTwentyFive) [4, 1, 0, 3, 1, -1] [x₀, 0, 2, 1, -1, 5]
              (v.angle :: derivatives) j := by
  have angles := takesAngles_of_built (built_complete 2 2) (built_complete 2 1)
  have exact : IsExactNumber (.mk : Rat → ExactNumber ofTwentyFive) := ExactNumber.isExactNumber
  have size : 6 = (complete 2 2).size := by decide
  have values : ∀ x₀ ∈ [(3 : Rat), -3],
      ∃ v : AngleValues (.mk : Rat → ExactNumber ofTwentyFive) 4 x₀,
        Side.ofAbscissa v.abscissa = if 0 ≤ x₀ then .right else .left := by
    have right : Side.ofAbscissa 3.0 = .right := by decide +kernel
    have left : Side.ofAbscissa (-3.0) = .left := by decide +kernel
    have finite : ¬ (Binary64.round (1 / 2)).isInf := by decide +kernel
    intro x₀ point
    simp only [List.mem_cons, List.not_mem_nil, or_false] at point
    rcases point with rfl | rfl
    · refine ⟨⟨3.0, 5, 1 / 2, Exact.atan2 4 3, rfl, ?_, ?_, ?_, ?_, rfl⟩, ?_⟩
      · show Except.ok (ExactNumber.mk ((3 * 3 + 4 * 4 : Rat) / 5)) = _
        norm_num
      · rw [right]
        constructor <;> norm_num [Side.sign]
      · show Except.ok (ExactNumber.mk ((4 : Rat) / (5 + (Side.ofAbscissa 3.0).sign * 3))) = _
        rw [right]
        norm_num [Side.sign]
      · rw [right]
        exact fun side => absurd side (by decide)
      · rw [right, if_pos (by norm_num)]
    · refine ⟨⟨-3.0, 5, 1 / 2, Exact.atan2 4 (-3), rfl, ?_, ?_, ?_, ?_, rfl⟩, ?_⟩
      · show Except.ok (ExactNumber.mk ((-3 * -3 + 4 * 4 : Rat) / 5)) = _
        norm_num
      · rw [left]
        constructor <;> norm_num [Side.sign]
      · show Except.ok (ExactNumber.mk ((4 : Rat) / (5 + (Side.ofAbscissa (-3.0)).sign * -3))) = _
        rw [left]
        norm_num [Side.sign]
      · exact fun _ => ⟨_, if_neg finite⟩
      · rw [left, if_neg (by norm_num)]
  refine ⟨built_complete 2 2, built_complete 2 1, angles, fun x₀ point => ?_⟩
  obtain ⟨v, side⟩ := values x₀ point
  obtain ⟨derivatives, -, computed⟩ := angles.computed (y := [4, 1, 0, 3, 1, -1])
    (x := [x₀, 0, 2, 1, -1, 5]) size size
  obtain ⟨angle, turns⟩ := computed exact v
  exact ⟨v, side, derivatives, angle, turns⟩

end JetAlgebra
