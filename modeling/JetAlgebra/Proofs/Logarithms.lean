import JetAlgebra.Proofs.Differentiation
import JetAlgebra.Proofs.ExactElements
import JetAlgebra.Proofs.TangentQuotients
import JetAlgebra.Proofs.WindowResults

/-!
# Logarithms of jets

The three logarithms list their derivatives in one way: each is the one before times a negative
integer and the reciprocal of the argument, so from the first one on they are a multiple of the
derivatives of the reciprocal (`IsExactDivision.logarithm`).  That says what the derivative of the
logarithm of a jet is (`derivative_logExact`): a quotient, like that of a function.

The quotient of a product is the sum of the quotients of its factors.  The value of the
logarithm does not enter, so logarithms turn products into sums in every slot but the value,
whatever the values are (`getD_logExact_mulExact`).
-/
namespace JetAlgebra
open Arithmetic Tables Exponent Expansion

/-! ## The recipe -/

/-- **The derivatives of a logarithm** with the value `v`: from the first one on `c` times those
of the reciprocal of `x`. -/
noncomputable def Outer.logDerivatives {K : Type} [Field K] (v x c : K) (order : Nat) : List K :=
  v :: (List.range order).map fun i : Nat => c * (x ^ (-1 - (i : Int)) * falling (-1) i)

namespace Outer
variable {K : Type} [Field K]

theorem length_logDerivatives (v x c : K) (order : Nat) :
    (logDerivatives v x c order).length = order + 1 := by
  rw [logDerivatives, List.length_cons, List.length_map, List.length_range]

theorem getD_succ_logDerivatives (v x c : K) {order i : Nat} (hi : i < order) :
    (logDerivatives v x c order).getD (i + 1) 0 =
      c * (zpowDerivatives (-1) x order).getD i 0 := by
  rw [getD_zpowDerivatives (-1) x hi.le, logDerivatives, List.getD_cons_succ,
    List.getD_eq_getElem?_getD, List.getElem?_map, List.getElem?_range hi]
  rfl

end Outer

namespace IsExactDivision
variable {K E : Type} [Field K] [Arithmetic E] {lift : K → E} (exact : IsExactDivision lift)
include exact

/-- From one derivative on, each is the last one times the next integer and the reciprocal. -/
theorem logChain {x : K} (hx : x ≠ 0) (c : K) (i n : Nat) :
    Outer.logChain (lift x⁻¹) (i + 1) n
        (lift (c * (x ^ (-1 - (i : Int)) * Outer.falling (-1) i))) =
      .ok ((List.range' i n).map fun l : Nat =>
        lift (c * (x ^ (-1 - (l : Int)) * Outer.falling (-1) l))) := by
  induction n generalizing i with
  | zero => rfl
  | succ n ih =>
    have lower : x ^ (-1 - ((i + 1 : Nat) : Int)) = x ^ (-1 - (i : Int)) * x⁻¹ := by
      rw [← zpow_sub_one₀ hx, Nat.cast_succ, sub_add_eq_sub_sub]
    have next : c * (x ^ (-1 - (i : Int)) * Outer.falling (-1) i) *
        (x⁻¹ * ((-((i + 1 : Nat) : Int) : Int) : K)) =
          c * (x ^ (-1 - ((i + 1 : Nat) : Int)) * Outer.falling (-1) (i + 1)) := by
      rw [lower, Outer.falling_succ]
      push_cast
      ring
    rw [List.range'_succ, List.map_cons, Outer.logChain]
    refine bind_eq_ok (exact.mul_ofInt _ _) (bind_eq_ok (exact.mul _ _) ?_)
    rw [next]
    exact bind_eq_ok (ih (i + 1)) rfl

/-- **A logarithm lists its derivatives**, if the first one is a multiple of a reciprocal. -/
theorem logarithm {f : Elementary} {inverse first : E → Except ArithmeticFault E} {y x v c : K}
    (hx : x ≠ 0) (value : apply f (lift y) = .ok (lift v))
    (reciprocal : inverse (lift y) = .ok (lift x⁻¹))
    (start : first (lift x⁻¹) = .ok (lift (c * x⁻¹))) (order : Nat) :
    Outer.logarithm f inverse first (lift y) order =
      .ok ((Outer.logDerivatives v x c order).map lift) := by
  refine bind_eq_ok value ?_
  by_cases h : order = 0
  · subst h
    rfl
  · have chain := exact.logChain hx c 0 order
    rw [Nat.cast_zero, sub_zero, zpow_neg_one, Outer.falling_zero, Int.cast_one, mul_one,
      ← List.range_eq_range'] at chain
    rw [if_neg h, Outer.logDerivatives, List.map_cons, List.map_map]
    exact bind_eq_ok reciprocal (bind_eq_ok start (bind_eq_ok chain rfl))

theorem derivativesOf_log {x v : K} (hx : x ≠ 0) (value : apply .log (lift x) = .ok (lift v))
    (order : Nat) : Operation.derivativesOf .log (lift x) order =
      .ok ((Outer.logDerivatives v x 1 order).map lift) := by
  refine exact.logarithm hx value (exact.reciprocal hx) ?_ order
  rw [one_mul]
  rfl

end IsExactDivision

/-! ## Logarithms of other arguments and bases -/

/-- The double next to the natural logarithm of ten is a number. -/
theorem Outer.exists_logTen : ∃ ten : Rat, Binary64.toRat? 2.302585092994046 = some ten ∧ ten ≠ 0 :=
  ⟨2592480341699211 / 1125899906842624, by decide +kernel, by decide +kernel⟩

namespace IsExactScalar
variable {K E : Type} [Field K] [Arithmetic E] {lift : K → E} (exact : IsExactScalar lift)
include exact

theorem derivativesOf_log1p {x v : K} (hx : x ≠ -1)
    (value : apply .log1p (lift x) = .ok (lift v)) (order : Nat) :
    Operation.derivativesOf .log1p (lift x) order =
      .ok ((Outer.logDerivatives v (x + 1) 1 order).map lift) := by
  have nonzero : x + 1 ≠ 0 := fun h => hx (eq_neg_of_add_eq_zero_left h)
  have double : Binary64.toRat? 1.0 = some 1 := by decide +kernel
  have sum := exact.add_ofFloat x double
  rw [Rat.cast_one] at sum
  show Outer.logarithm .log1p (fun y => do div Outer.one (← add y Outer.one)) pure (lift x) order = _
  refine exact.logarithm nonzero value ?_ ?_ order
  · exact bind_eq_ok sum (exact.reciprocal nonzero)
  · rw [one_mul]
    rfl

theorem derivativesOf_log10 {x v : K} (hx : x ≠ 0) (value : apply .log10 (lift x) = .ok (lift v))
    {ten : Rat} (double : Binary64.toRat? 2.302585092994046 = some ten) (hten : (ten : K) ≠ 0)
    (order : Nat) : Operation.derivativesOf .log10 (lift x) order =
      .ok ((Outer.logDerivatives v x (ten : K)⁻¹ order).map lift) := by
  refine exact.logarithm hx value (exact.reciprocal hx) ?_ order
  rw [mul_comm, ← div_eq_mul_inv]
  exact exact.div_computed x⁻¹ double hten

end IsExactScalar

/-! ## Logarithms of jets -/

section Jets
variable {K : Type} [Field K] {p o : Nat}

/-- **A logarithm of a jet**, with the value `v` and the derivatives of `c` times the logarithm
at `x`. -/
noncomputable def Tables.logExact (t : Tables) (v x c : K) (g : List K) : List K :=
  t.composeExact g (Outer.logDerivatives v x c t.order)

theorem length_logExact (v x c : K) (g : List K) :
    ((complete p o).logExact v x c g).length = (complete p o).size :=
  length_composeExact p o _ _

/-- A function with these derivatives is that logarithm of a jet. -/
theorem IsExact.through_logExact {E : Type} [Arithmetic E] {lift : K → E} (exact : IsExact lift)
    {f : E → Nat → Except ArithmeticFault (List E)} {g : List K} {v x c : K}
    (hg : g.length = (complete p o).size)
    (listed : f (lift (g.getD 0 0)) o = .ok ((Outer.logDerivatives v x c o).map lift)) :
    Jet.through (complete p o).calculus .faithful (g.map lift) f =
      .ok (((complete p o).logExact v x c g).map lift) := by
  rw [logExact, order_complete]
  refine exact.through_complete hg listed ?_
  rw [Outer.length_logDerivatives]
  exact Nat.lt_succ_self o

variable [CharZero K]

/-- **The derivative of a logarithm**, by a composition with the reciprocal. -/
theorem derivative_logExact {k : Nat} (hk : k < o) (j : Fin p) (v x c : K) (g : List K) :
    derivative hk j (expansion p o ((complete p o).logExact v x c g)) =
      c • (upTo hk.le (expansion p o
        ((complete p o).composeExact g (Outer.zpowDerivatives (-1) x o))) *
          derivative hk j (expansion p o g)) := by
  rw [logExact, order_complete]
  exact derivative_composeExact hk j (fun i hi => Outer.getD_succ_logDerivatives v x c hi) g

/-- At the value of the jet that is the quotient of the derivative and the jet. -/
theorem derivative_log {k : Nat} (hk : k < o) (j : Fin p) {g : List K} (hg : g.getD 0 0 ≠ 0)
    {u : (Expansion p o K)ˣ} (hu : u = expansion p o g) (v : K) :
    derivative hk j (expansion p o ((complete p o).logExact v (g.getD 0 0) 1 g)) =
      upTo hk.le (u⁻¹ : (Expansion p o K)ˣ) * derivative hk j (expansion p o g) := by
  rw [derivative_logExact, expansion_composeExact_zpow hg hu, zpow_neg_one, one_smul]

/-- **Logarithms turn products into sums**, in every slot but the value. -/
theorem getD_logExact_mulExact {g h : List K} (hg : g.getD 0 0 ≠ 0) (hh : h.getD 0 0 ≠ 0)
    (u v w : K) {i : Nat} (hi : 1 ≤ i) :
    ((complete p o).logExact w (((complete p o).mulExact g h).getD 0 0) 1
        ((complete p o).mulExact g h)).getD i 0 =
      ((complete p o).logExact u (g.getD 0 0) 1 g).getD i 0 +
        ((complete p o).logExact v (h.getD 0 0) 1 h).getD i 0 := by
  have lengths := (length_logExact (p := p) (o := o) u (g.getD 0 0) 1 g).trans
    (length_logExact v (h.getD 0 0) 1 h).symm
  rw [← getD_zipWith (add_zero 0) lengths]
  refine getD_eq_of_derivative_eq (length_logExact _ _ _ _) ?_ (fun k hk j => ?_) hi
  · rw [List.length_zipWith, lengths, Nat.min_self, length_logExact]
  · obtain ⟨a, ha⟩ := isUnit_expansion (p := p) (o := o) hg
    obtain ⟨b, hb⟩ := isUnit_expansion (p := p) (o := o) hh
    have value : ((complete p o).mulExact g h).getD 0 0 ≠ 0 := by
      rw [getD_zero_mulExact]
      exact mul_ne_zero hg hh
    have unit : (a * b : (Expansion p o K)ˣ) = expansion p o ((complete p o).mulExact g h) := by
      rw [expansion_mulExact, Units.val_mul, ha, hb]
    have left := upTo_inv_mul hk ha
    have right := upTo_inv_mul hk hb
    rw [expansion_add lengths, map_add, derivative_log hk j value unit, derivative_log hk j hg ha,
      derivative_log hk j hh hb, expansion_mulExact, derivative_mul, mul_inv_rev a b,
      Units.val_mul, map_mul]
    linear_combination (upTo hk.le (a⁻¹ : (Expansion p o K)ˣ).1 *
      derivative hk j (expansion p o g)) * right + (upTo hk.le (b⁻¹ : (Expansion p o K)ˣ).1 *
        derivative hk j (expansion p o h)) * left

/-- In every slot but the value the factor of the derivatives is a factor, and the value does not
matter. -/
theorem getD_logExact (v w x c : K) (g : List K) {i : Nat} (hi : 1 ≤ i) :
    ((complete p o).logExact v x c g).getD i 0 =
      ((complete p o).logExact w x 1 g).getD i 0 * c := by
  rw [← getD_map_mul]
  refine getD_eq_of_derivative_eq (length_logExact v x c g) ?_ (fun k hk j => ?_) hi
  · rw [List.length_map, length_logExact]
  · rw [expansion_scale, map_smul, derivative_logExact, derivative_logExact, one_smul]

/-- The value of the jet does not enter a composition. -/
theorem logExact_set (v x c y : K) (g : List K) :
    (complete p o).logExact v x c (g.set 0 y) = (complete p o).logExact v x c g := by
  refine eq_of_expansion_eq (length_logExact _ _ _ _) (length_logExact _ _ _ _) ?_
  rw [logExact, logExact, expansion_composeExact, expansion_composeExact, List.set_set]

end Jets

/-! ## What callers may rely on -/

/-- **The laws of logarithms**, for the tables `t` and the exact elements `lift x`.  Each of the
three functions takes the value of the logarithm besides the jet. -/
structure Tables.LogarithmLaws (t : Tables) {K E : Type} [Field K] [Arithmetic E] (lift : K → E)
    (multiply : List K → List K → List K) (log log1p log10 : K → List K → List K) : Prop where
  multiplied : ∀ {g h : List K}, g.length = t.size → h.length = t.size →
    (multiply g h).length = t.size ∧ (multiply g h).getD 0 0 = g.getD 0 0 * h.getD 0 0 ∧
      Jet.mul t.calculus (g.map lift) (h.map lift) = .ok ((multiply g h).map lift)
  /-- The logarithms are what is computed, whatever the values are that the functions return. -/
  computed_log : ∀ {g : List K} {v : K}, g.length = t.size → g.getD 0 0 ≠ 0 →
    apply .log (lift (g.getD 0 0)) = .ok (lift v) →
      Jet.through t.calculus .faithful (g.map lift) (Operation.derivativesOf .log) =
        .ok ((log v g).map lift)
  computed_log1p : ∀ {g : List K} {v : K}, g.length = t.size → g.getD 0 0 ≠ -1 →
    apply .log1p (lift (g.getD 0 0)) = .ok (lift v) →
      Jet.through t.calculus .faithful (g.map lift) (Operation.derivativesOf .log1p) =
        .ok ((log1p v g).map lift)
  computed_log10 : ∀ {g : List K} {v : K}, g.length = t.size → g.getD 0 0 ≠ 0 →
    apply .log10 (lift (g.getD 0 0)) = .ok (lift v) →
      Jet.through t.calculus .faithful (g.map lift) (Operation.derivativesOf .log10) =
        .ok ((log10 v g).map lift)
  /-- **Products become sums.** -/
  product : ∀ {g h : List K}, g.length = t.size → h.length = t.size → g.getD 0 0 ≠ 0 →
    h.getD 0 0 ≠ 0 → ∀ (u v w : K) (i : Nat), 1 ≤ i →
      (log w (multiply g h)).getD i 0 = (log u g).getD i 0 + (log v h).getD i 0
  /-- The logarithm of one more is that of the jet with one added to its value. -/
  one_more : ∀ {g : List K}, g.length = t.size → g.getD 0 0 ≠ -1 →
    ∀ (v w : K) (i : Nat), 1 ≤ i →
      (log1p v g).getD i 0 = (log w (g.set 0 (g.getD 0 0 + 1))).getD i 0
  /-- The logarithm to base ten is that over the logarithm of ten, a double that is a number. -/
  base_ten : ∃ (d : Float) (ten : Rat), (Outer.logTen : E) = Arithmetic.computed d ∧
    Binary64.toRat? d = some ten ∧ ∀ {g : List K}, g.length = t.size → g.getD 0 0 ≠ 0 →
      ∀ (v w : K) (i : Nat), 1 ≤ i → (log10 v g).getD i 0 * ten = (log w g).getD i 0

/-- **What the operations leave in windows**, for the tables `t` and jets of rationals. -/
structure Tables.LeavesLogarithms (t : Tables) (multiply : List Rat → List Rat → List Rat)
    (log log1p log10 : Rat → List Rat → List Rat) : Prop where
  multiply : ∀ {g h : List Rat}, g.length = t.size → h.length = t.size →
    t.Combines (.binary .multiply) g h (multiply g h)
  log : ∀ {g : List Rat}, g.length = t.size → g.getD 0 0 ≠ 0 →
    t.Maps (.elementary .log · ·) g (log (Elementary.log.onRat (g.getD 0 0)) g)
  log1p : ∀ {g : List Rat}, g.length = t.size → g.getD 0 0 ≠ -1 →
    t.Maps (.elementary .log1p · ·) g (log1p (Elementary.log1p.onRat (g.getD 0 0)) g)
  log10 : ∀ {g : List Rat}, g.length = t.size → g.getD 0 0 ≠ 0 →
    t.Maps (.elementary .log10 · ·) g (log10 (Elementary.log10.onRat (g.getD 0 0)) g)

section Laws
variable {K E : Type} [Field K] [CharZero K] [Arithmetic E] {lift : K → E}
  (exact : IsExactScalar lift) {p o : Nat}
include exact

/-- The logarithms of jets obey the laws. -/
theorem logarithmLaws_complete {ten : Rat} (double : Binary64.toRat? 2.302585092994046 = some ten)
    (hten : ten ≠ 0) : (complete p o).LogarithmLaws lift (complete p o).mulExact
      (fun v g => (complete p o).logExact v (g.getD 0 0) 1 g)
      (fun v g => (complete p o).logExact v (g.getD 0 0 + 1) 1 g)
      (fun v g => (complete p o).logExact v (g.getD 0 0) (ten : K)⁻¹ g) := by
  have nonzero : (ten : K) ≠ 0 := Rat.cast_ne_zero.mpr hten
  constructor
  case multiplied =>
    intro g h hg hh
    exact ⟨length_mulExact p o g h, getD_zero_mulExact g h, exact.mul_complete hg hh⟩
  case computed_log =>
    intro g v hg hx value
    exact exact.toIsExact.through_logExact hg (exact.derivativesOf_log hx value o)
  case computed_log1p =>
    intro g v hg hx value
    exact exact.toIsExact.through_logExact hg (exact.derivativesOf_log1p hx value o)
  case computed_log10 =>
    intro g v hg hx value
    exact exact.toIsExact.through_logExact hg (exact.derivativesOf_log10 hx value double nonzero o)
  case product =>
    intro g h _ _ hx hy u v w i hi
    exact getD_logExact_mulExact hx hy u v w hi
  case one_more =>
    intro g hg _ v w i hi
    have value : (g.set 0 (g.getD 0 0 + 1)).getD 0 0 = g.getD 0 0 + 1 := by
      have inside : 0 < (g.set 0 (g.getD 0 0 + 1)).length := by
        rw [List.length_set, hg]
        exact size_pos p o
      rw [List.getD_eq_getElem _ _ inside, List.getElem_set_self]
    rw [value, logExact_set, getD_logExact v w _ 1 g hi, mul_one]
  case base_ten =>
    refine ⟨_, ten, rfl, double, fun {g} _ _ v w i hi => ?_⟩
    rw [getD_logExact v w _ (ten : K)⁻¹ g hi, inv_mul_cancel_right₀ nonzero]

end Laws

/-- **The laws of logarithms hold for every signature**, over exact elements and for what the
operations leave in windows. -/
theorem Tables.logarithmLaws_of_built {p o : Nat} {t : Tables} (h : Built p o t) :
    (∀ {K E : Type} [Field K] [CharZero K] [Arithmetic E] {lift : K → E}, IsExactScalar lift →
      ∃ multiply log log1p log10, t.LogarithmLaws lift multiply log log1p log10) ∧
    ∃ multiply log log1p log10, t.LogarithmLaws Scalar.rat multiply log log1p log10 ∧
      t.LeavesLogarithms multiply log log1p log10 := by
  obtain rfl := h.eq_complete
  obtain ⟨ten, double, hten⟩ := Outer.exists_logTen
  have laws := logarithmLaws_complete (p := p) (o := o) Scalar.isExactScalar_rat double hten
  refine ⟨fun exact => ⟨_, _, _, _, logarithmLaws_complete exact double hten⟩, _, _, _, _, laws, ?_⟩
  constructor
  case multiply =>
    intro g h hg hh
    obtain ⟨length, -, product⟩ := laws.multiplied hg hh
    exact combines_multiply length product
  case log =>
    intro g hg hx
    exact maps_elementary (length_logExact _ _ _ g) (laws.computed_log hg hx rfl)
  case log1p =>
    intro g hg hx
    exact maps_elementary (length_logExact _ _ _ g) (laws.computed_log1p hg hx rfl)
  case log10 =>
    intro g hg hx
    exact maps_elementary (length_logExact _ _ _ g) (laws.computed_log10 hg hx rfl)

/-- Two jets of two parameters up to order two, with logarithms that are affine maps. -/
theorem Tables.logarithmLaws_two_two : Built 2 2 (complete 2 2) ∧
    ∃ multiply log log1p log10, (complete 2 2).LogarithmLaws
        (.mk : Rat → ExactNumber Elementary.onRat) multiply log log1p log10 ∧
      ∀ (u v w : Rat) (i : Nat), 1 ≤ i →
        (log w (multiply [2, 1, 0, 3, 1, -1] [-3, 0, 1 / 2, 0, 2, 1])).getD i 0 =
          (log u [2, 1, 0, 3, 1, -1]).getD i 0 + (log v [-3, 0, 1 / 2, 0, 2, 1]).getD i 0 := by
  have exact : IsExactScalar (.mk : Rat → ExactNumber Elementary.onRat) :=
    ExactNumber.isExactScalar
  obtain ⟨multiply, log, log1p, log10, laws⟩ :=
    (logarithmLaws_of_built (built_complete 2 2)).1 exact
  exact ⟨built_complete 2 2, multiply, log, log1p, log10, laws,
    laws.product (by decide) (by decide) (by decide) (by decide)⟩

end JetAlgebra
