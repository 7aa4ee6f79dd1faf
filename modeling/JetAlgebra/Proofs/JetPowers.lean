import JetAlgebra.Proofs.ExponentLaws
import JetAlgebra.Proofs.Logarithms

/-!
# Powers with a jet for the exponent

The power of a jet to a jet is the exponential of the exponent times the logarithm, whatever those
two functions are: only their values depend on that.  If the exponent is an integer constant,
then this power has the logarithmic derivative of the power to the integer
(`derivative_jetPowerExact`), so the two are the same up to a factor, and that factor
is one as soon as the values are the same.
-/
namespace JetAlgebra
open Arithmetic Tables Exponent Expansion

/-- **The power of a jet to a jet**: the exponential of the exponent times the logarithm. -/
def Jet.power {E : Type} [Arithmetic E] (k : Calculus) (s : Storage E) (x y : Jet E) :
    Except ArithmeticFault (Jet E) := do
  let l ← Jet.stored s (Jet.through k s x Outer.log)
  let e ← Jet.stored s (Jet.mul k l y)
  Jet.through k s e Outer.exp

/-! ## What is computed -/

/-- The operation on windows takes the same steps, in between its checks. -/
theorem power_of_read {k : Calculus} {m : Memory} {x y r : Window} {a b c : Jet Scalar}
    (hs : Operation.storageOf m x = .faithful) (hx : Operation.read k m "operand" x = .ok a)
    (hy : Operation.read k m "rhs" y = .ok b) (hr : Operation.checkResult k m r = .ok ())
    (h : Jet.power k .faithful a b = .ok c) : Operation.power k m x y r = .ok c := by
  obtain ⟨l, logarithm, h⟩ := bind_eq_ok_iff.mp h
  obtain ⟨e, product, h⟩ := bind_eq_ok_iff.mp h
  obtain ⟨v, value, h⟩ := bind_eq_ok_iff.mp h
  obtain ⟨f, derivatives, h⟩ := bind_eq_ok_iff.mp h
  rw [Operation.power, hs]
  exact bind_eq_ok (checkScratch_of_read hx) (bind_eq_ok hx
    (bind_eq_ok (mapError_eq_ok_iff.mpr logarithm) (bind_eq_ok hy
      (bind_eq_ok (mapError_eq_ok_iff.mpr product) (bind_eq_ok (mapError_eq_ok_iff.mpr value)
        (bind_eq_ok (mapError_eq_ok_iff.mpr derivatives)
          (bind_eq_ok hr (mapError_eq_ok_iff.mpr h))))))))

/-- **A power to a jet**, from that of jets. -/
theorem Tables.combines_power {t : Tables} {a b c : List Rat} (hc : c.length = t.size)
    (h : Jet.power t.calculus .faithful (Jet.ofRat a) (Jet.ofRat b) = .ok (Jet.ofRat c)) :
    t.Combines (.binary .power) a b c := by
  intro m x y r hx hy hr
  exact leaves_of_jet (f := (Operation.power t.calculus · x y r)) rfl hr hc
    (power_of_read hx.storageOf (hx.read _) (hy.read _) hr.check h)

section Exact
variable {K : Type} [Field K] {p o : Nat}

/-- **The exponential of a jet**, with the value `v`. -/
def Tables.expExact (t : Tables) (v : K) (g : List K) : List K :=
  t.composeExact g (List.replicate (t.order + 1) v)

/-- The power of a jet to a jet, with the value `l` for the logarithm and `v` for the power. -/
noncomputable def Tables.jetPowerExact (t : Tables) (l v : K) (x y : List K) : List K :=
  t.expExact v (t.mulExact (t.logExact l (x.getD 0 0) 1 x) y)

theorem length_jetPowerExact (l v : K) (x y : List K) :
    ((complete p o).jetPowerExact l v x y).length = (complete p o).size :=
  length_composeExact p o _ _

variable [CharZero K]

theorem getD_zero_jetPowerExact (l v : K) (x y : List K) :
    ((complete p o).jetPowerExact l v x y).getD 0 0 = v :=
  (getD_zero_composeExact _ _).trans (List.getD_replicate v (Nat.succ_pos _))

theorem getD_zero_logExact (v x c : K) (g : List K) :
    ((complete p o).logExact v x c g).getD 0 0 = v := getD_zero_composeExact _ _

/-- **The power of a jet to a jet**, from the values of the logarithm and the exponential. -/
theorem IsExactDivision.power_eq_ok {E : Type} [Arithmetic E] {lift : K → E}
    (exact : IsExactDivision lift) {x y : List K} (hx : x.length = (complete p o).size)
    (hy : y.length = (complete p o).size) (nonzero : x.getD 0 0 ≠ 0) {l v : K}
    (log : apply .log (lift (x.getD 0 0)) = .ok (lift l))
    (exp : apply .exp (lift (l * y.getD 0 0)) = .ok (lift v)) :
    Jet.power (complete p o).calculus .faithful (x.map lift) (y.map lift) =
      .ok (((complete p o).jetPowerExact l v x y).map lift) := by
  have logarithm := exact.toIsExact.through_logExact hx (exact.derivativesOf_log nonzero log o)
  have product := exact.mul_complete (length_logExact l (x.getD 0 0) 1 x) hy
  have value : ((complete p o).mulExact ((complete p o).logExact l (x.getD 0 0) 1 x) y).getD 0 0 =
      l * y.getD 0 0 := by rw [getD_zero_mulExact, getD_zero_logExact]
  have derivatives : Outer.exp (lift (l * y.getD 0 0)) o =
      .ok ((List.replicate (o + 1) v).map lift) := by
    rw [List.map_replicate]
    exact bind_eq_ok exp rfl
  rw [← value] at derivatives
  rw [jetPowerExact, expExact, order_complete]
  exact bind_eq_ok (bind_eq_ok logarithm (Storage.mapM_store _))
    (bind_eq_ok (bind_eq_ok product (Storage.mapM_store _))
      (exact.toIsExact.through_complete (length_mulExact p o _ _) derivatives
        (by rw [List.length_replicate]; exact Nat.lt_succ_self o)))

end Exact

/-! ## Powers to a constant -/

section Constant
variable {K : Type} [Field K] [CharZero K] {p o : Nat}

/-- The value of a power is the power of the value. -/
theorem getD_zero_zpowExact {x : List K} (hx : x.getD 0 0 ≠ 0) (n : Int) :
    ((complete p o).zpowExact x n).getD 0 0 = x.getD 0 0 ^ n := by
  obtain ⟨u, hu⟩ := isUnit_expansion (p := p) (o := o) hx
  rw [← value_expansion (p := p) (o := o), expansion_zpowExact hx hu,
    ← expansion_composeExact_zpow hx hu, value_expansion, getD_zero_composeExact,
    Outer.getD_zpowDerivatives n _ (Nat.zero_le o), Nat.cast_zero, sub_zero, Outer.falling_zero,
    Int.cast_one, mul_one]

variable {k : Nat} (hk : k < o) (j : Fin p)

/-- **The exponential is its own derivative.** -/
theorem derivative_expExact (v : K) (g : List K) :
    derivative hk j (expansion p o ((complete p o).expExact v g)) =
      upTo hk.le (expansion p o ((complete p o).expExact v g)) *
        derivative hk j (expansion p o g) := by
  have same : ∀ i < o, (List.replicate (o + 1) v).getD (i + 1) 0 =
      1 * (List.replicate (o + 1) v).getD i 0 := by
    intro i hi
    rw [List.getD_replicate v (by omega), List.getD_replicate v (by omega), one_mul]
  rw [expExact, order_complete, derivative_composeExact hk j same, one_smul]

/-- **The power to a constant** has the derivative of a power. -/
theorem derivative_jetPowerExact {x : List K} (hx : x.getD 0 0 ≠ 0) {u : (Expansion p o K)ˣ}
    (hu : u = expansion p o x) (n l v : K) (m : Nat) :
    derivative hk j (expansion p o ((complete p o).jetPowerExact l v x
        (n :: List.replicate m 0))) =
      n • (upTo hk.le (expansion p o ((complete p o).jetPowerExact l v x
        (n :: List.replicate m 0))) * (upTo hk.le (u⁻¹ : (Expansion p o K)ˣ) *
          derivative hk j (expansion p o x))) := by
  have exponent : derivative hk j (expansion p o ((complete p o).mulExact
      ((complete p o).logExact l (x.getD 0 0) 1 x) (n :: List.replicate m 0))) =
        n • (upTo hk.le (u⁻¹ : (Expansion p o K)ˣ) * derivative hk j (expansion p o x)) := by
    rw [expansion_mulExact, expansion_constant, mul_comm, ← Expansion.smul_eq, map_smul,
      derivative_log hk j hx hu]
  rw [jetPowerExact, derivative_expExact, exponent, mul_smul_comm]

/-- **Both powers are the same up to a factor**: they have the same logarithmic derivative. -/
theorem exists_jetPowerExact_eq {x : List K} (hx : x.getD 0 0 ≠ 0) (n : Int) (l v : K) (m : Nat) :
    ∃ c : K, (complete p o).jetPowerExact l v x ((n : K) :: List.replicate m 0) =
      ((complete p o).zpowExact x n).map (· * c) := by
  obtain ⟨u, hu⟩ := isUnit_expansion (p := p) (o := o) hx
  obtain ⟨c, hc⟩ : ∃ c : K, expansion p o ((complete p o).jetPowerExact l v x
      ((n : K) :: List.replicate m 0)) = c • (u ^ n : (Expansion p o K)ˣ).1 := by
    refine exists_eq_smul_of_derivative_eq fun k hk j => ?_
    rw [derivative_jetPowerExact hk j hx hu, derivative_zpow hk j hx hu, zpow_sub_one u n,
      Units.val_mul, map_mul, smul_mul_assoc, mul_smul_comm]
    exact congrArg ((n : K) • ·) (by ring)
  refine ⟨c, eq_of_expansion_eq (length_jetPowerExact l v x _) ?_ ?_⟩
  · rw [List.length_map, length_zpowExact]
  · rw [expansion_scale, expansion_zpowExact hx hu, hc]

/-- **Jets in one ratio**, where `q` is the value of the second one; if both values are the same,
then so are the jets. -/
structure Proportional (q : K) (a b : List K) : Prop where
  slot : ∀ i, a.getD i 0 * q = a.getD 0 0 * b.getD i 0
  same : a.getD 0 0 = q → a = b

/-- **The power to a constant jet is proportional to the power to the constant.** -/
theorem proportional_jetPowerExact {x : List K} (hx : x.getD 0 0 ≠ 0) (n : Int) (l v : K)
    (m : Nat) : Proportional (x.getD 0 0 ^ n)
      ((complete p o).jetPowerExact l v x ((n : K) :: List.replicate m 0))
      ((complete p o).zpowExact x n) := by
  obtain ⟨c, same⟩ := exists_jetPowerExact_eq (p := p) (o := o) hx n l v m
  have power := getD_zero_zpowExact (p := p) (o := o) hx n
  constructor
  case slot =>
    intro i
    rw [same, getD_map_mul, getD_map_mul, power]
    ring
  case same =>
    intro value
    rw [same, getD_map_mul, power] at value
    have one : c = 1 := (mul_eq_left₀ (zpow_ne_zero n hx)).mp value
    rw [same, one]
    simp only [mul_one, List.map_id']

end Constant

/-! ## What callers may rely on -/

/-- **A power to a constant jet is proportional to the power to the constant**: for the tables `t`
and the integer `n`. -/
structure Tables.ProportionalPowers (t : Tables) (n : Int) : Prop where
  /-- Over exact elements, whatever the values of the logarithm and the exponential are. -/
  computed : ∀ {K E : Type} [Field K] [CharZero K] [Arithmetic E] {lift : K → E},
    IsExactDivision lift → ∀ {x : List K} {l v : K}, x.length = t.size → x.getD 0 0 ≠ 0 →
      apply .log (lift (x.getD 0 0)) = .ok (lift l) → apply .exp (lift (l * n)) = .ok (lift v) →
        ∃ a b : List K,
          Jet.power t.calculus .faithful (x.map lift)
            (((n : K) :: List.replicate (t.size - 1) 0).map lift) = .ok (a.map lift) ∧
          Jet.powInt t.calculus .faithful (x.map lift) n = .ok (b.map lift) ∧
          a.getD 0 0 = v ∧ Proportional (x.getD 0 0 ^ n) a b
  /-- The same of what the operations leave in windows. -/
  windows : ∀ {x : List Rat}, x.length = t.size → x.getD 0 0 ≠ 0 → ∃ a b : List Rat,
    t.Combines (.binary .power) x ((n : Rat) :: List.replicate (t.size - 1) 0) a ∧
    t.Maps (.pow · (.scalar (.int n)) ·) x b ∧
    a.getD 0 0 = Elementary.exp.onRat (Elementary.log.onRat (x.getD 0 0) * n) ∧
    Proportional (x.getD 0 0 ^ n) a b

/-- **Both powers are proportional**, for every signature and every integer exponent. -/
theorem Tables.proportionalPowers_of_built {p o : Nat} {t : Tables} (h : Built p o t) (n : Int) :
    t.ProportionalPowers n := by
  obtain rfl := h.eq_complete
  constructor
  case computed =>
    intro K E _ _ _ lift exact x l v hx nonzero log exp
    exact ⟨_, _, exact.power_eq_ok hx (length_constant p o _ 0) nonzero log exp,
      exact.powInt_complete hx (Or.inr nonzero), getD_zero_jetPowerExact l v x _,
      proportional_jetPowerExact nonzero n l v _⟩
  case windows =>
    intro x hx nonzero
    exact ⟨_, _, combines_power (length_jetPowerExact _ _ x _)
      (Scalar.isExactDivision_rat.power_eq_ok hx (length_constant p o _ 0) nonzero rfl rfl),
      maps_powInt hx (Or.inr nonzero), getD_zero_jetPowerExact _ _ x _,
      proportional_jetPowerExact nonzero n _ _ _⟩

/-- The exponential and the logarithm, replaced by their tangents at zero and at one. -/
def nearOne : Elementary → Rat → Rat
  | .exp, q => 1 + q
  | .log, q => q - 1
  | _, q => q

/-- A jet of two parameters up to order two with the value one, to the power of minus three. -/
theorem Tables.proportionalPowers_two_two : Built 2 2 (complete 2 2) ∧
    (complete 2 2).ProportionalPowers (-3) ∧ ∃ a : List (ExactNumber nearOne),
      Jet.power (complete 2 2).calculus .faithful ([1, 1, 0, 3, 1, -1].map .mk)
        ((((-3 : Int) : Rat) :: List.replicate ((complete 2 2).size - 1) 0).map .mk) = .ok a ∧
      Jet.powInt (complete 2 2).calculus .faithful ([1, 1, 0, 3, 1, -1].map .mk) (-3) = .ok a := by
  have powers := proportionalPowers_of_built (built_complete 2 2) (-3)
  have exact : IsExactDivision (.mk : Rat → ExactNumber nearOne) :=
    ExactNumber.isExactElement.toIsExactDivision
  obtain ⟨a, b, power, powInt, value, proportional⟩ := powers.computed exact
    (x := [1, 1, 0, 3, 1, -1]) (by decide) (by decide) rfl rfl
  have same : a = b := proportional.same (value.trans (by decide +kernel))
  exact ⟨built_complete 2 2, powers, _, power, same ▸ powInt⟩

end JetAlgebra
