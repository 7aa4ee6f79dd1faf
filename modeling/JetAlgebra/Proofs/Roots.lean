import JetAlgebra.Argument
import JetAlgebra.Proofs.JetPowers
import JetAlgebra.Proofs.RealPowers

/-!
# Roots of jets

A root starts from the root of a number and from one of three formulas for the first derivative,
and each further derivative is the one before times `(1 / n - i) / x`.  If the root of the number
is a root, all three formulas list the same derivatives, those of `x^(1 / n)` with that root for
the value (`IsExactNumber.root`).

What the root of a jet is follows from its logarithmic derivative, which is that of the jet
over `n` (`derivative_rootExact`).  So its power `n` has the logarithmic derivative of the jet,
and it is the jet as soon as the values are the same (`zpowExact_rootExact`).
-/
namespace JetAlgebra
open Arithmetic Tables Exponent Expansion Polynomial

/-- **Exact numbers with doubles and powers**: a double stands for the number that it is, and a
number has powers to all integers, if it is not zero. -/
structure IsExactNumber {K E : Type} [Field K] [Arithmetic E] (lift : K → E) : Prop
    extends IsExactElement lift where
  ofRat : ∀ {x : Float} {q : Rat}, Binary64.toRat? x = some q → Arithmetic.ofFloat x = lift q
  zpow : ∀ {x : K} (n : Int), x ≠ 0 → Arithmetic.pow (lift x) (lift n) = .ok (lift (x ^ n))

theorem ExactNumber.isExactNumber {kernel : Elementary → Rat → Rat} :
    IsExactNumber (ExactNumber.mk : Rat → ExactNumber kernel) where
  toIsExactElement := isExactElement
  ofRat {x q} h := by
    show ofDouble x = _
    rw [ofDouble, h, Option.getD_some, Rat.cast_id]
  zpow {x} n hx := by
    have power : Exact.power x n = .ok (x ^ n) := by
      rw [Exact.power, if_pos (Rat.den_intCast n), Rat.num_intCast, Exact.zpow_eq hx]
    exact bind_eq_ok power rfl

/-! ## The recipe -/

namespace Outer

/-- The root of a number that a formula starts from. -/
def RootKind.root {E : Type} [Arithmetic E] (kind : RootKind) (n x : E) :
    Except ArithmeticFault E :=
  match kind with
  | .square => apply .sqrt x
  | .cube => apply .cbrt x
  | .other => do pow x (← div one n)

/-- The formula for the first derivative of the root `s`. -/
def RootKind.first {E : Type} [Arithmetic E] (kind : RootKind) (n s : E) :
    Except ArithmeticFault E :=
  match kind with
  | .square => div (ofFloat 0.5) s
  | .cube => do div one (← mul (← mul (ofFloat 3.0) s) s)
  | .other => do div one (← mul n (← pow s (← sub n (ofInt 1))))

theorem rootStart_eq {E : Type} [Arithmetic E] (kind : RootKind) (n x : E) :
    rootStart kind n x = (do
      let s ← kind.root n x
      return (s, ← kind.first n s)) := by
  cases kind <;> simp only [rootStart, RootKind.root, RootKind.first, bind_assoc]

/-- Plain integers have formulas of their own at two and at three. -/
theorem rootKind_int (n : Int) : (Argument.scalar (.int n)).rootKind =
    if n = 2 then .square else if n = 3 then .cube else .other := by
  simp only [Argument.rootKind, Argument.equals, Argument.toScalar, beq_iff_eq]

variable {K : Type} [Field K]

/-- A root of a number other than zero is not zero. -/
theorem ne_zero_of_zpow_eq {n : Int} (hn : n ≠ 0) {s x : K} (hx : x ≠ 0) (fit : s ^ n = x) :
    s ≠ 0 := by
  rintro rfl
  exact hx (fit.symm.trans (zero_zpow n hn))

/-- Derivative `k` of the power to `a` at `x`, where that is `s`. -/
noncomputable def rootDerivative (s x a : K) (k : Nat) : K :=
  s * x⁻¹ ^ k * (descPochhammer K k).eval a

/-- **The derivatives of the power to `a`** at `x`, where that is `s`. -/
noncomputable def rootDerivatives (s x a : K) (order : Nat) : List K :=
  (List.range (order + 1)).map (rootDerivative s x a)

theorem rootDerivative_zero (s x a : K) : rootDerivative s x a 0 = s := by
  rw [rootDerivative, pow_zero, mul_one, descPochhammer_zero, Polynomial.eval_one, mul_one]

theorem rootDerivative_succ (s x a : K) (k : Nat) :
    rootDerivative s x a (k + 1) = rootDerivative s x a k * (x⁻¹ * (a - k)) := by
  rw [rootDerivative, rootDerivative, descPochhammer_succ_eval, pow_succ]
  ring

theorem length_rootDerivatives (s x a : K) (order : Nat) :
    (rootDerivatives s x a order).length = order + 1 := by
  rw [rootDerivatives, List.length_map, List.length_range]

theorem getD_rootDerivatives (s x a : K) {order k : Nat} (hk : k ≤ order) :
    (rootDerivatives s x a order).getD k 0 = rootDerivative s x a k := getD_map_range _ hk

end Outer

namespace IsExactNumber
variable {K E : Type} [Field K] [Arithmetic E] {lift : K → E} (exact : IsExactNumber lift)
include exact

/-- Each derivative is the last one times `(a - i) / x`. -/
theorem rootChain (s x a : K) (i count : Nat) :
    Outer.rootChain (lift x⁻¹) (lift a) i count (lift (Outer.rootDerivative s x a i)) =
      .ok ((List.range' i count).map fun k => lift (Outer.rootDerivative s x a k)) := by
  induction count generalizing i with
  | zero => rfl
  | succ count ih =>
    have factor : Arithmetic.sub (lift a) (ofInt i) = .ok (lift (a - i)) := by
      rw [exact.ofInt, exact.sub, Int.cast_natCast]
    have next : Arithmetic.mul (lift (Outer.rootDerivative s x a i)) (lift (x⁻¹ * (a - i))) =
        .ok (lift (Outer.rootDerivative s x a (i + 1))) := by
      rw [exact.mul, Outer.rootDerivative_succ]
    rw [List.range'_succ, List.map_cons]
    exact bind_eq_ok factor (bind_eq_ok (exact.mul _ _)
      (bind_eq_ok next (bind_eq_ok (ih (i + 1)) rfl)))

variable [CharZero K]

/-- **All formulas for the first derivative agree**, at a root. -/
theorem first {n : Int} (hn : n ≠ 0) {s x : K} (hx : x ≠ 0) (fit : s ^ n = x) :
    (Argument.scalar (.int n)).rootKind.first (Arithmetic.ofInt n) (lift s) =
      .ok (lift (Outer.rootDerivative s x (n : K)⁻¹ 1)) := by
  have index : (n : K) ≠ 0 := Int.cast_ne_zero.mpr hn
  have hs : s ≠ 0 := Outer.ne_zero_of_zpow_eq hn hx fit
  have quotient : Outer.rootDerivative s x (n : K)⁻¹ 1 = 1 / (n * s ^ (n - 1)) := by
    rw [Outer.rootDerivative_succ, Outer.rootDerivative_zero, Nat.cast_zero, sub_zero, ← fit,
      zpow_sub_one₀ hs]
    field_simp
  rw [quotient, Outer.rootKind_int]
  by_cases square : n = 2
  · subst square
    have half : Binary64.toRat? 0.5 = some (1 / 2) := by decide +kernel
    have same : ((1 / 2 : Rat) : K) / s = 1 / (((2 : Int) : K) * s ^ ((2 : Int) - 1)) := by
      have single : s ^ ((2 : Int) - 1) = s := zpow_one s
      rw [single]
      push_cast
      ring
    rw [if_pos rfl, Outer.RootKind.first, exact.ofRat half, exact.div _ hs, same]
  · by_cases cube : n = 3
    · subst cube
      have three : Binary64.toRat? 3.0 = some ((3 : Int) : Rat) := by decide +kernel
      have same : (((3 : Int) : K) * s) * s = ((3 : Int) : K) * s ^ ((3 : Int) - 1) := by
        rw [mul_assoc, ← pow_two, ← zpow_natCast]
        rfl
      have nonzero : ((3 : Int) : K) * s ^ ((3 : Int) - 1) ≠ 0 :=
        mul_ne_zero index (zpow_ne_zero _ hs)
      rw [if_neg square, if_pos rfl, Outer.RootKind.first, exact.ofFloat three, exact.one_eq]
      refine bind_eq_ok (exact.mul _ _) (bind_eq_ok (exact.mul _ _) ?_)
      rw [same, exact.div _ nonzero]
    · have below : Arithmetic.sub (Arithmetic.ofInt n) (Arithmetic.ofInt 1) =
          .ok (lift ((n - 1 : Int) : K)) := by
        rw [exact.ofInt, exact.ofInt, exact.sub, ← Int.cast_sub]
      have product : Arithmetic.mul (Arithmetic.ofInt n) (lift (s ^ (n - 1))) =
          .ok (lift (n * s ^ (n - 1))) := by rw [exact.ofInt, exact.mul]
      rw [if_neg square, if_neg cube, Outer.RootKind.first, exact.one_eq]
      exact bind_eq_ok below (bind_eq_ok (exact.zpow _ hs) (bind_eq_ok product
        (exact.div _ (mul_ne_zero index (zpow_ne_zero _ hs)))))

/-- **The recipe of a root** lists the derivatives, if it starts from a root. -/
theorem root {n : Int} (hn : n ≠ 0) {s x : K} (hx : x ≠ 0)
    (value : (Argument.scalar (.int n)).rootKind.root (Arithmetic.ofInt n) (lift x) =
      .ok (lift s)) (fit : s ^ n = x) (order : Nat) :
    Outer.root (Argument.scalar (.int n)).rootKind (Arithmetic.ofInt n) (lift x) order =
      .ok ((Outer.rootDerivatives s x (n : K)⁻¹ order).map lift) := by
  have start : Outer.rootStart (Argument.scalar (.int n)).rootKind (Arithmetic.ofInt n) (lift x) =
      .ok (lift s, lift (Outer.rootDerivative s x (n : K)⁻¹ 1)) := by
    rw [Outer.rootStart_eq]
    exact bind_eq_ok value (bind_eq_ok (exact.first hn hx fit) rfl)
  have overN : Arithmetic.div Outer.one (Arithmetic.ofInt n) = .ok (lift (n : K)⁻¹) := by
    rw [exact.ofInt, exact.one_eq, exact.div 1 (Int.cast_ne_zero.mpr hn), one_div]
  have overX : Arithmetic.div Outer.one (lift x) = .ok (lift x⁻¹) := by
    rw [exact.one_eq, exact.div 1 hx, one_div]
  rw [Outer.rootDerivatives, List.map_map, List.range_eq_range', List.range'_succ, List.map_cons,
    Function.comp_apply, Outer.rootDerivative_zero]
  exact bind_eq_ok start (bind_eq_ok overN (bind_eq_ok overX
    (bind_eq_ok (exact.rootChain s x _ 1 order) rfl)))

end IsExactNumber

/-! ## Roots of jets -/

section Jets
variable {K : Type} [Field K] {p o : Nat}

/-- **A root of a jet**: its power to `a`, with the value `s`. -/
noncomputable def Tables.rootExact (t : Tables) (s a : K) (g : List K) : List K :=
  t.composeExact g (Outer.rootDerivatives s (g.getD 0 0) a t.order)

theorem length_rootExact (s a : K) (g : List K) :
    ((complete p o).rootExact s a g).length = (complete p o).size := length_composeExact p o _ _

variable [CharZero K]

theorem getD_zero_rootExact (s a : K) (g : List K) :
    ((complete p o).rootExact s a g).getD 0 0 = s := by
  rw [rootExact, getD_zero_composeExact, Outer.getD_rootDerivatives s _ a (Nat.zero_le _),
    Outer.rootDerivative_zero]

/-- **The logarithmic derivative of a root** is `a` times that of the jet. -/
theorem derivative_rootExact {k : Nat} (hk : k < o) (j : Fin p) {g : List K}
    (hg : g.getD 0 0 ≠ 0) (s a : K) :
    derivative hk j (expansion p o ((complete p o).rootExact s a g)) *
        upTo hk.le (expansion p o g) =
      a • (upTo hk.le (expansion p o ((complete p o).rootExact s a g)) *
        derivative hk j (expansion p o g)) := by
  -- From the first derivative on, without an end at the order.
  have next : ∀ i < o, (Outer.rootDerivatives s (g.getD 0 0) a o).getD (i + 1) 0 =
      1 * ((List.range (o + 1)).map fun i => Outer.rootDerivative s (g.getD 0 0) a (i + 1)).getD
        i 0 := by
    intro i hi
    rw [one_mul, getD_map_range _ hi.le, Outer.getD_rootDerivatives s _ a hi]
  have multiple : ∀ i : Nat, g.getD 0 0 * Outer.rootDerivative s (g.getD 0 0) a (i + 1) +
      i * Outer.rootDerivative s (g.getD 0 0) a (i - 1 + 1) =
        a * Outer.rootDerivative s (g.getD 0 0) a i := by
    intro i
    rcases Nat.eq_zero_or_pos i with rfl | positive
    · rw [Outer.rootDerivative_succ, Nat.cast_zero]
      field_simp
      ring
    · rw [Nat.sub_add_cancel positive, Outer.rootDerivative_succ]
      field_simp
      ring
  have outer := expansion_composeExact_mul (p := p) (o := o) g multiple
  rw [rootExact, order_complete, derivative_composeExact hk j next, one_smul, mul_right_comm,
    ← map_mul, outer, map_smul, smul_mul_assoc]
  rfl

/-- **A root to the power of its index** is the jet. -/
theorem zpowExact_rootExact {g : List K} (hg : g.length = (complete p o).size) {n : Int}
    (hn : n ≠ 0) (nonzero : g.getD 0 0 ≠ 0) {s : K} (fit : s ^ n = g.getD 0 0) :
    (complete p o).zpowExact ((complete p o).rootExact s (n : K)⁻¹ g) n = g := by
  have hr : ((complete p o).rootExact s (n : K)⁻¹ g).getD 0 0 ≠ 0 := by
    rw [getD_zero_rootExact]
    exact Outer.ne_zero_of_zpow_eq hn nonzero fit
  obtain ⟨r, hr'⟩ := isUnit_expansion (p := p) (o := o) hr
  obtain ⟨u, hu⟩ := isUnit_expansion (p := p) (o := o) nonzero
  -- The power has the logarithmic derivative of the jet, so it is a multiple of the jet.
  obtain ⟨c, multiple⟩ : ∃ c : K, (r ^ n : (Expansion p o K)ˣ).1 = c • u.1 := by
    refine exists_eq_smul_of_derivative_eq fun k hk j => ?_
    have root := derivative_rootExact hk j nonzero s (n : K)⁻¹
    rw [← hr', ← hu] at root
    have power : (r ^ n : (Expansion p o K)ˣ) = (r ^ (n - 1) : (Expansion p o K)ˣ) * r := by
      rw [zpow_sub_one, inv_mul_cancel_right]
    have cancel : (n : K) * (n : K)⁻¹ = 1 := mul_inv_cancel₀ (Int.cast_ne_zero.mpr hn)
    rw [derivative_zpow hk j hr hr' n, ← hr', smul_mul_assoc, mul_assoc, root, mul_smul_comm,
      smul_smul, cancel, one_smul, power, Units.val_mul, map_mul, mul_assoc]
  have same : (complete p o).zpowExact ((complete p o).rootExact s (n : K)⁻¹ g) n =
      g.map (· * c) := by
    refine eq_of_expansion_eq (length_zpowExact p o _ n) ((List.length_map _).trans hg) ?_
    rw [expansion_zpowExact hr hr', multiple, expansion_scale, hu]
  have value := getD_zero_zpowExact (p := p) (o := o) hr n
  rw [same, getD_map_mul, getD_zero_rootExact, fit] at value
  have one : c = 1 := (mul_eq_left₀ nonzero).mp value
  rw [same, one]
  simp only [mul_one, List.map_id']

end Jets

/-! ## What callers may rely on -/

/-- **The root of a jet** of a plain index. -/
def Jet.root {E : Type} [Arithmetic E] (k : Calculus) (s : Storage E) (g : Jet E) (n : Int) :
    Except ArithmeticFault (Jet E) :=
  through k s g (Outer.root (Argument.scalar (.int n)).rootKind (Arithmetic.ofInt n))

/-- **Roots are roots of the whole jet**: for the tables `t` and the index `n`. -/
structure Tables.TakesRoots (t : Tables) (n : Int) : Prop where
  /-- Over exact numbers, if the root of the value is one: the root exists, its value is that root,
  and its power is the jet. -/
  computed : ∀ {K E : Type} [Field K] [CharZero K] [Arithmetic E] {lift : K → E},
    IsExactNumber lift → ∀ {g : List K} {s : K}, g.length = t.size → g.getD 0 0 ≠ 0 →
      (Argument.scalar (.int n)).rootKind.root (Arithmetic.ofInt n) (lift (g.getD 0 0)) =
        .ok (lift s) → s ^ n = g.getD 0 0 →
          ∃ r : List K, r.length = t.size ∧ r.getD 0 0 = s ∧
            Jet.root t.calculus .faithful (g.map lift) n = .ok (r.map lift) ∧
            Jet.powInt t.calculus .faithful (r.map lift) n = .ok (g.map lift)
  /-- The operation on windows leaves the same root. -/
  windows : ∀ {g r : List Rat}, r.length = t.size →
    Jet.root t.calculus .faithful (Jet.ofRat g) n = .ok (Jet.ofRat r) →
      t.Maps (.root · (.scalar (.int n)) ·) g r

/-- **Roots are roots of the whole jet**, for every signature and every index but zero. -/
theorem Tables.takesRoots_of_built {p o : Nat} {t : Tables} (h : Built p o t) {n : Int}
    (hn : n ≠ 0) : t.TakesRoots n := by
  obtain rfl := h.eq_complete
  constructor
  case computed =>
    intro K E _ _ _ lift exact g s hg nonzero value fit
    have root : Jet.root (complete p o).calculus .faithful (g.map lift) n =
        .ok (((complete p o).rootExact s (n : K)⁻¹ g).map lift) := by
      have enough : o < (Outer.rootDerivatives s (g.getD 0 0) (n : K)⁻¹ o).length := by
        rw [Outer.length_rootDerivatives]
        exact Nat.lt_succ_self o
      rw [rootExact, order_complete]
      exact exact.toIsExact.through_complete hg (exact.root hn nonzero value fit o) enough
    have hs : ((complete p o).rootExact s (n : K)⁻¹ g).getD 0 0 ≠ 0 := by
      rw [getD_zero_rootExact]
      exact Outer.ne_zero_of_zpow_eq hn nonzero fit
    have power := exact.toIsExactDivision.powInt_complete (n := n)
      (length_rootExact s (n : K)⁻¹ g) (Or.inr hs)
    rw [zpowExact_rootExact hg hn nonzero fit] at power
    exact ⟨_, length_rootExact s _ g, getD_zero_rootExact s _ g, root, power⟩
  case windows =>
    intro g r hr root m x w hx hw
    refine leaves_of_jet (f := (Operation.rootOf (complete p o).calculus · x (.scalar (.int n)) w))
      rfl hw hr ?_
    rw [Operation.rootOf, through_of_read hx.storageOf (hx.read _) hw.check]
    exact mapError_eq_ok_iff.mpr root

/-- Square and cube roots of sixty-four. -/
def ofSixtyFour : Elementary → Rat → Rat
  | .sqrt, q => q / 8
  | .cbrt, q => q / 16
  | _, q => q

/-- A jet of two parameters up to order two, for each of the three formulas. -/
theorem Tables.takesRoots_two_two : Built 2 2 (complete 2 2) ∧ ∀ n ∈ [2, 3, -1],
    n ≠ 0 ∧ (complete 2 2).TakesRoots n ∧ ∃ r : List (ExactNumber ofSixtyFour),
      Jet.root (complete 2 2).calculus .faithful ([64, 1, 0, 3, 1, -1].map .mk) n = .ok r ∧
      Jet.powInt (complete 2 2).calculus .faithful r n =
        .ok ([64, 1, 0, 3, 1, -1].map .mk) := by
  have exact : IsExactNumber (.mk : Rat → ExactNumber ofSixtyFour) := ExactNumber.isExactNumber
  have root : ∀ n ∈ [2, 3, -1], n ≠ 0 ∧ ∃ s : Rat,
      (Argument.scalar (.int n)).rootKind.root (Arithmetic.ofInt n)
        (.mk 64 : ExactNumber ofSixtyFour) = .ok (.mk s) ∧ s ^ n = 64 := by
    intro n index
    simp only [List.mem_cons, List.not_mem_nil, or_false] at index
    rcases index with rfl | rfl | rfl
    · exact ⟨by decide, ofSixtyFour .sqrt 64, rfl, by norm_num [ofSixtyFour]⟩
    · exact ⟨by decide, ofSixtyFour .cbrt 64, rfl, by norm_num [ofSixtyFour]⟩
    · have overN : Arithmetic.div Outer.one (Arithmetic.ofInt (-1)) =
          .ok (.mk ((-1 : Int) : Rat) : ExactNumber ofSixtyFour) := by
        rw [exact.one_eq, exact.ofInt, exact.div 1 (by decide)]
        norm_num
      exact ⟨by decide, 64 ^ (-1 : Int), bind_eq_ok overN (exact.zpow (-1) (by decide)),
        by norm_num⟩
  refine ⟨built_complete 2 2, fun n index => ?_⟩
  obtain ⟨hn, s, value, fit⟩ := root n index
  have roots := takesRoots_of_built (built_complete 2 2) hn
  obtain ⟨r, -, -, taken, power⟩ := roots.computed exact (g := [64, 1, 0, 3, 1, -1]) (by decide)
    (by decide) value fit
  exact ⟨hn, roots, _, taken, power⟩

end JetAlgebra
