import JetAlgebra.Proofs.ExactPowers

/-!
# Integer powers of exact jets

The derivatives of `x^n` are the powers below it times factors that fall from `n` on
(`Outer.zpowDerivatives`).  For a negative `n` the recipe finds them as powers of the reciprocal,
and they never end; the Taylor sum does, because a jet without its value has no power beyond the
order.

One power more is one factor more, by Pascal's rule for the coefficients (`binomialSum_succ`), and
the power zero is one.  So the expansion of a jet with a value other than zero is a unit, and
composing with `x^n` gives its power for every integer `n` (`expansion_composeExact_zpow`).  Where
the value is zero only the natural powers are left, which are repeated products; `zpowExact` is
both, and `IsExactDivision.powInt_complete` says that it is what is computed.
-/
namespace JetAlgebra
open Arithmetic Tables Exponent

/-- **Exact numbers with reciprocals.** -/
structure IsExactDivision {K E : Type} [Field K] [Arithmetic E] (lift : K → E) : Prop
    extends IsExactField lift where
  reciprocal : ∀ {x : K}, x ≠ 0 → Arithmetic.div Outer.one (lift x) = .ok (lift x⁻¹)

/-- The one that recipes write down is the number one. -/
theorem Exact.ofFloat_one : Exact.ofFloat 1.0 = .ok 1 := by
  have double : Binary64.toRat? 1.0 = some 1 := by decide +kernel
  rw [ofFloat, double]

theorem Scalar.div_one_rat (x : Rat) :
    Arithmetic.div Outer.one (rat x) = (Exact.div 1 x >>= fun q => .ok (rat q)) := by
  show (Exact.ofFloat 1.0 >>= fun y => Exact.div y x >>= fun q => .ok (rat q)) = _
  rw [Exact.ofFloat_one]
  rfl

theorem Scalar.isExactDivision_rat : IsExactDivision Scalar.rat where
  toIsExactField := isExactField_rat
  reciprocal {x} hx := by
    rw [div_one_rat, Exact.div, if_neg hx, one_div]
    rfl

/-! ## The derivatives of an integer power -/

section Derivatives
variable {K : Type} [Field K]

/-- The derivatives of `x^n` up to an order, where `n` may be negative. -/
noncomputable def Outer.zpowDerivatives (n : Int) (x : K) (order : Nat) : List K :=
  (List.range (order + 1)).map fun k : Nat => x ^ (n - (k : Int)) * falling n k

theorem Outer.length_zpowDerivatives (n : Int) (x : K) (order : Nat) :
    (zpowDerivatives n x order).length = order + 1 := by
  rw [zpowDerivatives, List.length_map, List.length_range]

theorem Outer.getD_zpowDerivatives (n : Int) (x : K) {order k : Nat} (hk : k ≤ order) :
    (zpowDerivatives n x order).getD k 0 = x ^ (n - k) * falling n k := getD_map_range _ hk

/-- The derivatives of a natural power are the same. -/
theorem Outer.powerDerivatives_eq (x : K) (n order : Nat) :
    powerDerivatives n x order = zpowDerivatives n x order := by
  refine List.map_congr_left fun k _ => ?_
  rw [falling_natCast, Int.cast_natCast]
  rcases Nat.lt_or_ge n k with hk | hk
  · rw [Nat.descFactorial_of_lt hk, Nat.cast_zero, mul_zero, mul_zero]
  · rw [← Nat.cast_sub hk, zpow_natCast]

namespace IsExactDivision
variable {E : Type} [Arithmetic E] {lift : K → E} (exact : IsExactDivision lift)
include exact

/-- From a number on, each the last one times another one. -/
theorem powersUp (x y : K) (m : Nat) : Outer.powersUp (lift x) m (lift y) =
    .ok ((List.range (m + 1)).map fun k => lift (y * x ^ k)) := by
  induction m generalizing y with
  | zero =>
    rw [List.range_one, List.map_singleton, pow_zero, mul_one]
    rfl
  | succ m ih =>
    refine bind_eq_ok (exact.mul _ _) (bind_eq_ok (ih _) ?_)
    rw [List.range_succ_eq_map (n := m + 1), List.map_cons, List.map_map, pow_zero, mul_one]
    refine congrArg (fun vs => Except.ok (lift y :: vs)) (List.map_congr_left fun k _ => ?_)
    rw [Function.comp_apply, pow_succ', mul_assoc]

/-- **The powers below a negative power**, from those of the reciprocal. -/
theorem negativePowers {x : K} (hx : x ≠ 0) (n order : Nat) :
    Outer.negativePowers n (lift x) order =
      .ok ((List.range (order + 1)).map fun k : Nat => lift (x ^ (-(n : Int) - (k : Int)))) := by
  refine bind_eq_ok (exact.reciprocal hx) (bind_eq_ok (exact.pow_ofNat _ _)
    ((exact.powersUp _ _ _).trans ?_))
  refine congrArg Except.ok (List.map_congr_left fun k _ => ?_)
  rw [← pow_add, inv_pow, ← zpow_natCast, ← zpow_neg, Nat.cast_add, neg_add']

/-- **The recipe of an integer power** lists its derivatives. -/
theorem integerPower {n : Int} (hn : n ≠ 0) {x : K} (hx : x ≠ 0) (order : Nat) :
    Outer.integerPower n (lift x) order =
      .ok (.compose ((Outer.zpowDerivatives n x order).map lift)) := by
  rcases Int.lt_or_gt_of_ne hn with negative | positive
  · obtain ⟨m, rfl⟩ := Int.exists_eq_neg_ofNat negative.le
    have powers := exact.negativePowers hx m order
    have scaled := exact.toIsExactField.isFactor_ofInt.scalePowers (-m)
      (fun k : Nat => x ^ (-(m : Int) - (k : Int))) order
    rw [Outer.integerPower]
    simp only [if_neg hn, if_neg negative.not_gt, neg_neg, Int.toNat_natCast]
    refine bind_eq_ok (exact.zeroLike _) (bind_eq_ok powers (bind_eq_ok scaled ?_))
    rw [Outer.zpowDerivatives, List.map_map]
    rfl
  · obtain ⟨m, rfl⟩ := Int.eq_ofNat_of_zero_le positive.le
    rw [exact.toIsExactField.integerPower (by omega), Outer.powerDerivatives_eq]

end IsExactDivision

end Derivatives

/-- **Zero has no negative powers.** -/
theorem Outer.integerPower_rat_zero {n : Int} (hn : n < 0) (order : Nat) :
    Outer.integerPower n (Scalar.rat 0) order = .error .divisionByZero := by
  have zero : Arithmetic.zeroLike (Scalar.rat 0) = .ok (.rat 0) :=
    Scalar.isExactField_rat.zeroLike 0
  have reciprocal : Arithmetic.div one (Scalar.rat 0) = .error .divisionByZero := by
    rw [Scalar.div_one_rat, Exact.div, if_pos rfl]
    rfl
  simp only [Outer.integerPower, if_neg hn.ne, if_neg hn.not_gt, zero, negativePowers, reciprocal]
  rfl

/-! ## Pascal's rule -/

section Pascal
variable {K : Type} [Field K]

theorem Outer.falling_succ_left (n : Int) (k : Nat) :
    falling (n + 1) (k + 1) = (n + 1) * falling n k := by
  rw [falling, descPochhammer_succ_left, Polynomial.eval_mul, Polynomial.eval_X,
    Polynomial.eval_comp, Polynomial.eval_sub, Polynomial.eval_X, Polynomial.eval_one,
    add_sub_cancel_right, falling]

theorem Outer.falling_succ_succ (n : Int) (k : Nat) :
    falling (n + 1) (k + 1) = falling n (k + 1) + (k + 1) * falling n k := by
  rw [falling_succ_left, falling_succ]
  ring

/-- A coefficient of the Taylor sum of `x^n`. -/
noncomputable def Outer.binomial (n : Int) (x : K) (k : Nat) : K :=
  x ^ (n - k) * falling n k / k.factorial

theorem Outer.binomial_succ_zero {x : K} (hx : x ≠ 0) (n : Int) :
    binomial (n + 1) x 0 = binomial n x 0 * x := by
  rw [binomial, binomial, Nat.cast_zero, sub_zero, sub_zero, zpow_add_one₀ hx, falling_zero,
    falling_zero]
  ring

theorem Outer.binomial_succ_succ [CharZero K] {x : K} (hx : x ≠ 0) (n : Int) (k : Nat) :
    binomial (n + 1) x (k + 1) = binomial n x (k + 1) * x + binomial n x k := by
  have above : x ^ (n + 1 - (k + 1 : Nat)) = x ^ (n - k) := by
    congr 1
    push_cast
    ring
  have below : x ^ (n - (k + 1 : Nat)) * x = x ^ (n - k) := by
    rw [← zpow_add_one₀ hx]
    congr 1
    push_cast
    ring
  have h₁ : ((k : K) + 1) ≠ 0 := Nat.cast_add_one_ne_zero k
  have h₂ : (k.factorial : K) ≠ 0 := Nat.cast_ne_zero.mpr k.factorial_ne_zero
  rw [binomial, binomial, binomial, above, falling_succ_succ, Nat.factorial_succ,
    div_mul_eq_mul_div, mul_right_comm, below]
  push_cast
  field_simp

/-- The Taylor sum of `x^n`, for what is added to `x`. -/
noncomputable def binomialSum {R : Type} [CommRing R] [Algebra K R] (o : Nat) (n : Int) (x : K)
    (v : R) : R :=
  ∑ k ∈ Finset.range (o + 1), Outer.binomial n x k • v ^ k

section Sum
variable {R : Type} [CommRing R] [Algebra K R] {o : Nat} {x : K} {v : R}

theorem binomialSum_zero : binomialSum o 0 x v = 1 := by
  rw [binomialSum, Finset.sum_range_succ', Finset.sum_eq_zero]
  · rw [Outer.binomial, Outer.falling_zero, Nat.cast_zero, sub_zero, zpow_zero, Nat.factorial_zero,
      Int.cast_one, Nat.cast_one, one_mul, div_one, pow_zero, one_smul, zero_add]
  · intro k _
    have none : Outer.falling 0 (k + 1) = 0 :=
      descPochhammer_ne_zero_eval_zero ℤ (Nat.succ_ne_zero k)
    rw [Outer.binomial, none, Int.cast_zero, mul_zero, zero_div, zero_smul]

/-- **A sum of powers times its base and a number**, if there are no powers beyond the order. -/
theorem sum_smul_pow_mul (hv : v ^ (o + 1) = 0) {b c : Nat → K} (zero : b 0 = c 0 * x)
    (succ : ∀ k < o, b (k + 1) = c (k + 1) * x + c k) :
    (∑ k ∈ Finset.range (o + 1), c k • v ^ k) * (algebraMap K R x + v) =
      ∑ k ∈ Finset.range (o + 1), b k • v ^ k := by
  have term : ∀ k, c k • v ^ k * algebraMap K R x = (c k * x) • v ^ k := fun k => by
    rw [Algebra.smul_def, Algebra.smul_def, map_mul, mul_right_comm]
  have times_value : (∑ k ∈ Finset.range (o + 1), c k • v ^ k) * algebraMap K R x =
      ∑ k ∈ Finset.range o, (c (k + 1) * x) • v ^ (k + 1) + (c 0 * x) • v ^ 0 := by
    rw [Finset.sum_mul, Finset.sum_range_succ']
    simp only [term]
  have times_base : (∑ k ∈ Finset.range (o + 1), c k • v ^ k) * v =
      ∑ k ∈ Finset.range o, c k • v ^ (k + 1) := by
    rw [Finset.sum_mul, Finset.sum_range_succ, smul_mul_assoc, ← pow_succ, hv, smul_zero, add_zero]
    exact Finset.sum_congr rfl fun k _ => by rw [smul_mul_assoc, ← pow_succ]
  rw [mul_add, times_value, times_base, add_right_comm, ← Finset.sum_add_distrib,
    Finset.sum_range_succ' _ o, zero]
  refine congrArg (· + _) (Finset.sum_congr rfl fun k hk => ?_)
  rw [succ k (Finset.mem_range.mp hk), add_smul]

/-- **One power more is one factor more**, if there are no powers beyond the order. -/
theorem binomialSum_succ [CharZero K] (hx : x ≠ 0) (hv : v ^ (o + 1) = 0) (n : Int) :
    binomialSum o (n + 1) x v = binomialSum o n x v * (algebraMap K R x + v) :=
  (sum_smul_pow_mul hv (Outer.binomial_succ_zero hx n)
    fun k _ => Outer.binomial_succ_succ hx n k).symm

end Sum

end Pascal

/-! ## Powers of jets -/

section Jets
variable {K : Type} [Field K] [CharZero K] {p o : Nat}

/-- A composition with a function that is known by its derivatives is its Taylor sum. -/
theorem expansion_composeExact_map (f : Nat → K) (g : List K) :
    expansion p o ((complete p o).composeExact g ((List.range (o + 1)).map f)) =
      ∑ i ∈ Finset.range (o + 1), (f i / (i.factorial : K)) • expansion p o (g.set 0 0) ^ i := by
  rw [expansion_composeExact]
  refine Finset.sum_congr rfl fun i hi => ?_
  rw [getD_map_range f (Nat.lt_succ_iff.mp (Finset.mem_range.mp hi))]

/-- **A composition times its jet** is another composition, if that is so of the outer functions:
derivative `i` of `x * f` is `x * f i + i * f (i - 1)`. -/
theorem expansion_composeExact_mul {f h : Nat → K} {a : K} (g : List K)
    (step : ∀ i, g.getD 0 0 * f i + i * f (i - 1) = a * h i) :
    expansion p o ((complete p o).composeExact g ((List.range (o + 1)).map f)) * expansion p o g =
      a • expansion p o ((complete p o).composeExact g ((List.range (o + 1)).map h)) := by
  have split : expansion p o g =
      algebraMap K _ (g.getD 0 0) + expansion p o (g.set 0 0) := by
    rw [expansion_set_zero, add_sub_cancel]
  rw [expansion_composeExact_map, expansion_composeExact_map, Finset.smul_sum]
  simp only [smul_smul]
  rw [split]
  refine sum_smul_pow_mul (expansion_set_zero_pow g (Nat.lt_succ_self o)) ?_ fun k _ => ?_
  · rw [← mul_div_assoc, ← step 0, Nat.cast_zero, zero_mul, add_zero, mul_comm, div_mul_eq_mul_div]
  · have next : ((k : K) + 1) ≠ 0 := Nat.cast_add_one_ne_zero k
    have factorial : (k.factorial : K) ≠ 0 := Nat.cast_ne_zero.mpr k.factorial_ne_zero
    rw [← mul_div_assoc, ← step (k + 1), Nat.add_sub_cancel, Nat.factorial_succ]
    push_cast
    field_simp

theorem expansion_composeExact_zpowDerivatives (n : Int) (g : List K) :
    expansion p o ((complete p o).composeExact g (Outer.zpowDerivatives n (g.getD 0 0) o)) =
      binomialSum o n (g.getD 0 0) (expansion p o (g.set 0 0)) :=
  expansion_composeExact_map _ g

theorem binomialSum_expansion_succ {g : List K} (hg : g.getD 0 0 ≠ 0) (n : Int) :
    binomialSum o (n + 1) (g.getD 0 0) (expansion p o (g.set 0 0)) =
      binomialSum o n (g.getD 0 0) (expansion p o (g.set 0 0)) * expansion p o g := by
  rw [binomialSum_succ hg (expansion_set_zero_pow g (Nat.lt_succ_self o)), expansion_set_zero,
    add_sub_cancel]

/-- **A jet with a value other than zero is a unit.** -/
theorem isUnit_expansion {g : List K} (hg : g.getD 0 0 ≠ 0) : IsUnit (expansion p o g) := by
  have inverse := binomialSum_expansion_succ (p := p) (o := o) hg (-1)
  rw [neg_add_cancel, binomialSum_zero] at inverse
  exact IsUnit.of_mul_eq_one _ ((mul_comm _ _).trans inverse.symm)

/-- **Composing with an integer power gives the power** of the unit. -/
theorem expansion_composeExact_zpow {g : List K} (hg : g.getD 0 0 ≠ 0) {u : (Expansion p o K)ˣ}
    (hu : u = expansion p o g) (n : Int) :
    expansion p o ((complete p o).composeExact g (Outer.zpowDerivatives n (g.getD 0 0) o)) =
      (u ^ n : (Expansion p o K)ˣ) := by
  rw [expansion_composeExact_zpowDerivatives]
  -- From zero upwards and downwards: each step is one factor more.
  induction n with
  | zero => rw [binomialSum_zero, zpow_zero, Units.val_one]
  | succ n ih => rw [binomialSum_expansion_succ hg, ih, ← hu, zpow_add_one, Units.val_mul]
  | pred n ih =>
    have step := binomialSum_expansion_succ (p := p) (o := o) hg (-(n : Int) - 1)
    rw [sub_add_cancel, ih, ← hu, ← Units.mul_inv_eq_iff_eq_mul] at step
    rw [← step, zpow_sub_one, Units.val_mul]

/-- An integer power of a jet over a field. -/
noncomputable def Tables.zpowExact (t : Tables) (g : List K) (n : Int) : List K :=
  if 0 ≤ n then t.powerExact g n.toNat
  else t.composeExact g (Outer.zpowDerivatives n (g.getD 0 0) t.order)

omit [CharZero K] in
theorem zpowExact_natCast (t : Tables) (g : List K) (n : Nat) :
    t.zpowExact g n = t.powerExact g n := by
  rw [zpowExact, if_pos (Int.natCast_nonneg n), Int.toNat_natCast]

omit [CharZero K] in
theorem length_zpowExact (p o : Nat) (g : List K) (n : Int) :
    ((complete p o).zpowExact g n).length = (complete p o).size := by
  rw [zpowExact]
  split
  · exact length_powerExact p o g _
  · exact length_composeExact p o g _

theorem expansion_zpowExact_natCast (g : List K) (n : Nat) :
    expansion p o ((complete p o).zpowExact g n) = expansion p o g ^ n := by
  rw [zpowExact_natCast, expansion_powerExact]

theorem expansion_zpowExact {g : List K} (hg : g.getD 0 0 ≠ 0) {u : (Expansion p o K)ˣ}
    (hu : u = expansion p o g) (n : Int) :
    expansion p o ((complete p o).zpowExact g n) = (u ^ n : (Expansion p o K)ˣ) := by
  rcases lt_or_ge n 0 with negative | natural
  · rw [zpowExact, if_neg (Int.not_le.mpr negative), order_complete,
      expansion_composeExact_zpow hg hu]
  · obtain ⟨m, rfl⟩ := Int.eq_ofNat_of_zero_le natural
    rw [expansion_zpowExact_natCast, zpow_natCast, Units.val_pow_eq_pow_val, hu]

/-! ## The exponent laws -/

omit [CharZero K] in
theorem zpowExact_zero (t : Tables) (g : List K) : t.zpowExact g 0 = Jet.unit K t.size := rfl

theorem zpowExact_one {g : List K} (hg : g.length = (complete p o).size) :
    (complete p o).zpowExact g 1 = g := by
  refine eq_of_expansion_eq (length_zpowExact p o g 1) hg ?_
  rw [← Nat.cast_one, expansion_zpowExact_natCast, pow_one]

/-- **Exponents add up**: of natural powers, and of all powers where there are any. -/
theorem zpowExact_add {g : List K} {m n : Int} (h : (0 ≤ m ∧ 0 ≤ n) ∨ g.getD 0 0 ≠ 0) :
    (complete p o).zpowExact g (m + n) =
      (complete p o).mulExact ((complete p o).zpowExact g m) ((complete p o).zpowExact g n) := by
  refine eq_of_expansion_eq (length_zpowExact p o g _) (length_mulExact p o _ _) ?_
  rw [expansion_mulExact]
  rcases h with ⟨hm, hn⟩ | hg
  · obtain ⟨i, rfl⟩ := Int.eq_ofNat_of_zero_le hm
    obtain ⟨j, rfl⟩ := Int.eq_ofNat_of_zero_le hn
    rw [← Nat.cast_add, expansion_zpowExact_natCast, expansion_zpowExact_natCast,
      expansion_zpowExact_natCast, pow_add]
  · obtain ⟨u, hu⟩ := isUnit_expansion (p := p) (o := o) hg
    rw [expansion_zpowExact hg hu, expansion_zpowExact hg hu, expansion_zpowExact hg hu, zpow_add,
      Units.val_mul]

/-! ## What is computed -/

variable {E : Type} [Arithmetic E] {lift : K → E} (exact : IsExactDivision lift)
include exact

/-- **An integer power of a jet**, if it is natural or the value is not zero. -/
theorem IsExactDivision.powInt_complete {g : List K} (hg : g.length = (complete p o).size) {n : Int}
    (h : 0 ≤ n ∨ g.getD 0 0 ≠ 0) : Jet.powInt (complete p o).calculus .faithful (g.map lift) n =
      .ok (((complete p o).zpowExact g n).map lift) := by
  rcases lt_or_ge n 0 with negative | natural
  · have hx := h.resolve_left (Int.not_le.mpr negative)
    have order : (complete p o).calculus.order = o := order_complete p o
    have enough : o < (Outer.zpowDerivatives n (g.getD 0 0) o).length := by
      rw [Outer.length_zpowDerivatives]
      exact Nat.lt_succ_self o
    refine bind_eq_ok (Jet.value_map (hg ▸ size_pos p o))
      (bind_eq_ok (exact.integerPower negative.ne hx _) (bind_eq_ok (Storage.mapM_store _) ?_))
    rw [order, exact.compose_complete hg enough, zpowExact, if_neg (Int.not_le.mpr negative),
      order_complete]
  · obtain ⟨m, rfl⟩ := Int.eq_ofNat_of_zero_le natural
    rw [zpowExact_natCast]
    exact exact.toIsExactField.powInt_complete hg m

end Jets

/-- **A jet with the value zero has no negative powers.** -/
theorem powInt_of_value_zero {k : Calculus} {g : List Rat} (hg : 0 < g.length)
    (value : g.getD 0 0 = 0) {n : Int} (hn : n < 0) :
    Jet.powInt k .faithful (g.map Scalar.rat) n = .error .divisionByZero := by
  rw [Jet.powInt, Jet.value_map hg, value]
  show (Outer.integerPower n (Scalar.rat 0) k.order >>= _) = _
  rw [Outer.integerPower_rat_zero hn]
  rfl

end JetAlgebra
