import JetAlgebra.Proofs.DoubleArithmetic
import JetAlgebra.Proofs.JetFormulas
import JetAlgebra.Proofs.WindowResults

/-!
# One quotient for all slots of a remainder

The value of a remainder is exact, and the integer quotient it belongs to is not kept: for the
other slots it is computed once more, from the doubles next to the values and to their remainder.
Whatever comes out is one integer for all these slots, if anything does (`remainder_cases`).

Five roundings are made on the way, so the result is an integer plus an error that grows with it
(`recomputed_near`).  As long as the quotient has at most 49 digits, and the values are doubles of
full precision, the error is less than a half and is rounded away (`quotient_eq`).  Then it is
the integer of the value, too (`Tables.FreezesQuotient`).  With 54 digits it need not be.
-/
namespace JetAlgebra

namespace Binary64

/-! ## The error of a recomputed quotient -/

/-- The error of one rounding, in units of a number that is not too small. -/
theorem IsNear.scaled {v q b : Rat} (h : IsNear v q) (hb : (2 : Rat) ^ (-1022 : Int) ≤ |b|) :
    |v / b - q / b| ≤ (|q / b| + 1) / 2 ^ 53 := by
  have positive : 0 < |b| := lt_of_lt_of_le (by positivity) hb
  have small : (2 : Rat) ^ (-1075 : Int) ≤ |b| / 2 ^ 53 := by
    calc (2 : Rat) ^ (-1075 : Int) = (2 : Rat) ^ (-1022 + -53 : Int) := rfl
      _ = (2 : Rat) ^ (-1022 : Int) / 2 ^ 53 := by
          rw [zpow_add₀ two_ne_zero, zpow_neg _ 53, ← div_eq_mul_inv]
          norm_cast
      _ ≤ |b| / 2 ^ 53 := div_le_div_of_nonneg_right hb (by positivity)
  have unit : (2 : Rat) ^ (-53 : Int) = 1 / 2 ^ 53 := by norm_num
  rw [← sub_div, abs_div, abs_div, div_le_iff₀ positive]
  calc |v - q| ≤ |q| * (1 / 2 ^ 53) + |b| / 2 ^ 53 := unit ▸ h.trans (by gcongr)
    _ = (|q| / |b| + 1) / 2 ^ 53 * |b| := by field_simp

section Recomputed
variable {k : Int} {f X F Y Z q W : Rat}

/-- The dividend less the remainder, both in units of the divisor, after two roundings. -/
theorem multiple_near (hf : |f| ≤ 1 / 2)
    (hX : |X - (k + f)| ≤ (|k + f| + 1) / 2 ^ 53) (hF : |F - f| ≤ (|f| + 1) / 2 ^ 53) :
    |X - F - k| ≤ (|(k : Rat)| + 3) / 2 ^ 53 := by
  have dividend := abs_add_le (k : Rat) f
  calc |X - F - k| = |(X - (k + f)) - (F - f)| := by ring_nf
    _ ≤ |X - (k + f)| + |F - f| := abs_sub _ _
    _ ≤ (|(k : Rat)| + 3) / 2 ^ 53 := by linarith

/-- **The error of a recomputed quotient**, after the difference and the divisor are rounded. -/
theorem recomputed_near (hk : |(k : Rat)| ≤ 2 ^ 49) (hX : |X - k| ≤ (|(k : Rat)| + 3) / 2 ^ 53)
    (hY : |Y - X| ≤ (|X| + 1) / 2 ^ 53) (hZ : |Z - 1| ≤ 2 / 2 ^ 53) (hq : q * Z = Y) :
    |q - k| ≤ (4 * |(k : Rat)| + 6) / 2 ^ 53 := by
  have size : |X| ≤ |(k : Rat)| + (|(k : Rat)| + 3) / 2 ^ 53 := by
    have := abs_add_le (k : Rat) (X - k)
    rw [add_sub_cancel] at this
    linarith
  have numerator : |Y - k| ≤ (2 * |(k : Rat)| + 5) / 2 ^ 53 := by
    have := abs_sub_le Y X k
    linarith
  have product : |k * (1 - Z)| ≤ 2 * |(k : Rat)| / 2 ^ 53 := by
    rw [abs_mul, abs_sub_comm]
    calc |(k : Rat)| * |Z - 1| ≤ |(k : Rat)| * (2 / 2 ^ 53) :=
          mul_le_mul_of_nonneg_left hZ (abs_nonneg _)
      _ = 2 * |(k : Rat)| / 2 ^ 53 := by ring
  have residue : |q - k| * |Z| ≤ (4 * |(k : Rat)| + 5) / 2 ^ 53 := by
    rw [← abs_mul, sub_mul, hq]
    calc |Y - k * Z| = |(Y - k) + k * (1 - Z)| := by ring_nf
      _ ≤ |Y - k| + |k * (1 - Z)| := abs_add_le _ _
      _ ≤ (4 * |(k : Rat)| + 5) / 2 ^ 53 := by linarith
  have divisor : 1 - 2 / 2 ^ 53 ≤ |Z| := by
    have := le_abs_self Z
    linarith [(abs_le.mp hZ).1]
  by_contra large
  have := mul_le_mul (not_le.mp large).le divisor (by norm_num) (abs_nonneg _)
  linarith

/-- **One more rounding** leaves the error below a half. -/
theorem rounded_near (hk : |(k : Rat)| ≤ 2 ^ 49) (hq : |q - k| ≤ (4 * |(k : Rat)| + 6) / 2 ^ 53)
    (hW : IsNear W q) : |W - k| < 1 / 2 := by
  have one : (2 : Rat) ^ (-1022 : Int) ≤ |1| := by
    rw [abs_one]
    exact zpow_le_one_of_nonpos₀ one_le_two (by decide)
  have last := hW.scaled one
  rw [div_one, div_one] at last
  have error := abs_sub_le W q k
  have magnitude := abs_add_le (q - k) k
  rw [sub_add_cancel] at magnitude
  linarith

end Recomputed

/-- **Values whose quotient survives rounding**: they are doubles of full precision but for their
last digits, and the quotient has at most 49 digits before the point. -/
structure QuotientRange (a b : Rat) : Prop where
  dividend : |a| ≤ (2 : Rat) ^ (1023 : Int)
  divisor : |b| ≤ (2 : Rat) ^ (1023 : Int)
  normal : (2 : Rat) ^ (-1022 : Int) ≤ |b|
  quotient : |a| ≤ 2 ^ 49 * |b|

namespace QuotientRange
variable {a b : Rat} (h : QuotientRange a b)
include h

theorem divisor_pos : 0 < |b| := lt_of_lt_of_le (by positivity) h.normal

theorem divisor_ne_zero : b ≠ 0 := abs_pos.mp h.divisor_pos

theorem dividend_le : |a| ≤ largest := le_largest_of_le h.dividend

theorem divisor_le : |b| ≤ largest := le_largest_of_le h.divisor

theorem abs_nearestInt_le : |(nearestInt (a / b) : Rat)| ≤ 2 ^ 49 := by
  have positive := h.divisor_pos
  have near := (isNearestInt_nearestInt (a / b)).near
  have bound : |a / b| ≤ 2 ^ 49 := by
    rw [abs_div]
    exact (div_le_iff₀ positive).mpr h.quotient
  have sum := abs_add_le (nearestInt (a / b) - a / b) (a / b)
  rw [sub_add_cancel] at sum
  have close : |(nearestInt (a / b) : Rat)| < 2 ^ 49 + 1 := by linarith
  have whole : |nearestInt (a / b)| < 2 ^ 49 + 1 := by exact_mod_cast close
  exact_mod_cast Int.lt_add_one_iff.mp whole

variable {k : Int} (hk : |(k : Rat)| ≤ 2 ^ 49) (near : |(a - k * b) / b| ≤ 1 / 2)
include near

theorem rest_le : |a - k * b| ≤ |b| / 2 := by
  have positive := h.divisor_pos
  rw [abs_div, div_le_iff₀ positive] at near
  linarith

include hk

/-- The dividend less the remainder is not too large, either, when both are rounded. -/
theorem difference_le {A R : Rat} (hX : |(A - R) / b - k| ≤ (|(k : Rat)| + 3) / 2 ^ 53) :
    |A - R| ≤ largest := by
  have positive := h.divisor_pos
  have divisor := h.divisor
  have product : |k * b| ≤ |a| + |b| / 2 := by
    have := abs_sub a (a - k * b)
    rw [sub_sub_cancel] at this
    linarith [h.rest_le near]
  have error : |A - R - k * b| ≤ (2 ^ 49 + 3) / 2 ^ 53 * |b| := by
    calc |A - R - k * b| = |(A - R) / b - k| * |b| := by
          rw [← abs_mul, sub_mul, div_mul_cancel₀ _ h.divisor_ne_zero]
      _ ≤ (2 ^ 49 + 3) / 2 ^ 53 * |b| := by
          refine mul_le_mul_of_nonneg_right (hX.trans ?_) positive.le
          linarith
  have sum := abs_add_le (k * b) (A - R - k * b)
  rw [add_sub_cancel] at sum
  refine le_largest (?_ : _ ≤ 7 / 4 * (2 : Rat) ^ (1023 : Int)) le_rfl
  have dividend := h.dividend
  have power : (0 : Rat) < (2 : Rat) ^ (1023 : Int) := by positivity
  generalize (2 : Rat) ^ (1023 : Int) = top at *
  linarith

end QuotientRange

end Binary64

open Binary64 Scalar

theorem Exact.toFloat_eq {q : Rat} (bound : |q| ≤ largest) :
    Exact.toFloat q = .ok (Binary64.round q) := by
  obtain ⟨v, value, -⟩ := round_approximates bound
  simp only [Exact.toFloat, isInf_of_toRat? value, Bool.false_eq_true, if_false]

namespace Jet
variable {a b : Rat} (h : QuotientRange a b)
include h

/-- **The quotient is found again** from the doubles next to the values and their remainder. -/
theorem quotient_eq : ∃ n,
    Jet.quotient (rat a) (rat b) (rat (a - nearestInt (a / b) * b)) = .ok n ∧
      Exact.ofFloat n = .ok (nearestInt (a / b) : Rat) := by
  have digits := h.abs_nearestInt_le
  have nearest := isNearestInt_nearestInt (a / b)
  generalize nearestInt (a / b) = k at digits nearest ⊢
  have nonzero := h.divisor_ne_zero
  -- The values and the remainder as doubles.
  have split : a / b = k + (a - k * b) / b := by
    rw [sub_div, mul_div_cancel_right₀ _ nonzero, add_sub_cancel]
  have rest : |(a - k * b) / b| ≤ 1 / 2 := by
    rw [sub_div, mul_div_cancel_right₀ _ nonzero, abs_sub_comm]
    exact nearest.near
  have rest_le : |a - k * b| ≤ largest := by
    linarith [h.rest_le rest, h.divisor_le, h.divisor_pos]
  obtain ⟨A, toA, nearA⟩ := round_approximates h.dividend_le
  obtain ⟨R, toR, nearR⟩ := round_approximates rest_le
  obtain ⟨B, toB, nearB⟩ := round_approximates h.divisor_le
  have divisor := nearB.scaled h.normal
  rw [div_self nonzero, abs_one, one_add_one_eq_two] at divisor
  have multiple := multiple_near rest (split ▸ nearA.scaled h.normal) (nearR.scaled h.normal)
  rw [← sub_div] at multiple
  -- Their difference, and its quotient by the divisor.
  obtain ⟨D, toD, nearD⟩ := sub_approximates toA toR (h.difference_le digits rest multiple)
  have B_ne_zero : B ≠ 0 := by
    rintro rfl
    rw [zero_div, zero_sub, abs_neg, abs_one] at divisor
    norm_num at divisor
  have near := recomputed_near digits multiple (nearD.scaled h.normal) divisor
    (div_mul_div_cancel₀ B_ne_zero)
  have quotient_le : |D / B| ≤ largest := by
    have magnitude := abs_add_le (D / B - k) k
    rw [sub_add_cancel] at magnitude
    refine le_largest (?_ : _ ≤ 7 / 4 * (2 : Rat) ^ (50 : Int)) (by norm_num)
    norm_num
    linarith
  obtain ⟨W, toW, nearW⟩ := div_approximates toD toB B_ne_zero quotient_le
  have found := (isNearestInt_nearestInt W).eq_of_lt (rounded_near digits near nearW)
  have small : (nearestInt W).natAbs < 2 ^ 53 := by
    have whole : |k| ≤ 2 ^ 49 := by exact_mod_cast digits
    obtain ⟨lower, upper⟩ := abs_le.mp whole
    rw [found]
    omega
  refine ⟨_, bind_eq_ok (Exact.toFloat_eq h.dividend_le) (bind_eq_ok (Exact.toFloat_eq rest_le)
    (bind_eq_ok (Exact.toFloat_eq h.divisor_le) rfl)), ?_⟩
  rw [Exact.ofFloat, toRat?_roundToIntegral toW small, found]

end Jet

/-- The exact remainder by a number that is not zero. -/
theorem remainder_value (x : Rat) {y : Rat} (nonzero : y ≠ 0) :
    Arithmetic.remainder (rat x) (rat y) = .ok (rat (x - nearestInt (x / y) * y)) :=
  bind_eq_ok (bind_eq_ok (if_neg nonzero) rfl) rfl

/-- A quotient that is a number is an integer. -/
theorem Jet.exists_int_of_quotient {x y r : Scalar} {n : Float} {q : Rat}
    (hn : Jet.quotient x y r = .ok n) (hq : Exact.ofFloat n = .ok q) : ∃ k : Int, q = k := by
  obtain ⟨X, -, hn⟩ := bind_eq_ok_iff.mp hn
  obtain ⟨R, -, hn⟩ := bind_eq_ok_iff.mp hn
  obtain ⟨Y, -, hn⟩ := bind_eq_ok_iff.mp hn
  obtain rfl := Except.ok.inj hn
  rw [Exact.ofFloat] at hq
  split at hq
  · next double =>
    obtain rfl := Except.ok.inj hq
    exact exists_int_of_roundToIntegral double
  · cases hq

/-! ## What callers may rely on -/

/-- An operation leaves one jet in a window. -/
theorem Operation.Leaves.eq {k : Calculus} {m : Memory} {op : Operation} {w : Window}
    {c d : List Rat} (hc : op.Leaves k m w c) (hd : op.Leaves k m w d) : c = d := by
  obtain ⟨after, run, holds⟩ := hc
  obtain ⟨after', run', holds'⟩ := hd
  obtain rfl : after = after' := congrArg Prod.snd (run.symm.trans run')
  have same := Except.ok.inj ((holds.read "").symm.trans (holds'.read ""))
  exact List.map_injective_iff.mpr (fun _ _ => Scalar.rat.inj) same

namespace Tables

/-- The remainder of two jets: the value belongs to the nearest integer, and the derivatives to
`q`. -/
def remainderExact (a b : List Rat) (q : Rat) : List Rat :=
  (a.getD 0 0 - nearestInt (a.getD 0 0 / b.getD 0 0) * b.getD 0 0) ::
    List.zipWith (· - ·) a.tail (b.tail.map (· * q))

section Remainder
variable {p o : Nat} {a b : List Rat} (ha : a.length = (complete p o).size)
  (hb : b.length = (complete p o).size) (nonzero : b.getD 0 0 ≠ 0)
include ha hb nonzero

/-- **The remainder of two jets**, from the quotient that is used for the derivatives. -/
theorem combines_remainder {n : Float} {q : Rat}
    (hn : Jet.quotient (rat (a.getD 0 0)) (rat (b.getD 0 0))
      (rat (a.getD 0 0 - nearestInt (a.getD 0 0 / b.getD 0 0) * b.getD 0 0)) = .ok n)
    (hq : Exact.ofFloat n = .ok q ∨ (complete p o).size = 1) :
    (complete p o).Combines (.binary .remainder) a b (remainderExact a b q) := by
  refine combines_slotwise ?_ (fun _ _ _ => rfl)
    (JetOperation.remainder_rat ha hb (remainder_value _ nonzero) hn hq)
  rw [remainderExact, List.length_cons, List.length_zipWith, List.length_map, List.length_tail,
    List.length_tail, ha, hb, Nat.min_self, Nat.sub_add_cancel (size_pos p o)]

/-- **One integer for all derivatives**, or the operation is refused, for one reason wherever the
operands are. -/
theorem remainder_cases :
    (∃ n : Int, (complete p o).Combines (.binary .remainder) a b (remainderExact a b n)) ∨
    ∃ fault, ∀ (m : Memory) (x y r : Window), m.Holds (complete p o).calculus x a →
      m.Holds (complete p o).calculus y b → m.Accepts (complete p o).calculus r →
        (Operation.binary .remainder x y r).Refuses (complete p o).calculus m fault := by
  cases computed : JetOperation.jet (complete p o).calculus (Jet.ofRat a) (Jet.ofRat b)
      .remainder with
  | error fault =>
    refine .inr ⟨fault, fun m x y r hx hy hr => ?_⟩
    refine refuses_of_error
      (f := (Operation.slotwise (complete p o).calculus · Jet.remainder x y r)) rfl ?_
    exact (slotwise_of_read (hx.read _) (hy.read _) hr.check _).trans computed
  | ok values =>
    obtain ⟨F, formula⟩ := JetOperation.exists_hasFormula ha hb computed
    cases formula with
    | @remainder r q n hr hn hq =>
      obtain rfl := Scalar.rat.inj (Except.ok.inj (hr.symm.trans (remainder_value _ nonzero)))
      rcases hq with double | alone
      · obtain ⟨k, rfl⟩ := Jet.exists_int_of_quotient hn double
        exact .inl ⟨k, combines_remainder ha hb nonzero hn (.inl double)⟩
      · exact .inl ⟨0, combines_remainder ha hb nonzero hn (.inr alone)⟩

end Remainder

/-- **One integer for all slots**: the remainder of two jets is computed with the integer nearest
to the quotient of their values in every slot, and leaves at most half of the divisor. -/
def FreezesQuotient (t : Tables) (a b : List Rat) : Prop :=
  ∃ k : Int, IsNearestInt k (a.getD 0 0 / b.getD 0 0) ∧
    |a.getD 0 0 - k * b.getD 0 0| ≤ |b.getD 0 0| / 2 ∧
    t.Combines (.binary .remainder) a b (List.zipWith (fun x y => x - k * y) a b)

/-- **What a remainder is**, for the tables `t`, and at the jets `a` and `b`. -/
structure RemainderLaws (t : Tables) (a b : List Rat) : Prop where
  /-- The value belongs to the nearest integer, and all derivatives to one integer; or the
  operation is refused, and no buffer changes. -/
  uniform : (∃ n : Int, t.Combines (.binary .remainder) a b (remainderExact a b n)) ∨
    ∃ fault, ∀ (m : Memory) (x y r : Window), m.Holds t.calculus x a → m.Holds t.calculus y b →
      m.Accepts t.calculus r → (Operation.binary .remainder x y r).Refuses t.calculus m fault
  /-- The integers are the same if the quotient survives rounding. -/
  frozen : QuotientRange (a.getD 0 0) (b.getD 0 0) → t.FreezesQuotient a b

/-- **Remainders by jets whose value is not zero** for every signature. -/
theorem remainderLaws_of_built {p o : Nat} {t : Tables} (h : Built p o t) {a b : List Rat}
    (ha : a.length = t.size) (hb : b.length = t.size) (nonzero : b.getD 0 0 ≠ 0) :
    t.RemainderLaws a b := by
  obtain rfl := h.eq_complete
  refine ⟨remainder_cases ha hb nonzero, fun range => ?_⟩
  obtain ⟨n, quotient, double⟩ := Jet.quotient_eq range
  have combines := combines_remainder ha hb nonzero quotient (.inl double)
  have nearest := isNearestInt_nearestInt (a.getD 0 0 / b.getD 0 0)
  refine ⟨_, nearest, range.rest_le ?_, ?_⟩
  · rw [sub_div, mul_div_cancel_right₀ _ nonzero, abs_sub_comm]
    exact nearest.near
  · obtain ⟨x, as, rfl⟩ := List.exists_cons_of_length_pos (ha ▸ size_pos p o)
    obtain ⟨y, bs, rfl⟩ := List.exists_cons_of_length_pos (hb ▸ size_pos p o)
    simpa [remainderExact, List.zipWith_map_right, mul_comm] using combines

/-- A quotient halfway between two integers. -/
theorem remainderLaws_one_one : Built 1 1 (complete 1 1) ∧
    (∃ m x y r, Memory.Holds m (complete 1 1).calculus x [7 / 2, 0] ∧
      m.Holds (complete 1 1).calculus y [1, 1] ∧ m.Accepts (complete 1 1).calculus r) ∧
    QuotientRange ([7 / 2, 0].getD 0 0) ([1, 1].getD 0 0) ∧
    (complete 1 1).RemainderLaws [7 / 2, 0] [1, 1] := by
  have range : QuotientRange ([7 / 2, 0].getD 0 0) ([1, 1].getD 0 0) := by
    have large : (2 : Rat) ^ (2 : Int) ≤ (2 : Rat) ^ (1023 : Int) :=
      zpow_le_zpow_right₀ one_le_two (by decide)
    have small : (2 : Rat) ^ (-1022 : Int) ≤ 1 := zpow_le_one_of_nonpos₀ one_le_two (by decide)
    refine ⟨le_trans ?_ large, le_trans ?_ large, small.trans ?_, ?_⟩ <;> norm_num
  exact ⟨built_complete 1 1, Memory.exists_holds (by decide) (by decide), range,
    remainderLaws_of_built (built_complete 1 1) (by decide) (by decide) one_ne_zero⟩

/-- A quotient of 54 digits is not found again, and no integer fits both slots. -/
theorem not_freezesQuotient_one_one : Built 1 1 (complete 1 1) ∧
    (complete 1 1).Combines (.binary .remainder) [2 ^ 53 + 1, 0] [1, 1] [0, -2 ^ 53] ∧
    ¬ (complete 1 1).FreezesQuotient [2 ^ 53 + 1, 0] [1, 1] := by
  have combines :
      (complete 1 1).Combines (.binary .remainder) [2 ^ 53 + 1, 0] [1, 1] [0, -2 ^ 53] := by
    have rest : (2 ^ 53 + 1 : Rat) - nearestInt (2 ^ 53 + 1) = 0 := by decide +kernel
    have toFloat : ∀ q : Rat, |q| ≤ 2 ^ 53 + 1 → Exact.toFloat q = .ok (Binary64.round q) := by
      intro q bound
      refine Exact.toFloat_eq (le_largest (n := 54) (bound.trans ?_) (by decide))
      norm_num
    have quotient : Jet.quotient (rat (2 ^ 53 + 1)) (rat 1) (rat 0) = .ok (roundToIntegral
        ((Binary64.round (2 ^ 53 + 1) - Binary64.round 0) / Binary64.round 1)) :=
      bind_eq_ok (toFloat _ (by norm_num)) (bind_eq_ok (toFloat 0 (by norm_num))
        (bind_eq_ok (toFloat 1 (by norm_num)) rfl))
    have double : toRat? (roundToIntegral
        ((Binary64.round (2 ^ 53 + 1) - Binary64.round 0) / Binary64.round 1)) =
          some (2 ^ 53) := by
      decide +kernel
    have found : Exact.ofFloat (roundToIntegral
        ((Binary64.round (2 ^ 53 + 1) - Binary64.round 0) / Binary64.round 1)) =
          .ok (2 ^ 53) := by
      rw [Exact.ofFloat, double]
    have combines := @combines_remainder 1 1 [2 ^ 53 + 1, 0] [1, 1] (by decide) (by decide)
      one_ne_zero _ _ (by simpa [rest] using quotient) (.inl found)
    simpa [remainderExact, rest] using combines
  refine ⟨built_complete 1 1, combines, ?_⟩
  rintro ⟨k, -, -, frozen⟩
  obtain ⟨m, x, y, r, hx, hy, hr⟩ := @Memory.exists_holds (complete 1 1).calculus
    [2 ^ 53 + 1, 0] [1, 1] (by decide) (by decide)
  have slots := Operation.Leaves.eq (combines m x y r hx hy hr) (frozen m x y r hx hy hr)
  simp only [List.zipWith_cons_cons, List.zipWith_nil_left, List.cons.injEq] at slots
  linarith [slots.1, slots.2.1]

end Tables

end JetAlgebra
