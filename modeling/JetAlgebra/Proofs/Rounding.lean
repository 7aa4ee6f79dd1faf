import Mathlib
import JetAlgebra.Binary64.Exact

/-!
# Rounding to a double and zero

Recipes ask whether a number is zero by asking it of the nearest double.  A double is a zero only
if all its bits but the sign are (`ofSignedBits_beq_zero`), and rounding sets one of them for
every number that is not below one (`one_le_magnitudeBits`).  So of the integers only zero has a
double that is zero (`round_intCast_beq_zero`), while a number that is not an integer may be too
small for any other.
-/
namespace JetAlgebra.Binary64
open Float.Model

theorem toBitVec_ofBits (u : UInt64) : (Float.ofBits u).toBits.toBitVec =
    if @UnpackedFloat.isNaNBits .binary64 u.toBitVec then UnpackedFloat.packedNaN .binary64
    else u.toBitVec :=
  @UnpackedFloat.pack_unpack .binary64 u.toBitVec (by decide)

/-- **The bits of a double** are those it was made from, unless these say that it is no number. -/
theorem toBits_ofBits (u : UInt64) : (Float.ofBits u).toBits = u ∨ Float.ofBits u = Float.nan := by
  have packed := toBitVec_ofBits u
  split at packed
  · exact Or.inr (Float.toBits_inj.mp (UInt64.toBitVec_inj.mp packed))
  · exact Or.inl (UInt64.toBitVec_inj.mp packed)

/-- The bits of the two zeros. -/
theorem toBits_of_beq_zero {x : Float} (h : (x == 0.0) = true) :
    x.toBits.toNat % twoPower 63 = 0 := by
  obtain ⟨-, -, rfl | ⟨rfl, -⟩ | ⟨rfl, -⟩⟩ := Float.beq_iff_ne_nan_and_eq.mp h <;> decide +kernel

/-- **Only zero bits make a zero.** -/
theorem ofSignedBits_beq_zero {negative : Bool} {bits : Nat} (hb : bits < twoPower 63)
    (h : (ofSignedBits negative bits == 0.0) = true) : bits = 0 := by
  have zero := toBits_of_beq_zero h
  rw [ofSignedBits] at h zero
  rcases toBits_ofBits (UInt64.ofNat ((if negative then twoPower 63 else 0) + bits)) with
    same | undefined
  · rw [same, UInt64.toNat_ofNat'] at zero
    have power : twoPower 63 = 2 ^ 63 := rfl
    rw [power] at hb zero
    cases negative <;> simp only [if_true, if_false, Bool.false_eq_true] at zero <;> omega
  · rw [undefined] at h
    exact absurd h (by simp)

/-! ## The bits that rounding sets -/

theorem magnitudeBits_lt (n d : Nat) : magnitudeBits n d < twoPower 63 := by
  have top : 2047 * twoPower 52 < twoPower 63 := by decide +kernel
  simp only [magnitudeBits]
  split
  · exact lt_of_le_of_lt (Nat.zero_le _) top
  · exact lt_of_le_of_lt (Nat.min_le_right _ _) top

theorem one_le_nearestQuotient {n d : Nat} (hd : 0 < d) (h : d ≤ n) : 1 ≤ nearestQuotient n d := by
  have quotient : 1 ≤ n / d := (Nat.one_le_div_iff hd).mpr h
  simp only [nearestQuotient]
  split
  · exact quotient
  · split
    · omega
    · split <;> omega

theorem one_le_twoPower (n : Nat) : 1 ≤ twoPower n := Nat.one_le_two_pow

/-- **Rounding keeps a number that is not below one off zero.** -/
theorem one_le_magnitudeBits {n d : Nat} (hd : 0 < d) (h : d ≤ n) : 1 ≤ magnitudeBits n d := by
  have nonzero : (n == 0) = false := beq_false_of_ne (by omega)
  have places := one_le_twoPower 52
  have top : 1 ≤ 2047 * twoPower 52 := by omega
  simp only [magnitudeBits, nonzero, Bool.false_eq_true, if_false]
  refine Nat.le_min.mpr ⟨?_, top⟩
  by_cases large : 0 ≤ lastPlace n d
  · have exponent : 1 ≤ (lastPlace n d + 1074).toNat := by omega
    exact Nat.le_add_right_of_le (Nat.mul_le_mul exponent places)
  · have shifted := one_le_twoPower (-lastPlace n d).toNat
    rw [if_neg large]
    exact Nat.le_add_left_of_le
      (one_le_nearestQuotient hd (h.trans (Nat.le_mul_of_pos_right n shifted)))

theorem round_beq_zero {q : Rat} (h : (round q == 0.0) = true) : q.num.natAbs < q.den := by
  have none := ofSignedBits_beq_zero (magnitudeBits_lt _ _) h
  by_contra large
  have some := one_le_magnitudeBits q.den_pos (Nat.le_of_not_lt large)
  omega

/-- **Of the integers only zero rounds to zero.** -/
theorem round_intCast_beq_zero {n : Int} : (round n == 0.0) = true ↔ n = 0 := by
  constructor
  · intro h
    have small := round_beq_zero h
    rw [Rat.num_intCast, Rat.den_intCast] at small
    omega
  · rintro rfl
    decide +kernel

/-- A number is not zero if its double is not. -/
theorem ne_zero_of_round {q : Rat} (h : (round q == 0.0) = false) : q ≠ 0 := by
  rintro rfl
  have zero : (round 0 == 0.0) = true := by decide +kernel
  exact Bool.noConfusion (h.symm.trans zero)

end JetAlgebra.Binary64
