import JetAlgebra.Proofs.Rounding

/-!
# The number in the fields of a double

A double has a sign, an exponent and a fraction (`HasFields`).  The exact value of a double is
read off these, and so is what arithmetic unpacks (`HasFields.toRat?_eq`, `HasFields.unpack_eq`).
So both speak of the same number: a significand and an exponent in the range of doubles (`Fits`)
are packed into a double with that value (`Fits.toRat?_pack`), and what is unpacked from a finite
double is such a pair, or a zero (`unpack_of_toRat?`).
-/
namespace JetAlgebra.Binary64
open Float.Model UnpackedFloat

theorem scaled_eq (m q : Int) : scaled m q = (m : Rat) * (2 : Rat) ^ q := by
  rw [scaled]
  by_cases hq : 0 ≤ q
  · obtain ⟨n, rfl⟩ := Int.eq_ofNat_of_zero_le hq
    simp [twoPower]
  · obtain ⟨n, hn⟩ := Int.eq_ofNat_of_zero_le (show 0 ≤ -q by omega)
    obtain rfl : q = -(n : Int) := by omega
    rw [if_neg hq, neg_neg, Int.toNat_natCast, Rat.mkRat_eq_div, zpow_neg, div_eq_mul_inv, twoPower]
    norm_num

theorem signed_eq (s : Sign) (n : Int) : (s.apply n : Rat) = s.apply 1 * n := by
  cases s <;> simp [Sign.apply]

theorem abs_signed_one (s : Sign) : |(s.apply 1 : Rat)| = 1 := by
  cases s <;> simp [Sign.apply]

/-- **The fields of a double**: its sign, its exponent as it is stored, and its fraction. -/
structure HasFields (x : Float) (s : Sign) (biased fraction : Nat) : Prop where
  biased_lt : biased < 2 ^ 11
  fraction_lt : fraction < 2 ^ 52
  bits : x.toBits.toNat = s.toBitVec.toNat * 2 ^ 63 + biased * 2 ^ 52 + fraction

theorem exists_fields (x : Float) : ∃ s biased fraction, HasFields x s biased fraction := by
  have h := x.toBits.toNat_lt
  refine ⟨if x.toBits.toNat / 2 ^ 63 = 0 then .positive else .negative,
    x.toBits.toNat / 2 ^ 52 % 2 ^ 11, x.toBits.toNat % 2 ^ 52, by omega, by omega, ?_⟩
  split
  · show _ = 0 * 2 ^ 63 + _ + _
    omega
  · show _ = 1 * 2 ^ 63 + _ + _
    omega

/-! ## Reading the fields -/

namespace HasFields
variable {x : Float} {s : Sign} {biased fraction : Nat} (h : HasFields x s biased fraction)
include h

theorem sign_eq : x.toBits.toNat / 2 ^ 63 = s.toBitVec.toNat := by
  obtain ⟨hb, hf, bits⟩ := h
  omega

theorem biased_eq : x.toBits.toNat / 2 ^ 52 % 2 ^ 11 = biased := by
  obtain ⟨hb, hf, bits⟩ := h
  omega

theorem fraction_eq : x.toBits.toNat % 2 ^ 52 = fraction := by
  obtain ⟨hb, hf, bits⟩ := h
  omega

theorem signBit_eq : signBit x = (s == .negative) := by
  have sign : (s.toBitVec.toNat == 1) = (s == .negative) := by cases s <;> rfl
  rw [← sign, ← h.sign_eq]
  rfl

theorem view_eq : view x =
    if biased = 2047 then if fraction = 0 then .infinite (s == .negative) else .nan
    else if biased = 0 then .finite (s == .negative) fraction (-1074)
    else .finite (s == .negative) (2 ^ 52 + fraction) (biased - 1075) := by
  rw [← h.signBit_eq, ← h.biased_eq, ← h.fraction_eq]
  simp only [view, beq_iff_eq]
  rfl

theorem toRat?_eq (finite : biased ≠ 2047) : toRat? x =
    if biased = 0 then some (s.apply fraction * (2 : Rat) ^ (-1074 : Int))
    else some (s.apply (2 ^ 52 + fraction) * (2 : Rat) ^ (biased - 1075 : Int)) := by
  have sign : ∀ m : Nat, (if s == .negative then -(m : Int) else m) = s.apply m := by
    intro m
    cases s <;> rfl
  rw [toRat?, h.view_eq, if_neg finite]
  by_cases subnormal : biased = 0
  · rw [if_pos subnormal, if_pos subnormal]
    dsimp only
    rw [sign, scaled_eq]
  · rw [if_neg subnormal, if_neg subnormal]
    dsimp only
    rw [sign, scaled_eq]
    rfl

theorem finite_of_toRat? {v : Rat} (value : toRat? x = some v) : biased ≠ 2047 := by
  rintro rfl
  rw [toRat?, h.view_eq, if_pos rfl] at value
  by_cases zero : fraction = 0
  · rw [if_pos zero] at value
    cases value
  · rw [if_neg zero] at value
    cases value

theorem unpackMantissa_eq :
    @unpackMantissa .binary64 x.toBits.toBitVec = BitVec.ofNat 52 fraction := by
  apply BitVec.eq_of_toNat_eq
  rw [unpackMantissa_def, BitVec.extractLsb'_toNat, BitVec.toNat_ofNat, ← h.fraction_eq,
    Nat.mod_mod]
  rfl

theorem unpackExponent_eq :
    @unpackExponent .binary64 x.toBits.toBitVec = BitVec.ofNat 11 biased := by
  apply BitVec.eq_of_toNat_eq
  rw [unpackExponent_def, BitVec.extractLsb'_toNat, Nat.shiftRight_eq_div_pow, BitVec.toNat_ofNat,
    ← h.biased_eq, Nat.mod_mod]
  rfl

theorem unpackSign_eq : @unpackSign .binary64 x.toBits.toBitVec = s.toBitVec := by
  apply BitVec.eq_of_toNat_eq
  rw [unpackSign_def, BitVec.extractLsb'_toNat, Nat.shiftRight_eq_div_pow, ← h.sign_eq]
  exact Nat.mod_eq_of_lt (Nat.div_lt_of_lt_mul x.toBits.toNat_lt)

theorem unpack_eq : x.toModel.unpack =
    if biased = 2047 then if fraction = 0 then .infinity s else .notANumber
    else if biased = 0 then
      if hm : fraction = 0 then .zero s
      else .finite s fraction (-1074) (Nat.pos_of_ne_zero hm)
    else .finite s (2 ^ 52 + fraction) (biased - 1075) (by omega) := by
  have hb := h.biased_lt
  have hf := h.fraction_lt
  have infinite : BitVec.ofNat 11 biased = -1#11 ↔ biased = 2047 := by
    rw [← BitVec.toNat_inj, BitVec.toNat_ofNat, Nat.mod_eq_of_lt hb]
    rfl
  have least : BitVec.ofNat 11 biased = 0#11 ↔ biased = 0 := by
    rw [← BitVec.toNat_inj, BitVec.toNat_ofNat, Nat.mod_eq_of_lt hb]
    rfl
  have zero : BitVec.ofNat 52 fraction = 0#52 ↔ fraction = 0 := by
    rw [← BitVec.toNat_inj, BitVec.toNat_ofNat, Nat.mod_eq_of_lt hf]
    rfl
  have normal : (1#1 ++ BitVec.ofNat 52 fraction).toNat = 2 ^ 52 + fraction := by
    rw [BitVec.toNat_append, ← Nat.shiftLeft_add_eq_or_of_lt (BitVec.isLt _),
      BitVec.toNat_ofNat fraction, Nat.mod_eq_of_lt hf]
    rfl
  show UnpackedFloat.unpack .binary64 x.toBits.toBitVec = _
  unfold UnpackedFloat.unpack
  simp only [h.unpackMantissa_eq, h.unpackExponent_eq, h.unpackSign_eq, Sign.ofBitVec_toBitVec,
    infinite, least, zero, normal, BitVec.toNat_ofNat, Nat.mod_eq_of_lt hb, Nat.mod_eq_of_lt hf]
  split_ifs with h₁ h₂ h₃ h₄
  · rfl
  · rfl
  · rfl
  · subst h₃
    rfl
  · rfl

end HasFields

/-! ## Significands and exponents -/

/-- **A significand and an exponent of a finite double.** -/
structure Fits (m : Nat) (e : Int) : Prop where
  significand : m < 2 ^ 53
  least : -1074 ≤ e
  greatest : e ≤ 971
  normal : e = -1074 ∨ 2 ^ 52 ≤ m

theorem Fits.toRat?_eq {m : Nat} {e : Int} (hf : Fits m e) {x : Float} {s : Sign}
    (bits : x.toBits.toNat = s.toBitVec.toNat * 2 ^ 63 + (e + 1074).toNat * 2 ^ 52 + m) :
    toRat? x = some (s.apply m * (2 : Rat) ^ e) := by
  obtain ⟨hm, least, greatest, normal⟩ := hf
  obtain ⟨E, rfl⟩ : ∃ E : Nat, e = E - 1074 := ⟨(e + 1074).toNat, by omega⟩
  have stored : ((E : Int) - 1074 + 1074).toNat = E := by omega
  rw [stored] at bits
  by_cases subnormal : m < 2 ^ 52
  · obtain rfl : E = 0 := by omega
    have fields : HasFields x s 0 m := ⟨by omega, subnormal, by omega⟩
    rw [fields.toRat?_eq (by omega), if_pos rfl]
    rfl
  · have fields : HasFields x s (E + 1) (m - 2 ^ 52) := by
      have hidden : 2 ^ 52 + (m - 2 ^ 52) = m := by omega
      refine ⟨by omega, by omega, ?_⟩
      rw [bits, Nat.succ_mul, Nat.add_assoc, Nat.add_assoc, Nat.add_assoc, hidden]
    have significand : ((2 ^ 52 : Int) + (m - 2 ^ 52 : Nat)) = m := by omega
    have exponent : ((E + 1 : Nat) : Int) - 1075 = E - 1074 := by omega
    rw [fields.toRat?_eq (by omega), if_neg (by omega), significand, exponent]

/-- **A finite double** is a zero, or it has a significand and an exponent. -/
theorem unpack_of_toRat? {x : Float} {v : Rat} (h : toRat? x = some v) :
    (∃ s, x.toModel.unpack = .zero s ∧ v = 0) ∨
      ∃ s m e hm, x.toModel.unpack = .finite s m e hm ∧ Fits m e ∧
        v = s.apply m * (2 : Rat) ^ e := by
  obtain ⟨s, biased, fraction, fields⟩ := exists_fields x
  have hb := fields.biased_lt
  have hf := fields.fraction_lt
  have finite := fields.finite_of_toRat? h
  rw [fields.toRat?_eq finite] at h
  rw [fields.unpack_eq, if_neg finite]
  by_cases subnormal : biased = 0
  · rw [if_pos subnormal] at h ⊢
    obtain rfl := Option.some.inj h
    by_cases zero : fraction = 0
    · rw [dif_pos zero, zero]
      exact .inl ⟨s, rfl, by cases s <;> simp [Sign.apply]⟩
    · rw [dif_neg zero]
      exact .inr ⟨s, _, _, _, rfl, ⟨by omega, by omega, by omega, .inl rfl⟩, rfl⟩
  · rw [if_neg subnormal] at h ⊢
    cases h
    exact .inr ⟨s, _, _, _, rfl, ⟨by omega, by omega, by omega, by omega⟩, rfl⟩

theorem isInf_of_toRat? {x : Float} {v : Rat} (h : toRat? x = some v) : x.isInf = false := by
  show x.toModel.unpack.isInf = false
  rcases unpack_of_toRat? h with ⟨s, unpacked, -⟩ | ⟨s, m, e, hm, unpacked, -⟩
  · rw [unpacked]
    rfl
  · rw [unpacked]
    rfl

/-! ## Packing -/

theorem toNat_packComponents (s : Sign) (biased : BitVec 11) (fraction : BitVec 52) :
    (packComponents .binary64 s biased fraction).toNat =
      s.toBitVec.toNat * 2 ^ 63 + biased.toNat * 2 ^ 52 + fraction.toNat := by
  show (s.toBitVec ++ biased ++ fraction).toNat = _
  rw [BitVec.toNat_append, ← Nat.shiftLeft_add_eq_or_of_lt fraction.isLt, BitVec.toNat_append,
    ← Nat.shiftLeft_add_eq_or_of_lt biased.isLt, Nat.shiftLeft_eq, Nat.shiftLeft_eq]
  omega

theorem pack_finite (s : Sign) (m : Nat) (e : Int) (hm : 0 < m) :
    UnpackedFloat.pack .binary64 (.finite s m e hm) =
      if 2 ^ 11 ≤ (e + 1075).toNat + 1 then packedInfinity .binary64 s
      else if m.log2 + 1 = 53 then
        packComponents .binary64 s (BitVec.ofNat 11 (e + 1075).toNat) (BitVec.ofNat 52 m)
      else packComponents .binary64 s 0#11 (BitVec.ofNat 52 m) := by
  have bias : e + 1075 = e + (Format.binary64.exponentBias : Nat) + (52 : Nat) := by
    show e + 1075 = e + (1023 : Nat) + (52 : Nat)
    omega
  rw [bias]
  rfl

/-- **A significand and an exponent are packed** into a double with their value. -/
theorem Fits.toRat?_pack {m : Nat} {e : Int} (hf : Fits m e) (s : Sign) (hm : 0 < m) :
    toRat? (.ofModel (.pack (.finite s m e hm))) = some (s.apply m * (2 : Rat) ^ e) := by
  refine hf.toRat?_eq ?_
  obtain ⟨small, least, greatest, normal⟩ := hf
  obtain ⟨E, rfl⟩ : ∃ E : Nat, e = E - 1074 := ⟨(e + 1074).toNat, by omega⟩
  have biased : ((E : Int) - 1074 + 1075).toNat = E + 1 := by omega
  have stored : ((E : Int) - 1074 + 1074).toNat = E := by omega
  show (UnpackedFloat.pack .binary64 (.finite s m _ hm)).toNat = _
  rw [pack_finite, biased, stored, if_neg (by omega)]
  by_cases h : 2 ^ 52 ≤ m
  · have log : m.log2 + 1 = 53 := congrArg (· + 1) ((Nat.log2_eq_iff hm.ne').mpr ⟨h, small⟩)
    have exponent : (E + 1) % 2 ^ 11 = E + 1 := Nat.mod_eq_of_lt (by omega)
    have hidden : 2 ^ 52 + m % 2 ^ 52 = m := by omega
    rw [if_pos log, toNat_packComponents, BitVec.toNat_ofNat, BitVec.toNat_ofNat, exponent,
      Nat.succ_mul, Nat.add_assoc, Nat.add_assoc, hidden, Nat.add_assoc]
  · have log : ¬ m.log2 + 1 = 53 := fun h' =>
      h ((Nat.log2_eq_iff hm.ne').mp (Nat.succ.inj h')).1
    obtain rfl : E = 0 := by omega
    rw [if_neg log, toNat_packComponents, BitVec.toNat_ofNat, BitVec.toNat_ofNat,
      Nat.mod_eq_of_lt (by omega : m < 2 ^ 52)]

theorem toRat?_pack_zero (s : Sign) : toRat? (.ofModel (.pack (.zero s))) = some 0 := by
  cases s <;> decide +kernel

/-- Bits that are not those of an infinity make the double that has them. -/
theorem toBits_ofBits_of_lt {u : UInt64} (h : u.toNat % 2 ^ 63 < 2047 * 2 ^ 52) :
    (Float.ofBits u).toBits = u := by
  have exponent : @unpackExponent .binary64 u.toBitVec ≠ -1#11 := by
    intro all
    have same := congrArg BitVec.toNat all
    rw [unpackExponent_def, BitVec.extractLsb'_toNat, Nat.shiftRight_eq_div_pow] at same
    have biased : u.toNat / 2 ^ 52 % 2 ^ 11 = 2047 := same
    omega
  have number : @isNaNBits .binary64 u.toBitVec = false := decide_eq_false fun h => exponent h.1
  have packed := toBitVec_ofBits u
  rw [number] at packed
  exact UInt64.toBitVec_inj.mp packed

/-- The sign that a double is given. -/
def signOf (negative : Bool) : Sign := if negative then .negative else .positive

theorem toBits_ofSignedBits (negative : Bool) {bits : Nat} (h : bits < 2047 * 2 ^ 52) :
    (ofSignedBits negative bits).toBits.toNat =
      (signOf negative).toBitVec.toNat * 2 ^ 63 + bits := by
  have sign : (signOf negative).toBitVec.toNat * 2 ^ 63 = if negative then twoPower 63 else 0 := by
    cases negative <;> rfl
  have whole : (UInt64.ofNat ((if negative then twoPower 63 else 0) + bits)).toNat =
      (signOf negative).toBitVec.toNat * 2 ^ 63 + bits := by
    have bit := (signOf negative).toBitVec.isLt
    rw [UInt64.toNat_ofNat', ← sign]
    omega
  refine (congrArg UInt64.toNat (toBits_ofBits_of_lt ?_)).trans whole
  rw [whole]
  omega

/-- **A significand and an exponent as bits** are those of a double with their value. -/
theorem Fits.toRat?_ofSignedBits {m : Nat} {e : Int} (hf : Fits m e) (negative : Bool) :
    toRat? (ofSignedBits negative ((e + 1074).toNat * 2 ^ 52 + m)) =
      some ((signOf negative).apply m * (2 : Rat) ^ e) := by
  refine hf.toRat?_eq ?_
  obtain ⟨small, least, greatest, -⟩ := hf
  have room : (e + 1074).toNat * 2 ^ 52 + m < 2047 * 2 ^ 52 := by omega
  rw [toBits_ofSignedBits negative room, Nat.add_assoc]

end JetAlgebra.Binary64
