import JetAlgebra.Proofs.WrappedMemory

/-!
# Jets that operations compute from doubles and from wrapped doubles

What an operation reads, checks and computes before it stores anything is alike on memory of
doubles and on the same memory of wrapped doubles, as long as its arguments are plain numbers.

Integers among the derivatives that a caller lists for a composition are turned into doubles at
once on packed buffers, and only after a coefficient of the table was multiplied exactly on
boxed ones.  `SuitsComposition` asks that the two agree.  An array of machine integers is no list:
it is multiplied by the coefficients before either kind of buffer has a say
(`alike_outer_array`).
-/
namespace JetAlgebra
open Arithmetic Scalar

/-! ## Plain arguments -/

namespace Argument

theorem isPlain_toScalar {a : Argument} (h : a.isPlain = true) : a.toScalar.IsPlain := by
  cases a with
  | scalar v =>
    cases v with
    | int n => exact .int n
    | strict x => exact .strict x
    | lenient x => exact .lenient x
    | unset | real x | rat q | complex => cases h
  | bool b => exact .int _
  | null | text s | list items | array b => cases h

/-- An integer that is multiplied by a coefficient before or after it is turned into a double,
with the same result. -/
def RoundsAlike (coefficient : Nat) (n : Int) : Prop :=
  ∃ x y, floatOfInt n = .ok x ∧ floatOfInt coefficient = .ok y ∧
    floatOfInt (coefficient * n) = .ok (y * x)

/-- **Derivatives that a composition treats alike** on both kinds of buffers: plain numbers that
have a double near them, and integers only where they round alike. -/
structure SuitsComposition (t : Tables) (items : List Argument) : Prop where
  plain : ∀ a ∈ items, a.isPlain = true
  finite : ∀ a ∈ items, ∃ x, a.toScalar.plain = .ok x
  rounds : ∀ row ∈ t.composition, ∀ term ∈ row, ∀ n,
    (items.map toScalar)[term.key.derivative]? = some (.int n) → RoundsAlike term.coefficient n

end Argument

/-! ## Computing a jet -/

section Compute
variable (t : Tables) (contents : List (String × List Float))

theorem Tables.composition_calculus (t : Tables) :
    t.calculus.composition = .ofRows t.chainEntries t.size := rfl

namespace Operation

theorem alike_slotwise {f : Jet Scalar → Jet Scalar → Except ArithmeticFault (Jet Scalar)}
    (hf : ∀ ⦃a a'⦄, WrappedJet a a' → ∀ ⦃b b'⦄, WrappedJet b b' →
      Alike WrappedJet (f a b) (f a' b'))
    (a b result : Window) :
    Alike WrappedJet (slotwise t.calculus (.packed contents) f a b result)
      (slotwise t.calculus (.wrapped contents) f a b result) := by
  rw [slotwise, slotwise, checkResult_eq]
  exact (alike_read _ _ _).bind fun _ _ hx => (alike_read _ _ _).bind fun _ _ hy =>
    .bind_same fun _ => (hf hx.jet hy.jet).mapError _

theorem alike_quotient (a b result : Window) :
    Alike WrappedJet (quotient t.calculus (.packed contents) a b result)
      (quotient t.calculus (.wrapped contents) a b result) := by
  rw [quotient, quotient, checkResult_eq, checkScratch_eq]
  refine .bind_same fun _ => (alike_read _ _ _).bind fun y y' hy => ?_
  rw [hy.packed, hy.boxed]
  exact ((hy.jet.reciprocal t.composition_calculus).stored.mapError _).bind fun _ _ hr =>
    (alike_read _ _ _).bind fun _ _ hx => .bind_same fun _ => (hx.jet.mul _ hr).mapError _

theorem alike_power (a b result : Window) :
    Alike WrappedJet (power t.calculus (.packed contents) a b result)
      (power t.calculus (.wrapped contents) a b result) := by
  rw [power, power, checkResult_eq, checkScratch_eq]
  refine .bind_same fun _ => (alike_read _ _ _).bind fun x x' hx => ?_
  rw [hx.packed, hx.boxed]
  exact ((hx.jet.through t.composition_calculus twins_wrapped.log).stored.mapError _).bind
    fun _ _ hl => (alike_read _ _ _).bind fun _ _ hy =>
      ((hl.mul _ hy.jet).stored.mapError _).bind fun _ _ he =>
        (he.value.mapError _).bind fun _ _ hv => ((twins_wrapped.exp hv _).mapError _).bind
          fun _ _ hf => .bind_same fun _ =>
            (he.follow t.composition_calculus (.compose hf)).mapError _

theorem alike_angle (a b result : Window) :
    Alike WrappedJet (angle t.calculus (.packed contents) a b result)
      (angle t.calculus (.wrapped contents) a b result) := by
  rw [angle, angle, checkResult_eq]
  refine (alike_read _ _ _).bind fun y y' hy => (alike_read _ _ _).bind fun x x' hx => ?_
  rw [hx.packed, hx.boxed]
  exact .bind_same fun _ => (hy.jet.angle t.composition_calculus hx.jet).mapError _

theorem alike_follow {recipe recipe' : Scalar → Nat → Except ArithmeticFault (Recipe Scalar)}
    (hr : ∀ ⦃x y⦄, WrappedValue x y → ∀ order,
      Alike (SameRecipe WrappedValue) (recipe x order) (recipe' y order))
    (operand result : Window) :
    Alike WrappedJet (follow t.calculus (.packed contents) recipe operand result)
      (follow t.calculus (.wrapped contents) recipe' operand result) := by
  rw [follow, follow, checkResult_eq]
  refine (alike_read _ _ _).bind fun g g' hg => ?_
  rw [hg.packed, hg.boxed]
  exact (hg.jet.value.mapError _).bind fun _ _ hv => ((hr hv _).mapError _).bind fun _ _ hr =>
    .bind_same fun _ => (hg.jet.follow t.composition_calculus hr).mapError _

theorem alike_through {f f' : Scalar → Nat → Except ArithmeticFault (List Scalar)}
    (hf : ∀ ⦃x y⦄, WrappedValue x y → ∀ order,
      Alike (List.Forall₂ WrappedValue) (f x order) (f' y order))
    (operand result : Window) :
    Alike WrappedJet (through t.calculus (.packed contents) f operand result)
      (through t.calculus (.wrapped contents) f' operand result) :=
  alike_follow t contents (fun _ _ h order => (hf h order).bind fun _ _ hl => .ok (.compose hl))
    operand result

theorem alike_realPower {exponent : Argument} (h : exponent.isPlain = true) {x y : Scalar}
    (hx : WrappedValue x y) (order : Nat) :
    Alike (SameRecipe WrappedValue) (exponent.realPower x order) (exponent.realPower y order) := by
  have power := twins_wrapped.realPower (.plain (Argument.isPlain_toScalar h)) hx order
  cases exponent with
  | scalar v => exact power
  | bool b => exact power
  | null | text s | list items | array b => cases h

/-- Plain numbers are exponents for every operand. -/
theorem checkExponent_of_isPlain {exponent : Argument} (h : exponent.isPlain = true) (b : Buffer) :
    checkExponent exponent b = .ok () := by
  unfold checkExponent
  rw [h]
  cases b <;> rfl

theorem alike_constantPower {exponent : Argument} (h : exponent.isPlain = true)
    (operand result : Window) :
    Alike WrappedJet (constantPower t.calculus (.packed contents) operand exponent result)
      (constantPower t.calculus (.wrapped contents) operand exponent result) := by
  have checked : ∀ m, constantPower t.calculus m operand exponent result =
      exponent.integer?.elim (follow t.calculus m exponent.realPower operand result)
        (fun n => follow t.calculus m (Outer.integerPower n) operand result) := by
    intro m
    rw [constantPower, checkExponent_of_isPlain h]
    cases exponent.integer? <;> rfl
  rw [checked, checked]
  cases exponent.integer? with
  | some n =>
    exact alike_follow t contents (fun _ _ h => twins_wrapped.integerPower n h) operand result
  | none =>
    exact alike_follow t contents (fun _ _ hx => alike_realPower h hx) operand result

theorem runsAlike_basePower {base : Argument} (h : base.isPlain = true) :
    RunsAlike WrappedValue base.basePower := by
  intro x y hx order
  have factor : ∀ entries, base.toFactor entries = .ok base.toScalar := by
    intro entries
    cases base with
    | scalar v => rfl
    | bool b => rfl
    | null | text s | list items | array b => cases h
  rw [Argument.basePower, Argument.basePower, factor, factor]
  exact .ite (twins_wrapped.zeroPower hx order)
    (twins_wrapped.basePower (.plain (Argument.isPlain_toScalar h)) hx order)

/-! ### Compositions -/

/-- A plain number that was turned into a double, which it may be itself. -/
inductive Collected : Scalar → Scalar → Prop where
  | intro {b : Scalar} {x : Float} (h : b.IsPlain) (hx : b.plain = .ok x) : Collected (.strict x) b

/-- Plain numbers that have doubles near them are turned into those on packed buffers. -/
theorem collected_of_plain {items : List Argument} (hp : ∀ a ∈ items, a.isPlain = true)
    (hf : ∀ a ∈ items, ∃ x, a.toScalar.plain = .ok x) :
    ∃ f, items.mapM Argument.toPackedSlot = .ok f ∧
      List.Forall₂ Collected f (items.map Argument.toScalar) := by
  induction items with
  | nil => exact ⟨[], rfl, .nil⟩
  | cons a items ih =>
    obtain ⟨f, collected, related⟩ := ih (fun b hb => hp b (List.mem_cons_of_mem a hb))
      fun b hb => hf b (List.mem_cons_of_mem a hb)
    obtain ⟨x, hx⟩ := hf a List.mem_cons_self
    have plain := Argument.isPlain_toScalar (hp a List.mem_cons_self)
    have stored : Buffer.packedStorage.store a.toScalar = .ok (.strict x) :=
      bind_eq_ok ((counterpart_self plain).same.symm.trans hx) rfl
    have slot : a.toPackedSlot = .ok (.strict x) := by
      cases a with
      | scalar v => exact stored
      | bool b => exact stored
      | null | text s | list items | array b => cases hp _ List.mem_cons_self
    refine ⟨.strict x :: f, ?_, .cons ⟨plain, hx⟩ related⟩
    rw [List.mapM_cons, slot, collected]
    rfl

theorem scalesAlike_of_collected {items : List Argument} (h : Argument.SuitsComposition t items)
    {f : List Scalar} (hf : List.Forall₂ Collected f (items.map Argument.toScalar)) :
    ScalesAlike t.chainEntries.flatten f (items.map Argument.toScalar) := by
  intro e he
  obtain ⟨row, hrow, term, hterm, rfl⟩ := mem_flatten_map.mp he
  refine (alike_slot_found hf term.key.derivative).mono ?_
  rintro _ b ⟨@⟨_, x, plain, hx⟩, found⟩
  rw [entryAt?_natCast] at found
  cases plain with
  | int n =>
    -- Here the product is rounded once on the one side, and its factor on the other.
    obtain ⟨x', y, rounded, coefficient, product⟩ := h.rounds row hrow term hterm n found
    obtain rfl : x' = x := Except.ok.inj (rounded.symm.trans hx)
    have scaled : scale term.entry.coefficient (strict x') = .ok (strict (y * x')) :=
      bind_eq_ok coefficient rfl
    rw [scaled]
    exact .ok ⟨.strict _, .inl (.int _), product.symm⟩
  | strict z =>
    obtain rfl : z = x := Except.ok.inj hx
    exact .bind_same fun _ => .ok (counterpart_self (.strict _))
  | lenient z =>
    obtain rfl : z = x := Except.ok.inj hx
    exact .bind_same fun _ => .ok ⟨.strict _, .inl (.lenient _), rfl⟩

/-- What is known of the outer derivatives that both compositions use. -/
structure OuterAlike (f f' : Nat × OuterDerivatives) : Prop where
  count : f.1 = f'.1
  length : f.2.length = f'.2.length
  leading : Alike (Along (fun _ => Counterpart) t.chainEntries.flatten)
    (f.2.leading t.calculus.composition) (f'.2.leading t.calculus.composition)

/-- Numbers are alike if the coefficients scale them alike. -/
theorem outerAlike_numbers {count : Nat} {f f' : List Scalar} (length : f.length = f'.length)
    (h : ScalesAlike t.chainEntries.flatten f f') :
    OuterAlike t (count, .numbers f) (count, .numbers f') :=
  ⟨rfl, length, alike_leadingFactors h⟩

theorem alike_outer_members {items : List Argument} (h : Argument.SuitsComposition t items) :
    Alike (OuterAlike t)
      (do let f ← items.mapM Argument.toPackedSlot; return (f.length, .numbers f))
      (.ok (items.length, .numbers (items.map Argument.toScalar))) := by
  obtain ⟨f, collected, related⟩ := collected_of_plain h.plain h.finite
  have lengths : f.length = items.length := by simpa using related.length_eq
  rw [collected, ← lengths]
  exact .ok (outerAlike_numbers t related.length_eq (scalesAlike_of_collected t h related))

theorem alike_outer_list {items : List Argument} (h : Argument.SuitsComposition t items)
    (xs : List Float) :
    Alike (OuterAlike t) (outerDerivatives (.packed xs) (.list items))
      (outerDerivatives (.wrapping xs) (.list items)) := by
  have boxed : outerDerivatives (.wrapping xs) (.list items) =
      .ok (items.length, .numbers (items.map Argument.toScalar)) :=
    bind_eq_ok (mapM_eq_ok fun _ _ => rfl) (by rw [List.length_map]; rfl)
  rw [boxed]
  exact alike_outer_members t h

theorem alike_outer_sequence {items : List Scalar}
    (h : Argument.SuitsComposition t (items.map .scalar)) (xs : List Float) :
    Alike (OuterAlike t) (outerDerivatives (.packed xs) (.array (.sequence items)))
      (outerDerivatives (.wrapping xs) (.array (.sequence items))) := by
  have boxed : outerDerivatives (.wrapping xs) (.array (.sequence items)) =
      .ok ((items.map Argument.scalar).length,
        .numbers ((items.map Argument.scalar).map Argument.toScalar)) := by
    rw [List.map_map, List.length_map]
    exact bind_eq_ok (mapM_eq_ok fun _ _ => rfl) (by rw [List.length_map]; rfl)
  have packed : items.mapM Buffer.packedStorage.store =
      (items.map Argument.scalar).mapM Argument.toPackedSlot := by
    rw [List.mapM_map]
    rfl
  rw [boxed]
  show Alike _ (items.mapM Buffer.packedStorage.store >>= _) _
  rw [packed]
  exact alike_outer_members t h

/-- Plain numbers in an array are taken as they are on both sides. -/
theorem alike_outer_array {b : Buffer} (h : ∀ v ∈ b.scalars, v.IsPlain)
    (not_sequence : ∀ items, b ≠ .sequence items) (xs : List Float) :
    Alike (OuterAlike t) (outerDerivatives (.packed xs) (.array b))
      (outerDerivatives (.wrapping xs) (.array b)) := by
  have same : List.Forall₂ (fun v w => v = w ∧ v.IsPlain) b.scalars b.scalars :=
    List.forall₂_same.mpr fun v hv => ⟨rfl, h v hv⟩
  have scales : ScalesAlike t.chainEntries.flatten b.scalars b.scalars := by
    refine fun e _ => (alike_slot same e.derivative).mono ?_
    rintro v _ ⟨rfl, hv⟩
    refine (alike_combine_plain isCombination_mul (.int e.coefficient) hv).mono ?_
    rintro w _ ⟨rfl, hw⟩
    exact counterpart_self hw
  cases b with
  | sequence items => exact absurd rfl (not_sequence items)
  | words words =>
    exact .ok ⟨rfl, rfl, alike_leadingWords (fun n => counterpart_self (.int n)) words⟩
  | packed | boxed | matrix => exact .ok (outerAlike_numbers t rfl scales)

theorem alike_outer_wrapping (outer xs : List Float) :
    Alike (OuterAlike t) (outerDerivatives (.packed xs) (.array (.packed outer)))
      (outerDerivatives (.wrapping xs) (.array (.wrapping outer))) :=
  .ok ⟨(wrappedJet_map outer).length_eq, (wrappedJet_map outer).length_eq,
    alike_leadingFactors (scalesAlike_of_wrappedJet _ (wrappedJet_map outer))⟩

theorem alike_composeWith {outer outer' : Argument}
    (h : ∀ xs, Alike (OuterAlike t) (outerDerivatives (.packed xs) outer)
      (outerDerivatives (.wrapping xs) outer')) (operand result : Window) :
    Alike WrappedJet (composeWith t.calculus (.packed contents) operand outer result)
      (composeWith t.calculus (.wrapped contents) operand outer' result) := by
  rw [composeWith, composeWith, checkResult_eq]
  refine (alike_read _ _ _).bind fun g g' hg => .bind_same fun _ => ?_
  rw [hg.packed, hg.boxed]
  obtain ⟨xs, packed, boxed⟩ := hg.holds
  rw [packed, boxed]
  refine ((h xs).mapError _).bind ?_
  rintro ⟨count, f⟩ ⟨count', f'⟩ ⟨hc, hl, leading⟩
  obtain rfl : count = count' := hc
  have lengths : f.length = f'.length := hl
  show Alike WrappedJet
    (if count < t.calculus.order + 1 then _ else if f.length ≠ count then _ else _)
    (if count < t.calculus.order + 1 then _ else if f'.length ≠ count then _ else _)
  rw [lengths]
  exact .ite (.error _) (.ite (.error _)
    ((hg.jet.composeFrom t.composition_calculus leading).mapError _))

end Operation

end Compute

end JetAlgebra
