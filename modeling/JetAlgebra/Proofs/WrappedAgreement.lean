import Mathlib
import JetAlgebra.Proofs.WrappedOperations

/-!
# Doubles and wrapped doubles give the same results

Every operation on windows but the linear combination, which has an arithmetic of its own on
packed buffers, stores the same doubles whether they are packed or wrapped one by one, or fails
in the same way and leaves the same doubles behind, as long as its arguments are plain numbers
(`actsAlike_run`); so does the value of a Taylor expansion.

There is one exception.  Where an integer in the list of derivatives that a caller hands to a
composition is too large for a double to hold it, rounding it before or after a coefficient was
multiplied need not be the same (`composition_of_integers_differs`).  `Operation.IsNumeric`
leaves such integers out.  Machine integers in an array are multiplied as such on both sides, and
wrap around alike; as long as they do not, they are like any other integers
(`OuterDerivatives.leading_words`).
-/
namespace JetAlgebra
open Arithmetic Scalar

/-- **Operations whose arguments are plain numbers**, and no linear combination. -/
def Operation.IsNumeric (t : Tables) : Operation → Prop
  | .binary .. | .elementary .. | .joint .. => True
  | .pow _ exponent _ => exponent.isPlain = true
  | .scalarPow base _ _ => base.isPlain = true
  | .root _ index _ => index.isPlain = true
  | .compose _ (.list items) _ => Argument.SuitsComposition t items
  | .compose _ (.array (.sequence items)) _ => Argument.SuitsComposition t (items.map .scalar)
  | .compose _ (.array b) _ => ∀ v ∈ b.scalars, v.IsPlain
  | .compose .. | .linearCombination .. => False

/-- The same operation on the other kind of buffers.  Derivatives that are an array may be
handed in as doubles there, or wrapped as well. -/
inductive Operation.Matches (t : Tables) : Operation → Operation → Prop where
  | same {op : Operation} (h : op.IsNumeric t) : Matches t op op
  | wrapped (operand : Window) (xs : List Float) (result : Window) :
    Matches t (.compose operand (.array (.packed xs)) result)
      (.compose operand (.array (.wrapping xs)) result)

section Run
variable (t : Tables)

namespace Operation

/-! ## Running operations -/

/-- **Every operation of two operands** computes the same jet. -/
theorem alike_binaryResult (f : BinaryOperation) (contents : List (String × List Float))
    (a b result : Window) :
    Alike WrappedJet (binaryResult t.calculus (.packed contents) f a b result)
      (binaryResult t.calculus (.wrapped contents) f a b result) := by
  cases f with
  | add => exact alike_slotwise t contents (fun _ _ h _ _ h' => h.add h') a b result
  | subtract => exact alike_slotwise t contents (fun _ _ h _ _ h' => h.sub h') a b result
  | multiply => exact alike_slotwise t contents (fun _ _ h _ _ h' => h.mul _ h') a b result
  | divide => exact alike_quotient t contents a b result
  | remainder => exact alike_slotwise t contents (fun _ _ h _ _ h' => h.remainder h') a b result
  | power => exact alike_power t contents a b result
  | angle => exact alike_angle t contents a b result

theorem alike_angleValue (contents : List (String × List Float)) (a b : Window) :
    Alike WrappedJet (angleValue t.calculus (.packed contents) a b)
      (angleValue t.calculus (.wrapped contents) a b) :=
  (alike_read _ _ _).bind fun _ _ hy => ((alike_slot hy.jet 0).mapError _).bind fun _ _ hy =>
    (alike_read _ _ _).bind fun _ _ hx => ((alike_slot hx.jet 0).mapError _).bind fun _ _ hx =>
      ((hy.atan2 hx).mapError _).bind fun _ _ hv => .ok (.cons hv.slot .nil)

/-- The cycle of a joint form and the start of each of its two functions. -/
structure SameStarts (c c' : Bool × (Scalar × Scalar) × (Scalar × Scalar)) : Prop where
  alternating : c.1 = c'.1
  first : WrappedValue c.2.1.1 c'.2.1.1 ∧ WrappedValue c.2.1.2 c'.2.1.2
  second : WrappedValue c.2.2.1 c'.2.2.1 ∧ WrappedValue c.2.2.2 c'.2.2.2

theorem alike_jointStarts (f : JointOperation) {x y : Scalar} (h : WrappedSlot x y) :
    Alike SameStarts (jointStarts f x) (jointStarts f y) := by
  cases f with
  | sinCos =>
    exact (h.apply .sin).bind fun _ _ hs => (h.apply .cos).bind fun _ _ hc =>
      (twins_wrapped.neg hs).bind fun _ _ hn => .ok ⟨rfl, ⟨hs, hc⟩, hc, hn⟩
  | sinhCosh =>
    exact (h.apply .sinh).bind fun _ _ hs => (h.apply .cosh).bind fun _ _ hc =>
      .ok ⟨rfl, ⟨hs, hc⟩, hc, hs⟩

/-- One function of a joint form. -/
theorem actsAlike_part (alternating : Bool) {c c' : Scalar × Scalar}
    (h : WrappedValue c.1 c'.1 ∧ WrappedValue c.2 c'.2) (operand result : Window) :
    ActsAlike Eq
      (compute result (through t.calculus ·
        (fun _ order => Outer.cycle alternating (order + 1) c.1 c.2) operand result))
      (compute result (through t.calculus ·
        (fun _ order => Outer.cycle alternating (order + 1) c'.1 c'.2) operand result)) :=
  .compute result fun contents => alike_through t contents
    (fun _ _ _ order => twins_wrapped.cycle alternating (order + 1) h.1 h.2) operand result

theorem actsAlike_joint (f : JointOperation) (operand first second : Window) :
    ActsAlike Eq (run t.calculus (.joint f operand first second))
      (run t.calculus (.joint f operand first second)) := by
  refine ActsAlike.get.bind ?_
  rintro _ _ ⟨contents, rfl, rfl⟩
  have operands : Alike (WrappedWindow contents operand) _ _ :=
    alike_read t.calculus "operand" operand
  have starts := operands.bind fun _ _ hg =>
    ((alike_slot hg.jet 0).mapError OperationFault.arithmetic).bind
      fun _ _ hx => (alike_jointStarts f hx).mapError OperationFault.arithmetic
  refine (ActsAlike.lift starts).bind ?_
  rintro ⟨alternating, one, two⟩ ⟨_, one', two'⟩ ⟨rfl, hone, htwo⟩
  exact (actsAlike_part t alternating hone operand first).bind fun _ _ _ =>
    actsAlike_part t alternating htwo operand second

theorem actsAlike_numeric {op : Operation} (h : op.IsNumeric t) :
    ActsAlike Eq (run t.calculus op) (run t.calculus op) := by
  cases op with
  | binary f a b result =>
    cases f with
    | angle =>
      refine ActsAlike.get.bind ?_
      rintro _ _ ⟨contents, rfl, rfl⟩
      exact (ActsAlike.compute result fun _ => alike_angle t _ a b result).bind fun _ _ _ =>
        .compute result fun _ => alike_angleValue t contents a b
    | add | subtract | multiply | divide | remainder | power =>
      exact .compute result fun contents => alike_binaryResult t _ contents a b result
  | elementary f operand result =>
    exact .compute result fun contents =>
      alike_through t contents (twins_wrapped.derivativesOf f) operand result
  | joint f operand first second => exact actsAlike_joint t f operand first second
  | pow operand exponent result =>
    exact .compute result fun contents => alike_constantPower t contents h operand result
  | scalarPow base operand result =>
    exact .compute result fun contents =>
      alike_through t contents (runsAlike_basePower h) operand result
  | root operand index result =>
    have derivatives : RunsAlike WrappedValue (Outer.root index.rootKind index.toScalar) :=
      fun _ _ hx order =>
        twins_wrapped.root index.rootKind (.plain (Argument.isPlain_toScalar h)) hx order
    exact .compute result fun contents => alike_through t contents derivatives operand result
  | compose operand outer result =>
    refine .compute result fun contents => alike_composeWith t contents ?_ operand result
    intro xs
    cases outer with
    | list items => exact alike_outer_list t h xs
    | array b =>
      cases b with
      | sequence items => exact alike_outer_sequence t h xs
      | packed slots | boxed slots | words slots | matrix row =>
        exact alike_outer_array t h (fun _ => nofun) xs
    | scalar v | bool b | null | text s => exact h.elim
  | linearCombination terms result => exact h.elim

/-- **Operations that match act alike.** -/
theorem actsAlike_run {op op' : Operation} (h : op.Matches t op') :
    ActsAlike Eq (run t.calculus op) (run t.calculus op') := by
  cases h with
  | same h => exact actsAlike_numeric t h
  | wrapped operand xs result =>
    exact .compute result fun contents =>
      alike_composeWith t contents (alike_outer_wrapping t xs) operand result

end Operation

/-! ## Taylor expansions -/

/-- The displacements that the arguments of a Taylor expansion stand for. -/
def Argument.expanded (arguments : List Argument) : List Argument :=
  match arguments with
  | [a] => a.members?.getD arguments
  | _ => arguments

/-- Displacements that are plain numbers are lenient doubles. -/
theorem alike_displacements {arguments : List Argument}
    (h : ∀ a ∈ arguments, a.isPlain = true) :
    Alike (fun d d' => d = d' ∧ ∃ xs : List Float, d = xs.map .lenient)
      (Operation.displacements arguments) (Operation.displacements arguments) := by
  induction arguments with
  | nil => exact .ok ⟨rfl, [], rfl⟩
  | cons a arguments ih =>
    rw [Operation.displacements, List.mapM_cons, Operation.displacement,
      if_pos (h a List.mem_cons_self), bind_assoc]
    refine .bind_same fun x => (ih fun b hb => h b (List.mem_cons_of_mem a hb)).bind ?_
    rintro _ _ ⟨rfl, xs, rfl⟩
    exact .ok ⟨rfl, x :: xs, rfl⟩

theorem alike_taylor (contents : List (String × List Float)) (operand : Window)
    {arguments : List Argument} (h : ∀ a ∈ Argument.expanded arguments, a.isPlain = true) :
    Alike WrappedValue (Operation.taylor t.calculus (.packed contents) operand arguments)
      (Operation.taylor t.calculus (.wrapped contents) operand arguments) := by
  show Alike WrappedValue
    (if (Argument.expanded arguments).length ≠ t.calculus.parameters then _ else _)
    (if (Argument.expanded arguments).length ≠ t.calculus.parameters then _ else _)
  refine .ite (.error _) ((alike_read _ _ _).bind fun a a' ha => ?_)
  refine ((alike_displacements h).mapError _).bind ?_
  rintro _ _ ⟨rfl, xs, rfl⟩
  exact (ha.jet.taylor t.calculus.derivatives xs).mapError _

end Run

/-! ## Agreement -/

/-- **An operation on memory of doubles and one on the same memory of wrapped doubles** end in
the same way, and leave the same doubles behind. -/
def Operation.AgreesWith (t : Tables) (op op' : Operation) (contents : List (String × List Float)) :
    Prop :=
  ∃ outcome after,
    (run t.calculus op).run.run (.packed contents) = (outcome, .packed after) ∧
      (run t.calculus op').run.run (.wrapped contents) = (outcome, .wrapped after)

/-- **Doubles and wrapped doubles agree**, in every operation with plain arguments and in the
value of a Taylor expansion at plain numbers. -/
structure Tables.AgreesOnWrapped (t : Tables) : Prop where
  run : ∀ {op op' : Operation}, op.Matches t op' → ∀ contents, op.AgreesWith t op' contents
  taylor : ∀ contents operand arguments, (∀ a ∈ Argument.expanded arguments, a.isPlain = true) →
    Alike WrappedValue (Operation.taylor t.calculus (.packed contents) operand arguments)
      (Operation.taylor t.calculus (.wrapped contents) operand arguments)

theorem Tables.agreesOnWrapped (t : Tables) : t.AgreesOnWrapped where
  run h contents := by
    obtain ⟨r, r', after, packed, wrapped, alike⟩ := Operation.actsAlike_run t h contents
    cases alike with
    | ok h => exact ⟨_, after, packed, h ▸ wrapped⟩
    | error fault => exact ⟨_, after, packed, wrapped⟩
  taylor contents operand _ h := alike_taylor t contents operand h

/-- Truth values and small integers suit a composition. -/
theorem suitsComposition_small : Argument.SuitsComposition (Tables.complete 1 1)
    [.scalar (.int 3), .bool true, .scalar (.strict 0.5)] where
  plain := by decide
  finite := by
    simp only [List.forall_mem_cons]
    exact ⟨⟨_, rfl⟩, ⟨_, rfl⟩, ⟨_, rfl⟩, nofun⟩
  rounds := by
    have rows : (Tables.complete 1 1).composition = [[⟨1, 0, []⟩], [⟨1, 1, [1]⟩]] := by decide
    rw [rows]
    simp only [List.forall_mem_cons]
    refine ⟨⟨?_, nofun⟩, ⟨?_, nofun⟩, nofun⟩
    · rintro n ⟨⟩
      exact ⟨_, _, rfl, rfl, by decide +kernel⟩
    · rintro n ⟨⟩
      exact ⟨_, _, rfl, rfl, by decide +kernel⟩

/-- A composition with an integer and a truth value, and a linear approximation. -/
theorem agreesOnWrapped_one_one :
    Operation.AgreesWith (Tables.complete 1 1)
      (.compose ⟨"g", 0⟩ (.list [.scalar (.int 3), .bool true, .scalar (.strict 0.5)]) ⟨"r", 0⟩)
      (.compose ⟨"g", 0⟩ (.list [.scalar (.int 3), .bool true, .scalar (.strict 0.5)]) ⟨"r", 0⟩)
      [("g", [2, 1]), ("r", [0, 0])] ∧
    Alike WrappedValue
      (Operation.taylor (Tables.complete 1 1).calculus
        (.packed [("g", [2, 1]), ("r", [0, 0])]) ⟨"g", 0⟩
        [.scalar (.int 1)])
      (Operation.taylor (Tables.complete 1 1).calculus
        (.wrapped [("g", [2, 1]), ("r", [0, 0])]) ⟨"g", 0⟩
        [.scalar (.int 1)]) :=
  ⟨(Tables.agreesOnWrapped (Tables.complete 1 1)).run
      (.same (show Operation.IsNumeric _ (.compose _ (.list _) _) from suitsComposition_small)) _,
    (Tables.agreesOnWrapped (Tables.complete 1 1)).taylor _ _ _ (by decide)⟩

/-- The bits of the doubles in a buffer. -/
def Memory.bitsOf (m : Memory) (name : String) : List (Option UInt64) :=
  (m.get name).scalars.map fun
    | .strict x | .lenient x | .real x => some x.toBits
    | .unset | .int _ | .rat _ | .complex => none

theorem bitsOf_wrapped (contents : List (String × List Float)) (name : String) :
    (Memory.packed contents).bitsOf name = (Memory.wrapped contents).bitsOf name := by
  have alike := wrappedBuffer_get contents name
  rw [Memory.bitsOf, Memory.bitsOf]
  revert alike
  generalize (Memory.packed contents).get name = b
  generalize (Memory.wrapped contents).get name = b'
  rintro (xs | _)
  · simp [Buffer.wrapping, Buffer.scalars]
  · rfl

/-! ## Integers as derivatives -/

/-- Integers whose products fit a word are multiplied like words. -/
theorem scaleEach_of_fits {ns words : List Int} {as : List Scalar}
    (h : List.Forall₂ (fun n a => a = .int n ∧ ∀ c ∈ ns, fitsMachineIndex (c * n)) words as) :
    scaleEach ns as =
      .ok (List.zipWith (fun c n => ofInt (wrapMachineIndex (c * n))) ns words) := by
  induction ns generalizing words as with
  | nil => cases h <;> rfl
  | cons c ns ih =>
    cases h with
    | nil => rfl
    | @cons n a words as hn h =>
      obtain ⟨rfl, fits⟩ := hn
      have rest := ih (h.imp fun _ _ hn => ⟨hn.1, fun c hc => hn.2 c (List.mem_cons_of_mem _ hc)⟩)
      rw [scaleEach, rest, List.zipWith_cons_cons,
        wrapMachineIndex_of_fits (fits c List.mem_cons_self)]
      rfl

/-- **Machine integers are like other integers** as long as none of their products with the
coefficients leaves the range of a word. -/
theorem OuterDerivatives.leading_words {k : CompositionKernel} {words : List Int}
    (h : ∀ n ∈ words, ∀ c ∈ k.coefficients, fitsMachineIndex (c * n)) :
    (OuterDerivatives.words words).leading k =
      (OuterDerivatives.numbers (words.map .int)).leading k := by
  have entries : List.Forall₂ (fun n a => a = .int n ∧ ∀ c ∈ k.coefficients,
      fitsMachineIndex (c * n)) words (words.map Scalar.int) :=
    List.forall₂_map_right_iff.mpr (List.forall₂_same.mpr fun n hn => ⟨rfl, h n hn⟩)
  have looked := alike_gather entries k.derivatives
  rw [leading, leading, Jet.leadingWords, Jet.leadingFactors]
  revert looked
  generalize gather words k.derivatives = r
  generalize gather (words.map Scalar.int) k.derivatives = r'
  rintro (h | fault)
  · exact (scaleEach_of_fits h).symm
  · rfl
/-- Three times `2 ^ 62` is no machine integer: it wraps around, and leaves `-2 ^ 62` in the slot of
the highest order. -/
example : (((Operation.run (Tables.complete 1 3).calculus (.compose ⟨"g", 0⟩
    (.array (.words [0, 0, 2 ^ 62, 0])) ⟨"r", 0⟩)).run.run
      (.packed [("g", [0, 1, 1, 0]), ("r", [0, 0, 0, 0])])).2).bitsOf "r" =
    [0, 0, 4611686018427387904, -4611686018427387904].map fun x : Float => some x.toBits := by
  decide +kernel

/-- The composition of a jet with a function whose derivatives are integers. -/
def Operation.composeIntegers (derivatives : List Int) : Operation :=
  .compose ⟨"g", 0⟩ (.list (derivatives.map fun n => .scalar (.int n))) ⟨"r", 0⟩

/-- What an operation leaves behind differs if the bits of one buffer do. -/
theorem not_agreesWith_of_bitsOf {t : Tables} {op : Operation}
    {contents : List (String × List Float)} (name : String)
    (h : (((Operation.run t.calculus op).run.run (.packed contents)).2).bitsOf name ≠
      (((Operation.run t.calculus op).run.run (.wrapped contents)).2).bitsOf name) :
    ¬ op.AgreesWith t op contents := by
  rintro ⟨outcome, after, packed, wrapped⟩
  rw [packed, wrapped] at h
  exact h (bitsOf_wrapped after name)

/-- **Integers that are too large for doubles.**  Three times `9007199254740993` is rounded
twice on the one side and once on the other, and an integer beyond the range of doubles that
comes after the derivatives in use is refused on one side alone. -/
theorem composition_of_integers_differs :
    ¬ (Operation.composeIntegers [0, 0, 9007199254740993, 0]).AgreesWith (Tables.complete 1 3)
        (Operation.composeIntegers [0, 0, 9007199254740993, 0])
        [("g", [0, 1, 1, 0]), ("r", [0, 0, 0, 0])] ∧
    ¬ (Operation.composeIntegers [1, 2 ^ 1024]).AgreesWith (Tables.complete 1 0)
        (Operation.composeIntegers [1, 2 ^ 1024]) [("g", [0]), ("r", [0])] :=
  ⟨not_agreesWith_of_bitsOf "r" (by decide +kernel),
    not_agreesWith_of_bitsOf "r" (by decide +kernel)⟩

end JetAlgebra
