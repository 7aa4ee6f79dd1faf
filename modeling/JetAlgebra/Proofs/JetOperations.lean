import JetAlgebra.Proofs.ComputedExpansion
import JetAlgebra.Proofs.OperationRuns

/-!
# Operations on rational jets

An operation on windows is run here on rational jets that have a buffer each, and its result is
what it leaves in a third one (`JetOperation.result`).  Nothing of the memory matters then: the
result is what the algebra of jets makes of the operands (`JetOperation.result_eq`).
-/
namespace JetAlgebra
open Arithmetic Tables Exponent

/-! ## Operations on jets -/

/-- Functions of one jet that find their derivatives themselves. -/
inductive JetFunction where
  | elementary (f : Elementary)
  | power (n : Int)
  | scalarPower (base : Argument)
  | root (index : Argument)

/-- The recipe of a function. -/
def JetFunction.recipe : JetFunction → Scalar → Nat → Except ArithmeticFault (Recipe Scalar)
  | .elementary f => fun x order => do return .compose (← Operation.derivativesOf f x order)
  | .power n => Outer.integerPower n
  | .scalarPower base => fun x order => do return .compose (← base.basePower x order)
  | .root index => fun x order => do
    return .compose (← Outer.root index.rootKind index.toScalar x order)

/-- Operations of one jet, or of two. -/
inductive JetOperation where
  | add | subtract | multiply | divide | remainder
  | compose (derivatives : List Rat)
  | function (f : JetFunction)

namespace JetOperation

/-- The window of the first operand. -/
def first : Window := ⟨"a", 0⟩

/-- The window of the second operand. -/
def second : Window := ⟨"b", 0⟩

/-- The window of the result. -/
def target : Window := ⟨"r", 0⟩

/-- The operation on these windows. -/
def operation : JetOperation → Operation
  | .add => .binary .add first second target
  | .subtract => .binary .subtract first second target
  | .multiply => .binary .multiply first second target
  | .divide => .binary .divide first second target
  | .remainder => .binary .remainder first second target
  | .compose derivatives => .compose first (.list (derivatives.map (.scalar <| .rat ·))) target
  | .function (.elementary f) => .elementary f first target
  | .function (.power n) => .pow first (.scalar (.int n)) target
  | .function (.scalarPower base) => .scalarPow base first target
  | .function (.root index) => .root first index target

/-- A buffer for each operand, and an empty one for the result. -/
def memory (t : Tables) (a b : List Rat) : Memory :=
  ⟨[("a", .boxed (Jet.ofRat a)), ("b", .boxed (Jet.ofRat b)),
    ("r", .boxed (List.replicate t.size .unset))]⟩

/-- **What an operation leaves** in the buffer of the result. -/
def result (t : Tables) (op : JetOperation) (a b : List Rat) :
    Except OperationFault (Jet Scalar) :=
  match (Operation.run t.calculus op.operation).run.run (memory t a b) with
  | (.ok (), after) => .ok (after.get "r").scalars
  | (.error fault, _) => .error fault

/-- The jet that is stored. -/
def jet (k : Calculus) (a b : Jet Scalar) : JetOperation → Except OperationFault (Jet Scalar)
  | .add => (Jet.add a b).mapError .arithmetic
  | .subtract => (Jet.sub a b).mapError .arithmetic
  | .multiply => (Jet.mul k a b).mapError .arithmetic
  | .divide => (Jet.divide k .faithful a b).mapError .arithmetic
  | .remainder => (Jet.remainder a b).mapError .arithmetic
  | .compose f =>
    if f.length < k.order + 1 then .error (.tooFewDerivatives (k.order + 1) f.length)
    else (Jet.compose k .faithful a (Jet.ofRat f)).mapError .arithmetic
  | .function f =>
    (Jet.value .faithful a >>= (f.recipe · k.order) >>= Jet.follow k .faithful a).mapError
      .arithmetic

section Result
variable {t : Tables} {a b : List Rat}

theorem length_ofRat (h : a.length = t.size) : (Jet.ofRat a).length = t.calculus.size :=
  (List.length_map _).trans h

theorem read_first (ha : a.length = t.size) (name : String) :
    Operation.read t.calculus (memory t a b) name first = .ok (Jet.ofRat a) :=
  read_boxed rfl rfl (length_ofRat ha) name

theorem read_second (hb : b.length = t.size) (name : String) :
    Operation.read t.calculus (memory t a b) name second = .ok (Jet.ofRat b) :=
  read_boxed rfl rfl (length_ofRat hb) name

theorem checkResult_target :
    Operation.checkResult t.calculus (memory t a b) target = .ok () :=
  checkResult_boxed rfl rfl List.length_replicate

theorem slotwise_eq (ha : a.length = t.size) (hb : b.length = t.size)
    (f : Jet Scalar → Jet Scalar → Except ArithmeticFault (Jet Scalar)) :
    Operation.slotwise t.calculus (memory t a b) f first second target =
      (f (Jet.ofRat a) (Jet.ofRat b)).mapError .arithmetic :=
  slotwise_of_read (read_first ha _) (read_second hb _) checkResult_target f

theorem quotient_eq (ha : a.length = t.size) (hb : b.length = t.size) :
    Operation.quotient t.calculus (memory t a b) first second target =
      (Jet.divide t.calculus .faithful (Jet.ofRat a) (Jet.ofRat b)).mapError .arithmetic :=
  quotient_of_read (storageOf_boxed rfl) (read_first ha _) (read_second hb _) checkResult_target

theorem follow_eq (ha : a.length = t.size) (f : JetFunction) :
    Operation.follow t.calculus (memory t a b) f.recipe first target =
      jet t.calculus (Jet.ofRat a) (Jet.ofRat b) (.function f) :=
  follow_boxed rfl rfl (length_ofRat ha) rfl rfl List.length_replicate f.recipe

theorem composeWith_eq (ha : a.length = t.size) (f : List Rat) :
    Operation.composeWith t.calculus (memory t a b) first (.list (f.map (.scalar <| .rat ·)))
        target =
      jet t.calculus (Jet.ofRat a) (Jet.ofRat b) (.compose f) := by
  have outer : Operation.outerDerivatives ((memory t a b).get first.buffer)
      (.list (f.map (.scalar <| .rat ·))) = .ok (f.length, .numbers (Jet.ofRat f)) := by
    refine bind_eq_ok (mapM_eq_ok fun _ _ => rfl) ?_
    rw [List.length_map, List.length_map, List.map_map]
    rfl
  have lengths : ¬ (Jet.ofRat f).length ≠ f.length := not_not.mpr (List.length_map _)
  rw [Operation.composeWith, read_first ha, checkResult_target, outer, jet]
  show (if f.length < t.calculus.order + 1 then _
    else if (Jet.ofRat f).length ≠ f.length then _ else _) = _
  rw [if_neg lengths]
  rfl

/-- **An operation computes its jet** and stores it. -/
theorem run_eq (ha : a.length = t.size) (hb : b.length = t.size) (op : JetOperation) :
    ∃ f, Operation.run t.calculus op.operation = Operation.compute target f ∧
      f (memory t a b) = op.jet t.calculus (Jet.ofRat a) (Jet.ofRat b) := by
  cases op with
  | add | subtract | multiply | remainder => exact ⟨_, rfl, slotwise_eq ha hb _⟩
  | divide => exact ⟨_, rfl, quotient_eq ha hb⟩
  | compose f => exact ⟨_, rfl, composeWith_eq ha f⟩
  | function f =>
    cases f with
    | elementary f => exact ⟨_, rfl, follow_eq ha (.elementary f)⟩
    | power n => exact ⟨_, rfl, follow_eq ha (.power n)⟩
    | scalarPower base => exact ⟨_, rfl, follow_eq ha (.scalarPower base)⟩
    | root index => exact ⟨_, rfl, follow_eq ha (.root index)⟩

/-- **The result is the jet**, if that has as many slots as the window. -/
theorem result_eq (ha : a.length = t.size) (hb : b.length = t.size) (op : JetOperation)
    (hl : ∀ values, op.jet t.calculus (Jet.ofRat a) (Jet.ofRat b) = .ok values →
      values.length = t.size) :
    op.result t a b = op.jet t.calculus (Jet.ofRat a) (Jet.ofRat b) := by
  obtain ⟨f, run, computed⟩ := run_eq ha hb op
  rw [result, run, run_compute_boxed rfl rfl fun values h =>
    List.length_replicate.trans (hl values (computed ▸ h)).symm, computed]
  cases op.jet t.calculus (Jet.ofRat a) (Jet.ofRat b) <;> rfl

end Result

end JetOperation

end JetAlgebra
