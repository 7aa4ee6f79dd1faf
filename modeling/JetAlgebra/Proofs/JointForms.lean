import JetAlgebra.Proofs.JetFormulas

/-!
# Joint forms on rational jets

The joint form of two functions takes the values of both from the operand first, stores one
result, and computes the other one from what the buffers hold then.  If each result has a buffer
of its own, the operand is still there, and the two results are those of the single functions
(`JointOperation.results_eq`).
-/
namespace JetAlgebra
open Scalar Tables

namespace JetOperation
variable {p o : Nat} {a b : List Rat} (ha : a.length = (complete p o).size)
  (hb : b.length = (complete p o).size)
include ha hb

/-- A jet that is computed fills its window. -/
theorem length_of_jet_eq (op : JetOperation) {values : Jet Scalar}
    (h : op.jet (complete p o).calculus (Jet.ofRat a) (Jet.ofRat b) = .ok values) :
    values.length = (complete p o).size := by
  obtain ⟨F, hF⟩ := exists_hasFormula ha hb h
  obtain ⟨c, hc, computed, -⟩ := hF.jet_eq ha hb
  obtain rfl := Except.ok.inj (h.symm.trans computed)
  exact (List.length_map _).trans hc

/-- **The result is the jet** that the algebra of jets makes of the operands. -/
theorem result_complete (op : JetOperation) :
    op.result (complete p o) a b = op.jet (complete p o).calculus (Jet.ofRat a) (Jet.ofRat b) :=
  op.result_eq ha hb fun _ h => length_of_jet_eq ha hb op h

end JetOperation

namespace JointOperation

/-- The functions of a joint form. -/
def first : JointOperation → Elementary
  | .sinCos => .sin
  | .sinhCosh => .sinh

/-- The function that the second result is of. -/
def second : JointOperation → Elementary
  | .sinCos => .cos
  | .sinhCosh => .cosh

/-- A buffer for the operand, and an empty one for each result. -/
def memory (t : Tables) (a : List Rat) : Memory :=
  ⟨[("a", .boxed (Jet.ofRat a)), ("r", .boxed (List.replicate t.size .unset)),
    ("s", .boxed (List.replicate t.size .unset))]⟩

/-- The joint form on these buffers. -/
def operation (f : JointOperation) : Operation := .joint f ⟨"a", 0⟩ ⟨"r", 0⟩ ⟨"s", 0⟩

/-- **What a joint form leaves** in the buffers of its results. -/
def results (t : Tables) (f : JointOperation) (a : List Rat) :
    Except OperationFault (List (Jet Scalar)) :=
  match (Operation.run t.calculus f.operation).run.run (memory t a) with
  | (.ok (), after) => .ok [(after.get "r").scalars, (after.get "s").scalars]
  | (.error fault, _) => .error fault

/-- At a rational the values of both functions are rationals, and the derivatives are those of
the single functions. -/
theorem jointStarts_rat (f : JointOperation) (x : Rat) : ∃ alternating one two,
    Operation.jointStarts f (rat x) = .ok (alternating, one, two) ∧
      (∀ order, Operation.derivativesOf f.first (rat x) order =
        Outer.cycle alternating (order + 1) one.1 one.2) ∧
      ∀ order, Operation.derivativesOf f.second (rat x) order =
        Outer.cycle alternating (order + 1) two.1 two.2 := by
  cases f <;> exact ⟨_, _, _, rfl, fun _ => rfl, fun _ => rfl⟩

variable {p o : Nat} {a b : List Rat} (ha : a.length = (complete p o).size)
  (hb : b.length = (complete p o).size)

include ha

/-- The values that a joint form starts from. -/
theorem starts_eq {f : JointOperation} {starts : Bool × (Scalar × Scalar) × (Scalar × Scalar)}
    (h : Operation.jointStarts f (rat (a.getD 0 0)) = .ok starts) : (do
      let g ← Operation.read (complete p o).calculus (memory (complete p o) a) "operand" ⟨"a", 0⟩
      Operation.jointStarts f (← Arithmetic.slot g 0) : Except OperationFault _) = .ok starts := by
  have operand : Operation.read (complete p o).calculus (memory (complete p o) a) "operand"
      ⟨"a", 0⟩ = .ok (Jet.ofRat a) := read_boxed rfl rfl (JetOperation.length_ofRat ha) "operand"
  have value : Arithmetic.slot (Jet.ofRat a) 0 = .ok (rat (a.getD 0 0)) :=
    slot_map (ha ▸ size_pos p o)
  exact bind_eq_ok operand (bind_eq_ok (mapError_eq_ok_iff.mpr value) (mapError_eq_ok_iff.mpr h))

include hb

/-- One half of a joint form, as long as its operand is in memory. -/
theorem through_eq {m : Memory} {w : Window} (hm : m.get "a" = .boxed (Jet.ofRat a))
    (hr : m.get w.buffer = .boxed (List.replicate (complete p o).size .unset)) (hw : w.offset = 0)
    {e : Elementary} {f : Nat → Except ArithmeticFault (List Scalar)}
    (hf : ∀ order, Operation.derivativesOf e (rat (a.getD 0 0)) order = f order) :
    Operation.through (complete p o).calculus m (fun _ => f) ⟨"a", 0⟩ w =
      (JetOperation.function (.elementary e)).result (complete p o) a b := by
  rw [JetOperation.result_complete ha hb, Operation.through,
    follow_boxed hm rfl (JetOperation.length_ofRat ha) hr hw List.length_replicate,
    JetOperation.jet, JetOperation.value_eq ha]
  exact congrArg (fun l => ((l >>= fun l => .ok (.compose l)) >>=
    Jet.follow (complete p o).calculus .faithful (Jet.ofRat a)).mapError OperationFault.arithmetic)
    (hf (complete p o).calculus.order).symm

/-- **The results of a joint form** are those of its functions, which take one operand. -/
theorem results_eq (f : JointOperation) : f.results (complete p o) a = (do
    let x ← (JetOperation.function (.elementary f.first)).result (complete p o) a b
    let y ← (JetOperation.function (.elementary f.second)).result (complete p o) a b
    return [x, y]) := by
  obtain ⟨alternating, one, two, starts, sine, cosine⟩ := jointStarts_rat f (a.getD 0 0)
  have length : ∀ {e : Elementary} {v : Jet Scalar},
      (JetOperation.function (.elementary e)).result (complete p o) a b = .ok v →
        (List.replicate (complete p o).size Scalar.unset).length = v.length := by
    intro e v h
    rw [JetOperation.result_complete ha hb] at h
    exact List.length_replicate.trans (JetOperation.length_of_jet_eq ha hb _ h).symm
  have first := through_eq ha hb (m := memory (complete p o) a) (w := ⟨"r", 0⟩) rfl rfl rfl sine
  rw [results, operation, run_joint (starts_eq ha starts), run_bind,
    run_compute_boxed rfl rfl fun v h => length (first ▸ h), first]
  cases hx : (JetOperation.function (.elementary f.first)).result (complete p o) a b with
  | error fault => rfl
  | ok x =>
    -- The operand is still in its buffer after the first result is stored.
    have second := through_eq ha hb (m := (memory (complete p o) a).set "r" (.boxed x))
      (w := ⟨"s", 0⟩) rfl rfl rfl cosine
    show (match (Operation.compute ⟨"s", 0⟩ _).run.run ((memory (complete p o) a).set "r" _) with
      | (.ok (), after) => Except.ok _
      | (.error fault, _) => .error fault) = _
    rw [run_compute_boxed rfl rfl fun v h => length (second ▸ h), second]
    cases (JetOperation.function (.elementary f.second)).result (complete p o) a b <;> rfl

omit hb in
/-- **What a joint form leaves**, from the compositions with the derivatives of its functions. -/
theorem results_of_through {f : JointOperation} {x y : Jet Scalar}
    (first : Jet.through (complete p o).calculus .faithful (Jet.ofRat a)
      (Operation.derivativesOf f.first) = .ok x)
    (second : Jet.through (complete p o).calculus .faithful (Jet.ofRat a)
      (Operation.derivativesOf f.second) = .ok y) : f.results (complete p o) a = .ok [x, y] := by
  have composed : ∀ (e : Elementary), (JetOperation.function (.elementary e)).result (complete p o)
      a a = (Jet.through (complete p o).calculus .faithful (Jet.ofRat a)
        (Operation.derivativesOf e)).mapError .arithmetic := by
    intro e
    rw [JetOperation.result_complete ha ha, ← JetOperation.follow_eq ha]
    exact through_of_read (storageOf_boxed rfl) (JetOperation.read_first ha _)
      JetOperation.checkResult_target (Operation.derivativesOf e)
  rw [results_eq ha ha, composed, composed, first, second]
  rfl

end JointOperation

end JetAlgebra
