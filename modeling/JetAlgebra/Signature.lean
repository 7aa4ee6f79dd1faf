import JetAlgebra.Datum

/-!
# Signatures

A signature is the number of free parameters and the order of a jet.  Callers may
hand in anything for the two; `Signature.validate` accepts integers and truth
values that are not negative and quotes what it refuses.
-/

namespace JetAlgebra

/-- The number of free parameters and the derivation order of a jet. -/
structure Signature where
  parameters : Nat
  order : Nat
  deriving DecidableEq, Repr

/-- Why two data are not a signature. -/
inductive SignatureFault where
  /-- One of them is not an integer. -/
  | notIntegers (parameters order : Datum)
  /-- Both are integers and one is negative. -/
  | negative (parameters order : Datum)

/-- Why two signatures cannot be used together. -/
inductive CompatibilityFault where
  | parameters (mine other : Nat)
  | order (mine other : Nat)
  deriving DecidableEq, Repr

namespace SignatureFault

/-- What is said about the fault. -/
def message : SignatureFault → String
  | .notIntegers p o => s!"parameters and order must be integers; got ({p.literal}, {o.literal})."
  | .negative p o => s!"parameters and order must be non-negative; got ({p.literal}, {o.literal})."

end SignatureFault

namespace CompatibilityFault

/-- What is said about the fault. -/
def message : CompatibilityFault → String
  | .parameters mine other => s!"free parameters mismatch: {mine} != {other}."
  | .order mine other => s!"order mismatch: {mine} != {other}."

end CompatibilityFault

namespace Signature

/-- The signature that two data are. -/
def validate (parameters order : Datum) : Except SignatureFault Signature :=
  match parameters.asInt?, order.asInt? with
  | some p, some o =>
    if p < 0 ∨ o < 0 then .error (.negative parameters order)
    else .ok ⟨p.toNat, o.toNat⟩
  | _, _ => .error (.notIntegers parameters order)

/-- Two signatures are compatible when they are equal; the parameters are compared first. -/
def checkCompatible (mine other : Signature) : Except CompatibilityFault Unit :=
  if mine.parameters ≠ other.parameters then
    .error (.parameters mine.parameters other.parameters)
  else if mine.order ≠ other.order then .error (.order mine.order other.order)
  else .ok ()

end Signature

end JetAlgebra
