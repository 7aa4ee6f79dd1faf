/-!
# Compare and set

A reference that writers swap only if nobody else did since they read it.  Values
are compared by identity, which is what the equality test of `α` must tell.
-/

namespace JetAlgebra

/-- A single shared value. -/
structure AtomicReference (α : Type) where
  current : α
  deriving Repr

namespace AtomicReference
variable {α : Type} [BEq α]

/-- Replaces the value by `new` if it is still `expected`, and says whether it did. -/
def compareAndSet (r : AtomicReference α) (expected new : α) : Bool × AtomicReference α :=
  if r.current == expected then (true, ⟨new⟩) else (false, r)

end AtomicReference

end JetAlgebra
