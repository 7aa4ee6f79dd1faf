import JetAlgebra.Proofs.JetLengths
import JetAlgebra.Proofs.WindowWrites

/-!
# Results and arguments of a kind

A result has a slot for each slot of a window, and where the window is packed it is made of doubles
(`ElementKind.Fills`): then it can be stored (`ElementKind.Fills.store`).

The arguments of an operation are of a kind (`Argument.IsOf`) if the numbers in them are plain, or
elements of the kind.  What is made of them for packed buffers is a double, or is refused.
-/
namespace JetAlgebra
open Arithmetic Scalar

/-! ## Results -/

namespace ElementKind

/-- A number of the kind: a plain one, nothing at all, or an element. -/
inductive Number (kind : ElementKind) : Scalar → Prop where
  | plain {v : Scalar} (h : v.IsPlain) : Number kind v
  | unset : Number kind .unset
  | element {v : Scalar} (h : kind.Element v) : Number kind v

/-- **A result for a window**: it fills it, and doubles go where only doubles can be stored. -/
structure Fills (kind : ElementKind) (k : Calculus) (v : Jet Scalar) : Prop where
  length : v.length = k.size
  twin : kind = .double → ∃ v', WrappedJet v v'

/-- **A result can be stored.** -/
theorem Fills.store {kind : ElementKind} {k : Calculus} {v : Jet Scalar} (h : kind.Fills k v) :
    ∃ stored, v.mapM kind.storage.store = .ok stored ∧ stored.length = k.size := by
  have kept : ∃ stored, v.mapM kind.storage.store = .ok stored := by
    cases kind with
    | double =>
      obtain ⟨v', hv⟩ := h.twin rfl
      have stored : Alike WrappedJet (v.mapM Buffer.packedStorage.store)
          (v'.mapM (Storage.faithful : Storage Scalar).store) := Alike.mapM hv fun _ _ h => h.store
      rw [Buffer.mapM_faithful] at stored
      cases hs : v.mapM Buffer.packedStorage.store with
      | ok u => exact ⟨u, hs⟩
      | error fault => rw [hs] at stored; cases stored
    | real | rational => exact ⟨v, Buffer.mapM_faithful v⟩
  obtain ⟨stored, hs⟩ := kept
  exact ⟨stored, hs, (length_of_mapM hs).trans h.length⟩

end ElementKind

/-- Doubles, and nothing else, have their wrapped counterparts. -/
theorem exists_wrappedJet_iff {v : Jet Scalar} :
    (∃ v', WrappedJet v v') ↔ ∀ s ∈ v, ElementKind.double.Element s := by
  induction v with
  | nil => exact ⟨fun _ => nofun, fun _ => ⟨[], .nil⟩⟩
  | cons s v ih =>
    rw [List.forall_mem_cons, ← ih]
    constructor
    · rintro ⟨_, h | ⟨hs, hv⟩⟩
      refine ⟨?_, _, hv⟩
      cases hs with
      | strict x => exact .strict x
      | lenient x => exact .lenient x
    · rintro ⟨hs, v', hv⟩
      cases hs with
      | strict x => exact ⟨_, .cons (.strict x) hv⟩
      | lenient x => exact ⟨_, .cons (.lenient x) hv⟩

/-! ## Arguments -/

namespace Argument
variable {kind : ElementKind} {a : Argument}

/-- **An argument of the kind.**  The numbers in it are plain or elements of the kind, and what is
a buffer for jets is one of the kind. -/
inductive IsOf (kind : ElementKind) : Argument → Prop where
  | scalar {v : Scalar} (h : kind.Number v) : IsOf kind (.scalar v)
  | bool (b : Bool) : IsOf kind (.bool b)
  | null : IsOf kind .null
  | text (s : String) : IsOf kind (.text s)
  | list {items : List Argument} (h : ∀ a ∈ items, IsOf kind a) : IsOf kind (.list items)
  | array {b : Buffer} (h : b.IsOf kind)
    (hs : ∀ items, b = .sequence items → ∀ v ∈ items, kind.Number v) : IsOf kind (.array b)

theorem IsOf.toScalar (h : a.IsOf kind) : kind.Number a.toScalar := by
  cases h with
  | scalar h => exact h
  | bool b => exact .plain (.int _)
  | null | text | list | array => exact .unset

theorem IsOf.toFactor (h : a.IsOf kind) {entries : List Scalar} {c : Scalar}
    (hc : a.toFactor entries = .ok c) : kind.Number c := by
  cases h with
  | scalar h => cases hc; exact h
  | bool b => cases hc; exact .plain (.int _)
  | null =>
    cases hc
    split
    · exact .plain (.lenient _)
    · exact .unset
  | text s =>
    rw [Argument.toFactor] at hc
    split at hc
    · cases hc
    · cases hc; exact .plain (.lenient _)
    · cases hc
  | list | array => cases hc

/-- Numbers of packed buffers are plain. -/
theorem plain_or_unset {v : Scalar} (h : ElementKind.double.Number v) : v.IsPlain ∨ v = .unset := by
  cases h with
  | plain h => exact .inl h
  | unset => exact .inr rfl
  | element h =>
    cases h with
    | strict x => exact .inl (.strict x)
    | lenient x => exact .inl (.lenient x)

theorem strict_of_store {v s : Scalar} (h : Buffer.packedStorage.store v = .ok s) :
    ∃ x, s = .strict x := by
  obtain ⟨x, -, h⟩ := bind_eq_ok_iff.mp h
  cases h
  exact ⟨x, rfl⟩

theorem strict_of_toPackedSlot {s : Scalar} (h : a.toPackedSlot = .ok s) : ∃ x, s = .strict x := by
  cases a with
  | text t =>
    rw [toPackedSlot] at h
    split at h
    · cases h; exact ⟨_, rfl⟩
    · cases h
  | scalar v => exact strict_of_store h
  | bool b => exact strict_of_store h
  | null => exact strict_of_store h
  | list | array => cases h

end Argument

end JetAlgebra
