import JetAlgebra.Proofs.OperationRuns
import JetAlgebra.Proofs.WrappedJets

/-!
# Memory of doubles and memory of wrapped doubles

The same named lists of doubles are put into packed buffers (`Memory.packed`) and, wrapped, into
boxed ones (`Memory.wrapped`).  Reading a window gives the same jet in both, or the same fault
(`alike_read`), and storing a jet keeps the two memories the same (`alike_writeTo`).

An action on both that ends alike and leaves the same doubles behind is `ActsAlike`.
-/
namespace JetAlgebra
open Scalar

/-- A buffer of doubles that are wrapped one by one. -/
def Buffer.wrapping (xs : List Float) : Buffer := .boxed (xs.map .real)

/-- Named lists of doubles in packed buffers. -/
def Memory.packed (contents : List (String × List Float)) : Memory :=
  ⟨contents.map fun entry => (entry.1, .packed entry.2)⟩

/-- The same lists, wrapped. -/
def Memory.wrapped (contents : List (String × List Float)) : Memory :=
  ⟨contents.map fun entry => (entry.1, .wrapping entry.2)⟩

/-- What is under a name in both memories: the same doubles, or nothing. -/
inductive WrappedBuffer : Buffer → Buffer → Prop where
  | holds (xs : List Float) : WrappedBuffer (.packed xs) (.wrapping xs)
  | absent : WrappedBuffer (.sequence []) (.sequence [])

theorem lookup_map {β γ : Type} (f : β → γ) (entries : List (String × β)) (name : String) :
    (entries.map fun entry => (entry.1, f entry.2)).lookup name =
      (entries.lookup name).map f := by
  induction entries with
  | nil => rfl
  | cons entry entries ih =>
    rw [List.map_cons, List.lookup_cons, List.lookup_cons, ih]
    split <;> rfl

theorem get_packed (contents : List (String × List Float)) (name : String) :
    (Memory.packed contents).get name =
      ((contents.lookup name).map .packed).getD (.sequence []) :=
  congrArg (Option.getD · _) (lookup_map Buffer.packed contents name)

theorem get_wrapped (contents : List (String × List Float)) (name : String) :
    (Memory.wrapped contents).get name =
      ((contents.lookup name).map .wrapping).getD (.sequence []) :=
  congrArg (Option.getD · _) (lookup_map Buffer.wrapping contents name)

theorem wrappedBuffer_get (contents : List (String × List Float)) (name : String) :
    WrappedBuffer ((Memory.packed contents).get name) ((Memory.wrapped contents).get name) := by
  rw [get_packed, get_wrapped]
  cases contents.lookup name with
  | none => exact .absent
  | some xs => exact .holds xs

theorem wrappedJet_map (xs : List Float) : WrappedJet (xs.map .strict) (xs.map .real) := by
  induction xs with
  | nil => exact .nil
  | cons x xs ih => exact .cons (.strict x) ih

theorem forall₂_slice {R : Scalar → Scalar → Prop} {as bs : List Scalar}
    (h : List.Forall₂ R as bs) (start stop : Int) :
    List.Forall₂ R (slice as start stop) (slice bs start stop) := by
  rw [slice, slice, h.length_eq]
  exact List.forall₂_drop _ (List.forall₂_take _ h)

/-! ## Reading -/

namespace WrappedBuffer
variable {b b' : Buffer} (h : WrappedBuffer b b')
include h

theorem check (name : String) (offset size : Int) :
    b.check name offset size = b'.check name offset size := by
  cases h with
  | holds xs =>
    simp only [Buffer.wrapping, Buffer.check, Buffer.length, Buffer.scalars, List.length_map]
  | absent => rfl

/-- The windows hold the same jet, and there are buffers if there are windows. -/
theorem window (name : String) (offset size : Int) :
    Alike (fun x y => WrappedJet x y ∧ ∃ xs, b = .packed xs ∧ b' = .wrapping xs)
      (b.window name offset size) (b'.window name offset size) := by
  rw [Buffer.window, Buffer.window, h.check name offset size]
  cases h with
  | holds xs =>
    exact .bind_same fun _ => .ok ⟨forall₂_slice (wrappedJet_map xs) _ _, xs, rfl, rfl⟩
  | absent => exact .error _

end WrappedBuffer

/-- **What is known after a window was read** in both memories. -/
structure WrappedWindow (contents : List (String × List Float)) (w : Window)
    (a a' : Jet Scalar) : Prop where
  jet : WrappedJet a a'
  holds : ∃ xs, (Memory.packed contents).get w.buffer = .packed xs ∧
    (Memory.wrapped contents).get w.buffer = .wrapping xs

section Read
variable (k : Calculus) {contents : List (String × List Float)} {w : Window} {a a' : Jet Scalar}

theorem WrappedWindow.packed (h : WrappedWindow contents w a a') :
    Operation.storageOf (.packed contents) w = Buffer.packedStorage := by
  obtain ⟨xs, hp, -⟩ := h.holds
  rw [Operation.storageOf, hp]
  rfl

theorem WrappedWindow.boxed (h : WrappedWindow contents w a a') :
    Operation.storageOf (.wrapped contents) w = .faithful := by
  obtain ⟨xs, -, hb⟩ := h.holds
  rw [Operation.storageOf, hb]
  rfl

/-- **Reading a window** gives the same jet, or the same fault. -/
theorem alike_read (name : String) (w : Window) : Alike (WrappedWindow contents w)
    (Operation.read k (.packed contents) name w)
    (Operation.read k (.wrapped contents) name w) := by
  show Alike _ (Except.mapError OperationFault.window _) (Except.mapError OperationFault.window _)
  refine Alike.mapError ?_ _
  exact ((wrappedBuffer_get contents w.buffer).window name w.offset k.size).mono
    fun _ _ h => ⟨h.1, h.2⟩

theorem checkResult_eq (w : Window) : Operation.checkResult k (.packed contents) w =
    Operation.checkResult k (.wrapped contents) w :=
  congrArg (Except.mapError OperationFault.window)
    ((wrappedBuffer_get contents w.buffer).check "result" w.offset k.size)

theorem checkScratch_eq (w : Window) : Operation.checkScratch k (.packed contents) w =
    Operation.checkScratch k (.wrapped contents) w := by
  rw [Operation.checkScratch, Operation.checkScratch]
  generalize Memory.get (.packed contents) w.buffer = b,
    Memory.get (.wrapped contents) w.buffer = b', wrappedBuffer_get contents w.buffer = h
  cases h <;> rfl

end Read

/-! ## Storing -/

theorem set_map {β γ : Type} (f : β → γ) (entries : List (String × β)) (name : String) (x : β) :
    ((entries.map fun entry => (entry.1, f entry.2)).map fun entry =>
        if entry.1 = name then (name, f x) else entry) =
      (entries.map fun entry => if entry.1 = name then (name, x) else entry).map
        fun entry => (entry.1, f entry.2) := by
  rw [List.map_map, List.map_map]
  refine List.map_congr_left fun entry _ => ?_
  rw [Function.comp_apply, Function.comp_apply]
  split <;> rfl

theorem set_packed (contents : List (String × List Float)) (name : String) (xs : List Float) :
    (Memory.packed contents).set name (.packed xs) =
      .packed (contents.map fun entry => if entry.1 = name then (name, xs) else entry) :=
  congrArg Memory.mk (set_map Buffer.packed contents name xs)

theorem set_wrapped (contents : List (String × List Float)) (name : String) (xs : List Float) :
    (Memory.wrapped contents).set name (.wrapping xs) =
      .wrapped (contents.map fun entry => if entry.1 = name then (name, xs) else entry) :=
  congrArg Memory.mk (set_map Buffer.wrapping contents name xs)

/-- Nothing is put under a name that is not there. -/
theorem set_absent {β : Type} (f : β → Buffer) {entries : List (String × β)} {name : String}
    (h : entries.lookup name = none) (b : Buffer) :
    Memory.set ⟨entries.map fun entry => (entry.1, f entry.2)⟩ name b =
      ⟨entries.map fun entry => (entry.1, f entry.2)⟩ := by
  rw [Memory.set, List.map_map]
  refine congrArg Memory.mk (List.map_congr_left fun entry hmem => ?_)
  have other : entry.1 ≠ name := by
    have := List.lookup_eq_none_iff.mp h entry hmem
    exact fun he => bne_iff_ne.mp this he.symm
  rw [Function.comp_apply, if_neg other]

/-- Storing a jet of doubles stores the same doubles on both sides, and never fails. -/
theorem write_wrapped {values values' : Jet Scalar} (h : WrappedJet values values') :
    ∀ (xs : List Float) (position : Nat), ∃ ys : List Float,
      Buffer.writePacked xs position values = (ys, .ok ()) ∧
        Buffer.writeBoxed (xs.map .real) position values' = ys.map .real := by
  induction h with
  | nil => exact fun xs _ => ⟨xs, rfl, rfl⟩
  | cons hv _ ih =>
    intro xs position
    have step : ∀ x : Float, (xs.map Scalar.real).set position (.real x) =
        (xs.set position x).map .real := fun x => (List.map_set ..).symm
    cases hv with
    | strict x =>
      obtain ⟨ys, packed, boxed⟩ := ih (xs.set position x) (position + 1)
      exact ⟨ys, packed, by rw [Buffer.writeBoxed, step, boxed]⟩
    | lenient x =>
      obtain ⟨ys, packed, boxed⟩ := ih (xs.set position x) (position + 1)
      exact ⟨ys, packed, by rw [Buffer.writeBoxed, step, boxed]⟩

/-- **Actions that end alike** on both memories, and leave the same doubles in them. -/
def ActsAlike {α β : Type} (R : α → β → Prop) (x : Action α) (y : Action β) : Prop :=
  ∀ contents, ∃ r r' after, x.run.run (.packed contents) = (r, .packed after) ∧
    y.run.run (.wrapped contents) = (r', .wrapped after) ∧ Alike R r r'

namespace ActsAlike
variable {α β γ δ : Type} {R : α → β → Prop} {S : γ → δ → Prop}

theorem lift {x : Except OperationFault α} {y : Except OperationFault β} (h : Alike R x y) :
    ActsAlike R (ExceptT.mk (pure x)) (ExceptT.mk (pure y)) :=
  fun contents => ⟨x, y, contents, rfl, rfl, h⟩

theorem get : ActsAlike (fun m m' => ∃ contents, m = .packed contents ∧ m' = .wrapped contents)
    (get : Action Memory) (get : Action Memory) :=
  fun contents => ⟨_, _, contents, rfl, rfl, .ok ⟨contents, rfl, rfl⟩⟩

/-- **Acting in turn.**  The second action starts where the first one ended. -/
theorem bind {x : Action α} {y : Action β} {f : α → Action γ} {g : β → Action δ}
    (h : ActsAlike R x y) (hf : ∀ a b, R a b → ActsAlike S (f a) (g b)) :
    ActsAlike S (x >>= f) (y >>= g) := by
  intro contents
  obtain ⟨r, r', after, hx, hy, hr⟩ := h contents
  rw [run_bind, run_bind, hx, hy]
  cases hr with
  | ok hab => exact hf _ _ hab after
  | error fault => exact ⟨_, _, after, rfl, rfl, .error fault⟩

/-- **Storing a jet** keeps the memories the same. -/
theorem writeTo (w : Window) {values values' : Jet Scalar} (h : WrappedJet values values') :
    ActsAlike Eq (Operation.writeTo w values) (Operation.writeTo w values') := by
  intro contents
  rw [run_writeTo, run_writeTo, get_packed, get_wrapped]
  cases hl : contents.lookup w.buffer with
  | none =>
    have packed := set_absent Buffer.packed hl (.sequence [])
    have wrapped := set_absent Buffer.wrapping hl (.sequence [])
    exact ⟨_, _, contents, congrArg (Prod.mk _) packed, congrArg (Prod.mk _) wrapped, .error _⟩
  | some xs =>
    obtain ⟨ys, packed, boxed⟩ := write_wrapped h xs w.offset.toNat
    have written : (Buffer.packed xs).write w.offset.toNat values = (.packed ys, .ok ()) := by
      rw [Buffer.write, packed]
    have written' : (Buffer.wrapping xs).write w.offset.toNat values' = (.wrapping ys, .ok ()) := by
      rw [Buffer.wrapping, Buffer.write, boxed, Buffer.wrapping]
    simp only [Option.map_some, Option.getD_some, written, written', set_packed, set_wrapped]
    exact ⟨_, _, _, rfl, rfl, .ok rfl⟩

/-- **Computing a jet and storing it.** -/
theorem compute (result : Window) {f g : Memory → Except OperationFault (Jet Scalar)}
    (h : ∀ contents, Alike WrappedJet (f (.packed contents)) (g (.wrapped contents))) :
    ActsAlike Eq (Operation.compute result f) (Operation.compute result g) := by
  refine get.bind ?_
  rintro _ _ ⟨contents, rfl, rfl⟩
  exact (lift (h contents)).bind fun _ _ hv => writeTo result hv

end ActsAlike

end JetAlgebra
