import JetAlgebra.Arithmetic
import JetAlgebra.Proofs.Outcome

/-!
# Programs on one list

A program that keeps its numbers in one list reads and overwrites it at places that it computes.
`InPlace E α` are such programs.  Run on a list, a program ends with a result and the list that
it leaves, or with a fault, and what it read or wrote up to there is known (`Footprint`).

That a program succeeds does not say that it used its list properly: a negative place is read from
the end, and what is written beyond the end is lost.  `StaysInside length` says that all places
are those of a list of that length, and it holds of a program that is put together from
programs of which it holds.

A loop returns for each iteration the list that it started from, so what holds at the start of
every iteration can be said of what the loop returns: `iterate_eq_ok`.
-/
namespace JetAlgebra
open Arithmetic

/-- **What a program does with its list**: the places that it reads or writes, and its result with
the list that it leaves. -/
structure Footprint (E α : Type) where
  places : List Int
  outcome : Except ArithmeticFault (α × List E)

/-- **A program on one list.** -/
def InPlace (E α : Type) : Type := List E → Footprint E α

/-- An iteration of a loop: its number, the list that it started from and its result. -/
structure Iteration (E α : Type) where
  number : Nat
  before : List E
  result : α

namespace InPlace
variable {E α β : Type}

instance : Monad (InPlace E) where
  pure a := fun p => ⟨[], .ok (a, p)⟩
  bind m f := fun p =>
    match (m p).outcome with
    | .ok (a, q) => ⟨(m p).places ++ (f a q).places, (f a q).outcome⟩
    | .error fault => ⟨(m p).places, .error fault⟩

/-- A computation that has nothing to do with the list. -/
def compute (x : Except ArithmeticFault α) : InPlace E α := fun p => ⟨[], do return (← x, p)⟩

/-- Reads a place; a negative one counts from the end. -/
def read (i : Int) : InPlace E E := fun p => ⟨[i], do return (← slot p i, p)⟩

/-- Overwrites a place. -/
def write (i : Nat) (x : E) : InPlace E Unit := fun p => ⟨[(i : Int)], .ok ((), p.set i x)⟩

/-- The list as it is, for the record; nothing is computed from it. -/
def snapshot : InPlace E (List E) := fun p => ⟨[], .ok (p, p)⟩

/-- **A loop**: `count` iterations from number `n` on. -/
def iterate (step : Nat → InPlace E α) : (count n : Nat) → InPlace E (List (Iteration E α))
  | 0, _ => return []
  | count + 1, n => do
    let before ← snapshot
    let result ← step n
    return ⟨n, before, result⟩ :: (← iterate step count (n + 1))

/-! ## How a program ends -/

@[simp] theorem outcome_pure (a : α) (p : List E) :
    ((pure a : InPlace E α) p).outcome = pure (a, p) := rfl

@[simp] theorem outcome_compute (x : Except ArithmeticFault α) (p : List E) :
    (compute x p).outcome = x >>= fun a => pure (a, p) := rfl

@[simp] theorem outcome_read (i : Int) (p : List E) :
    (read i p).outcome = slot p i >>= fun x => pure (x, p) := rfl

@[simp] theorem outcome_write (i : Nat) (x : E) (p : List E) :
    (write i x p).outcome = pure ((), p.set i x) := rfl

@[simp] theorem outcome_snapshot (p : List E) :
    ((snapshot : InPlace E (List E)) p).outcome = pure (p, p) := rfl

/-- A program goes on from the list that the first part leaves. -/
@[simp] theorem outcome_bind (m : InPlace E α) (f : α → InPlace E β) (p : List E) :
    ((m >>= f) p).outcome = (m p).outcome >>= fun r => (f r.1 r.2).outcome := by
  show (match (m p).outcome with
    | .ok (a, q) => (⟨(m p).places ++ (f a q).places, (f a q).outcome⟩ : Footprint E β)
    | .error fault => ⟨(m p).places, .error fault⟩).outcome = _
  cases (m p).outcome <;> rfl

/-- **A loop along an invariant**: if every iteration keeps it and gives a known value, the loop
runs through, the invariant holds of every list that an iteration starts from, and the results
are the values. -/
theorem iterate_eq_ok {step : Nat → InPlace E α} (inv : Nat → List E → Prop) (value : Nat → α)
    (bound : Nat) (h : ∀ n p, n < bound → inv n p → ∃ q, (step n p).outcome = .ok (value n, q) ∧
      inv (n + 1) q) (count : Nat) : ∀ {n : Nat} {p : List E}, n + count ≤ bound → inv n p →
    ∃ iterations q, (iterate step count n p).outcome = .ok (iterations, q) ∧
      iterations.map Iteration.number = List.range' n count ∧
      ∀ i ∈ iterations, inv i.number i.before ∧ i.result = value i.number := by
  induction count with
  | zero => exact fun {_ p} _ _ => ⟨[], p, rfl, rfl, fun _ hi => nomatch hi⟩
  | succ count ih =>
    intro n p hn hp
    obtain ⟨q, ran, hq⟩ := h n p (by omega) hp
    obtain ⟨iterations, last, rest, numbers, all⟩ := ih (by omega) hq
    refine ⟨⟨n, p, value n⟩ :: iterations, last, ?_, ?_, ?_⟩
    · rw [iterate, outcome_bind]
      refine bind_eq_ok (outcome_snapshot p) ?_
      rw [outcome_bind]
      refine bind_eq_ok ran ?_
      rw [outcome_bind]
      exact bind_eq_ok rest rfl
    · rw [List.map_cons, numbers, List.range'_succ]
    · rintro i (_ | ⟨_, hi⟩)
      · exact ⟨hp, rfl⟩
      · exact all i hi

/-! ## Where a program reads and writes -/

theorem mem_places_bind {m : InPlace E α} {f : α → InPlace E β} {p : List E} {i : Int}
    (h : i ∈ ((m >>= f) p).places) : i ∈ (m p).places ∨
      ∃ a q, (m p).outcome = .ok (a, q) ∧ i ∈ (f a q).places := by
  replace h : i ∈ (match (m p).outcome with
    | .ok (a, q) => (⟨(m p).places ++ (f a q).places, (f a q).outcome⟩ : Footprint E β)
    | .error fault => ⟨(m p).places, .error fault⟩).places := h
  split at h
  · exact (List.mem_append.mp h).imp_right fun h => ⟨_, _, ‹_›, h⟩
  · exact .inl h

/-- **A program that stays inside its list**, of the given length: all places that it reads or
writes are there, whether it succeeds or not, and it leaves a list of that length. -/
structure StaysInside (length : Nat) (m : InPlace E α) : Prop where
  inside : ∀ {p : List E}, p.length = length → ∀ i ∈ (m p).places, 0 ≤ i ∧ i < length
  keeps : ∀ {p q : List E} {a : α}, p.length = length → (m p).outcome = .ok (a, q) →
    q.length = length

namespace StaysInside
variable {length : Nat}

theorem pure (a : α) : StaysInside length (Pure.pure a : InPlace E α) where
  inside _ _ hi := nomatch hi
  keeps hp h := by cases h; exact hp

theorem compute (x : Except ArithmeticFault α) :
    StaysInside length (InPlace.compute x : InPlace E α) where
  inside _ _ hi := nomatch hi
  keeps hp h := by
    obtain ⟨a, -, h⟩ := bind_eq_ok_iff.mp h
    cases h
    exact hp

theorem snapshot : StaysInside length (InPlace.snapshot : InPlace E (List E)) where
  inside _ _ hi := nomatch hi
  keeps hp h := by cases h; exact hp

theorem read {i : Int} (h : 0 ≤ i ∧ i < length) :
    StaysInside length (InPlace.read i : InPlace E E) where
  inside _ j hj := by rwa [List.mem_singleton.mp hj]
  keeps hp h := by
    obtain ⟨x, -, h⟩ := bind_eq_ok_iff.mp h
    cases h
    exact hp

theorem write {i : Nat} (h : i < length) (x : E) : StaysInside length (InPlace.write i x) where
  inside _ j hj := by
    rw [List.mem_singleton.mp hj]
    omega
  keeps hp h := by
    cases h
    rwa [List.length_set]

theorem bind {m : InPlace E α} {f : α → InPlace E β} (hm : StaysInside length m)
    (hf : ∀ a, StaysInside length (f a)) : StaysInside length (m >>= f) where
  inside hp i hi := by
    rcases mem_places_bind hi with hi | ⟨a, q, ran, hi⟩
    · exact hm.inside hp i hi
    · exact (hf a).inside (hm.keeps hp ran) i hi
  keeps hp h := by
    rw [outcome_bind] at h
    obtain ⟨⟨a, q⟩, ran, h⟩ := bind_eq_ok_iff.mp h
    exact (hf a).keeps (hm.keeps hp ran) h

theorem ite {c : Prop} [Decidable c] {m m' : InPlace E α} (h : c → StaysInside length m)
    (h' : ¬ c → StaysInside length m') : StaysInside length (if c then m else m') := by
  split
  · exact h ‹_›
  · exact h' ‹_›

/-- A loop stays inside if every iteration does. -/
theorem iterate {step : Nat → InPlace E α} (count : Nat) : ∀ {n : Nat},
    (∀ i < n + count, StaysInside length (step i)) →
      StaysInside length (InPlace.iterate step count n) := by
  induction count with
  | zero => exact fun _ => .pure _
  | succ count ih =>
    intro n h
    exact .bind .snapshot fun _ => .bind (h n (by omega)) fun _ =>
      .bind (ih fun i hi => h i (by omega)) fun _ => .pure _

end StaysInside

end InPlace

end JetAlgebra
