import JetAlgebra.Proofs.ExactPowers
import JetAlgebra.Proofs.JetOperations
import JetAlgebra.Proofs.RecipePrefixes
import JetAlgebra.Proofs.TwinRecipes

/-!
# Recipes on rationals

At a rational, a recipe that succeeds writes down rationals, as many as the order asks for, and
it succeeds for every lower order as well, with the first ones of them
(`JetFunction.recipe_rat`).  That they are rationals holds for all arguments: a base or an index
that is no rational and no plain number makes the recipe fail.

Powers with a positive exponent are not prefixes of each other by the way they are computed,
which starts from the lowest power that is needed; there it is the exact value that counts.
-/
namespace JetAlgebra
open Arithmetic Scalar

namespace Recipe

/-- A recipe with rationals, as the code has it. -/
def ofRat : Recipe Rat → Recipe Scalar
  | .constant c => .constant (.rat c)
  | .compose f => .compose (Jet.ofRat f)

/-- The derivatives up to an order. -/
def upTo (k : Nat) : Recipe Rat → Recipe Rat
  | .constant c => .constant c
  | .compose f => .compose (f.take (k + 1))

/-- Whether there are all derivatives up to an order, and no more. -/
def Reaches (o : Nat) : Recipe Rat → Prop
  | .constant _ => True
  | .compose f => f.length = o + 1

theorem upTo_of_reaches {r : Recipe Rat} {o : Nat} (h : r.Reaches o) : r.upTo o = r := by
  cases r with
  | constant c => rfl
  | compose f => exact congrArg compose (List.take_of_length_le (Nat.le_of_eq h))

theorem upTo_upTo (r : Recipe Rat) {k o : Nat} (hk : k ≤ o) : (r.upTo o).upTo k = r.upTo k := by
  cases r with
  | constant c => rfl
  | compose f => exact congrArg compose (by rw [List.take_take, Nat.min_eq_left (by omega)])

theorem reaches_upTo {r : Recipe Rat} {k o : Nat} (h : r.Reaches o) (hk : k ≤ o) :
    (r.upTo k).Reaches k := by
  cases r with
  | constant c => trivial
  | compose f =>
    have length : f.length = o + 1 := h
    show (f.take (k + 1)).length = k + 1
    rw [List.length_take, length, Nat.min_eq_left (by omega)]

/-- **The recipe `r` is what a run gives up to order `o`**, and what it starts with is what the
run gives for a lower order. -/
structure IsStable (run : Nat → Except ArithmeticFault (Recipe Scalar)) (o : Nat)
    (r : Recipe Rat) : Prop where
  reaches : r.Reaches o
  shorter : ∀ k ≤ o, run k = .ok (r.upTo k).ofRat

namespace IsStable
variable {run : Nat → Except ArithmeticFault (Recipe Scalar)} {o : Nat} {r : Recipe Rat}
  (h : IsStable run o r)
include h

theorem run_eq : run o = .ok r.ofRat := by
  rw [h.shorter o (Nat.le_refl o), upTo_of_reaches h.reaches]

theorem upTo {k : Nat} (hk : k ≤ o) : IsStable run k (r.upTo k) where
  reaches := reaches_upTo h.reaches hk
  shorter l hl := by rw [upTo_upTo r hl]; exact h.shorter l (hl.trans hk)

end IsStable

end Recipe

/-! ## Lists of rationals -/

theorem exists_ofRat {l l' : List Scalar} (h : List.Forall₂ SameRational l l') :
    ∃ qs : List Rat, l = Jet.ofRat qs := by
  induction h with
  | nil => exact ⟨[], rfl⟩
  | cons h _ ih =>
    obtain ⟨q⟩ := h
    obtain ⟨qs, rfl⟩ := ih
    exact ⟨q :: qs, rfl⟩

/-- A recipe of which shorter runs are prefixes, and which writes down rationals. -/
theorem recipe_of_hasPrefixes {run : Nat → Except ArithmeticFault (List Scalar)}
    (prefixes : HasPrefixes 1 run) {o : Nat}
    (rational : Alike (List.Forall₂ SameRational) (run o) (run o)) {R : Recipe Scalar}
    (h : (run o >>= fun l => .ok (.compose l)) = .ok R) :
    ∃ r, Recipe.IsStable (fun k => run k >>= fun l => .ok (.compose l)) o r := by
  obtain ⟨l, hl, h⟩ := bind_eq_ok_iff.mp h
  cases h
  obtain ⟨_, _, same⟩ := rational.cases_ok hl
  obtain ⟨qs, rfl⟩ := exists_ofRat same
  obtain ⟨length, shorter⟩ := prefixes o _ hl
  refine ⟨.compose qs, ?_, fun k hk => ?_⟩
  · rw [List.length_map, Nat.add_comm] at length
    exact length
  · refine bind_eq_ok (shorter k hk) ?_
    rw [Recipe.upTo, Recipe.ofRat, Jet.ofRat, Jet.ofRat, List.map_take, Nat.add_comm]

/-! ## Arguments that a rational goes along with -/

/-- Nothing but rationals and plain numbers is added to a rational. -/
theorem twin_of_add {q : Rat} {a v : Scalar} (h : Arithmetic.add (rat q) a = .ok v) :
    Twin SameRational a a := by
  cases a with
  | int n => exact .plain (.int n)
  | strict x => exact .plain (.strict x)
  | lenient x => exact .plain (.lenient x)
  | rat p => exact .element ⟨p⟩
  | unset | real x | complex => cases h

/-- A rational is raised to no power of another kind, and the reciprocal of a number is of the
kind of that number. -/
theorem twin_of_pow {q : Rat} {n v w : Scalar} (hv : Arithmetic.div Outer.one n = .ok v)
    (h : Arithmetic.pow (rat q) v = .ok w) : Twin SameRational n n := by
  cases n with
  | int n => exact .plain (.int n)
  | strict x => exact .plain (.strict x)
  | lenient x => exact .plain (.lenient x)
  | rat p => exact .element ⟨p⟩
  | unset => cases hv
  | real x => cases hv; cases h
  | complex => cases hv; cases h

theorem isPlain_of_equals {a : Argument} {n : Int} (h : a.equals n = true) :
    a.toScalar.IsPlain := by
  rw [Argument.equals] at h
  cases hs : a.toScalar with
  | int m => exact .int m
  | strict x => exact .strict x
  | lenient x => exact .lenient x
  | unset | real x | rat q | complex => simp [hs] at h

theorem twin_of_root {index : Argument} {x : Rat} {o : Nat} {l : List Scalar}
    (h : Outer.root index.rootKind index.toScalar (rat x) o = .ok l) :
    Twin SameRational index.toScalar index.toScalar := by
  by_cases square : index.equals 2 = true
  · exact .plain (isPlain_of_equals square)
  by_cases cube : index.equals 3 = true
  · exact .plain (isPlain_of_equals cube)
  have kind : index.rootKind = .other := by
    rw [Argument.rootKind, if_neg square, if_neg cube]
  rw [kind] at h
  obtain ⟨start, hs, -⟩ := bind_eq_ok_iff.mp h
  obtain ⟨v, hv, hs⟩ := bind_eq_ok_iff.mp hs
  obtain ⟨s, hp, -⟩ := bind_eq_ok_iff.mp hs
  exact twin_of_pow hv hp

/-! ## Recipes of functions -/

namespace JetFunction

/-- A recipe that is the composition with exact powers. -/
theorem recipe_positivePower {n : Nat} (hn : n ≠ 0) (x : Rat) (o : Nat) :
    ∃ r, Recipe.IsStable (Outer.integerPower n (rat x)) o r := by
  refine ⟨.compose (Outer.powerDerivatives n x o), ?_, fun k hk => ?_⟩
  · rw [Recipe.Reaches, Outer.powerDerivatives, List.length_map, List.length_range]
  · have shorter : (Outer.powerDerivatives n x o).take (k + 1) = Outer.powerDerivatives n x k := by
      rw [Outer.powerDerivatives, Outer.powerDerivatives, ← List.map_take, List.take_range,
        Nat.min_eq_left (by omega)]
    rw [isExactField_rat.integerPower hn, Recipe.upTo, shorter]
    rfl

theorem recipe_negativePower {n : Int} (hn : n < 0) (x : Rat) {o : Nat} {R : Recipe Scalar}
    (h : Outer.integerPower n (rat x) o = .ok R) :
    ∃ r, Recipe.IsStable (Outer.integerPower n (rat x)) o r := by
  have run : ∀ k, Outer.integerPower n (rat x) k =
      ((Outer.negativePowers (-n).toNat (rat x) k >>= Outer.scalePowers (ofInt n)) >>=
        fun l => .ok (.compose l)) := by
    intro k
    simp only [Outer.integerPower, if_neg hn.ne, if_neg hn.not_gt, isExactField_rat.zeroLike,
      bind_assoc]
    rfl
  rw [funext run]
  rw [run] at h
  refine recipe_of_hasPrefixes (Outer.hasPrefixes_scalePowers
    (Outer.hasPrefixes_negativePowers _ (rat x)) (ofInt n)) ?_ h
  exact (twins_rational.negativePowers _ ⟨x⟩ o).bind fun _ _ hp =>
    twins_rational.scalePowers (Twins.ofInt n) hp

theorem recipe_power (n : Int) (x : Rat) {o : Nat} {R : Recipe Scalar}
    (h : Outer.integerPower n (rat x) o = .ok R) :
    ∃ r, Recipe.IsStable (Outer.integerPower n (rat x)) o r := by
  rcases lt_trichotomy n 0 with negative | rfl | positive
  · exact recipe_negativePower negative x h
  · have constant : ∀ k, Outer.integerPower 0 (rat x) k = .ok (.constant (rat 1)) :=
      fun _ => bind_eq_ok (isExactField_rat.oneLike x) rfl
    exact ⟨.constant 1, trivial, fun k _ => constant k⟩
  · obtain ⟨m, rfl⟩ := Int.eq_ofNat_of_zero_le positive.le
    exact recipe_positivePower (by omega) x o

theorem alike_basePower {base : Argument} {x : Rat} {o : Nat} {l : List Scalar}
    (h : base.basePower (rat x) o = .ok l) :
    Alike (List.Forall₂ SameRational) (base.basePower (rat x) o) (base.basePower (rat x) o) := by
  rw [Argument.basePower] at h ⊢
  split at h
  · next zero => rw [if_pos zero]; exact twins_rational.zeroPower ⟨x⟩ o
  · next other =>
    obtain ⟨a, ha, h⟩ := bind_eq_ok_iff.mp h
    obtain ⟨zero, hz, h⟩ := bind_eq_ok_iff.mp h
    obtain ⟨sum, hs, -⟩ := bind_eq_ok_iff.mp h
    cases hz
    rw [if_neg other, ha]
    exact twins_rational.basePower (twin_of_add hs) ⟨x⟩ o

theorem hasPrefixes_basePower (base : Argument) (x : Scalar) : HasPrefixes 1 (base.basePower x) :=
  .ite (Outer.hasPrefixes_zeroPower x) (.bind fun a => Outer.hasPrefixes_basePower a x)

/-- **At a rational, shorter recipes are prefixes** of longer ones, and all have rationals. -/
theorem recipe_rat (f : JetFunction) (x : Rat) {o : Nat} {R : Recipe Scalar}
    (h : f.recipe (rat x) o = .ok R) :
    ∃ r, Recipe.IsStable (f.recipe (rat x)) o r := by
  cases f with
  | power n => exact recipe_power n x h
  | elementary f =>
    exact recipe_of_hasPrefixes (hasPrefixes_derivativesOf f (rat x))
      (twins_rational.derivativesOf f ⟨x⟩ o) h
  | root index =>
    obtain ⟨l, hl, -⟩ := bind_eq_ok_iff.mp h
    exact recipe_of_hasPrefixes (Outer.hasPrefixes_root index.rootKind index.toScalar (rat x))
      (twins_rational.root index.rootKind (twin_of_root hl) ⟨x⟩ o) h
  | scalarPower base =>
    obtain ⟨l, hl, -⟩ := bind_eq_ok_iff.mp h
    exact recipe_of_hasPrefixes (hasPrefixes_basePower base (rat x)) (alike_basePower hl) h

end JetFunction

end JetAlgebra
