import JetAlgebra.Proofs.TaylorValue

/-!
# Computations with a known expansion

`HasExpansion r F` says that the computation `r` succeeds, with an exact jet whose expansion
is `F`.  Every operation on jets is one on expansions, so the expansion of a composite
computation is that of its formula, in a commutative ring where truncation is a homomorphism.

Only at the end is a polynomial recovered from what is left of it, and then it must not have
had monomials beyond the jet: `HasExpansion.taylor`.
-/
namespace JetAlgebra
open Arithmetic Tables Exponent MvPolynomial

variable {K E : Type} [Field K] {p o : Nat}

/-- **A computation of an exact jet** with a given expansion. -/
def HasExpansion (lift : K → E) (r : Except ArithmeticFault (Jet E)) (F : Expansion p o K) : Prop :=
  ∃ a : List K, a.length = (complete p o).size ∧ r = .ok (a.map lift) ∧ expansion p o a = F

namespace HasExpansion
variable {lift : K → E} {x y : Except ArithmeticFault (Jet E)} {F G : Expansion p o K}

/-- The constant jet. -/
theorem constant [CharZero K] (c : K) :
    HasExpansion lift (.ok ((c :: List.replicate ((complete p o).size - 1) 0).map lift))
      (algebraMap K (Expansion p o K) c) :=
  ⟨_, length_constant p o c 0, rfl, expansion_constant p o c _⟩

variable [Arithmetic E] (exact : IsExactField lift)
include exact

theorem add (hx : HasExpansion lift x F) (hy : HasExpansion lift y G) :
    HasExpansion lift (do Jet.add (← x) (← y)) (F + G) := by
  obtain ⟨a, ha, rfl, rfl⟩ := hx
  obtain ⟨b, hb, rfl, rfl⟩ := hy
  refine ⟨List.zipWith (· + ·) a b, ?_, zipEach_map exact.add a b,
    expansion_add (ha.trans hb.symm)⟩
  rw [List.length_zipWith, ha, hb, Nat.min_self]

theorem sub (hx : HasExpansion lift x F) (hy : HasExpansion lift y G) :
    HasExpansion lift (do Jet.sub (← x) (← y)) (F - G) := by
  obtain ⟨a, ha, rfl, rfl⟩ := hx
  obtain ⟨b, hb, rfl, rfl⟩ := hy
  refine ⟨List.zipWith (· - ·) a b, ?_, zipEach_map exact.sub a b,
    expansion_sub (ha.trans hb.symm)⟩
  rw [List.length_zipWith, ha, hb, Nat.min_self]

/-- A jet times a number. -/
theorem scaleBy {a : List K} (ha : a.length = (complete p o).size) (c : K) :
    HasExpansion lift (Jet.scaleBy (lift c) (a.map lift)) (c • expansion p o a) := by
  refine ⟨a.map (· * c), by rw [List.length_map, ha], ?_, expansion_scale c a⟩
  clear ha
  induction a with
  | nil => rfl
  | cons x a ih =>
    rw [Jet.scaleBy, List.map_cons, List.mapM_cons]
    exact bind_eq_ok (exact.mul _ _) (bind_eq_ok ih rfl)

/-- What a list of jets times numbers adds to a jet. -/
theorem addScaled {terms : List (K × List K)} (h : ∀ t ∈ terms, t.2.length = (complete p o).size)
    (hx : HasExpansion lift x F) :
    HasExpansion lift (do Jet.addScaled (← x) (terms.map fun t => (lift t.1, t.2.map lift)))
      (F + (terms.map fun t => t.1 • expansion p o t.2).sum) := by
  induction terms generalizing x F with
  | nil =>
    rw [List.map_nil, List.map_nil, List.sum_nil, add_zero]
    obtain ⟨a, ha, rfl, he⟩ := hx
    exact ⟨a, ha, rfl, he⟩
  | cons t terms ih =>
    obtain ⟨ht, h⟩ := List.forall_mem_cons.mp h
    rw [List.map_cons, List.map_cons, List.sum_cons, ← add_assoc]
    have rest := ih h (hx.add exact (scaleBy exact ht t.1))
    simp only [bind_assoc] at rest
    exact rest

/-- **A linear combination** of at least one jet. -/
theorem linearCombination {terms : List (K × List K)} (hne : terms ≠ [])
    (h : ∀ t ∈ terms, t.2.length = (complete p o).size) :
    HasExpansion lift (Jet.linearCombination (terms.map fun t => (lift t.1, t.2.map lift)))
      (terms.map fun t => t.1 • expansion p o t.2).sum := by
  obtain ⟨t, terms, rfl⟩ := List.exists_cons_of_ne_nil hne
  obtain ⟨ht, h⟩ := List.forall_mem_cons.mp h
  exact (scaleBy exact ht t.1).addScaled exact h

variable [CharZero K]

theorem mul (hx : HasExpansion lift x F) (hy : HasExpansion lift y G) :
    HasExpansion lift (do Jet.mul (complete p o).calculus (← x) (← y)) (F * G) := by
  obtain ⟨a, ha, rfl, rfl⟩ := hx
  obtain ⟨b, hb, rfl, rfl⟩ := hy
  exact ⟨_, length_mulExact p o a b, exact.mul_complete ha hb, expansion_mulExact a b⟩

theorem powInt (hx : HasExpansion lift x F) (n : Nat) :
    HasExpansion lift (do Jet.powInt (complete p o).calculus .faithful (← x) n) (F ^ n) := by
  obtain ⟨a, ha, rfl, rfl⟩ := hx
  exact ⟨_, length_powerExact p o a n, exact.powInt_complete ha n, expansion_powerExact a n⟩

/-- **The value of the Taylor expansion**, if the polynomial has no monomials that the jet has
no slot for. -/
theorem taylor {P : MvPolynomial Nat K} (hx : HasExpansion lift x (truncated p o P))
    (hP : ∀ n, ¬ Fits p o n → coeff n P = 0) {d : List K} (hd : d.length = p) :
    ∃ r, x = .ok r ∧ Jet.taylor (complete p o).derivatives r (d.map lift) =
      .ok (lift (eval (d.getD · 0) P)) := by
  obtain ⟨a, ha, rfl, he⟩ := hx
  have same : jetPolynomial p o a = P :=
    eq_of_truncated_eq (fun n hn => coeff_jetPolynomial_of_not_fits hn a) hP he
  exact ⟨_, rfl, by rw [exact.taylor_complete ha hd, same]⟩

end HasExpansion

end JetAlgebra
