import JetAlgebra.Proofs.ExactElements
import JetAlgebra.Proofs.RecipePrefixes

/-!
# What a sweep computes

A differential rule makes the next polynomial of a sequence from the one before, by the
derivative times a quadratic and a multiple of the variable times the polynomial.  Along such a
sequence each polynomial has powers of one parity only, so two consecutive ones fit into one
list, and that is how the recurrences keep them.

`Alternates d P` says that `P` has the parity of `d` and no powers beyond, and `Carries p P d`
that its coefficients stand in the list `p`.  The one difficulty is that a sweep overwrites the
list while it reads it: going down, it needs the old coefficients of the other parity below the
place where it is, and those are still there (`sweep_eq_ok`).  So a sweep that starts from the
new leading coefficient evaluates the next polynomial and leaves a list that carries it
(`advance_eq_ok`).
-/
namespace JetAlgebra.Outer
open Arithmetic Polynomial

/-! ## Differential rules -/

/-- How the next polynomial of a sequence comes from the one before: it is
`(constant + square * X^2) * P' + factor n * X * P`. -/
structure DifferentialRule where
  constant : Int
  square : Int
  factor : Int → Int

section Rule
variable {K : Type} [CommRing K] (rule : DifferentialRule)

/-- The polynomial after `P`, which is number `n`. -/
noncomputable def DifferentialRule.next (n : Int) (P : K[X]) : K[X] :=
  (C (rule.constant : K) + C (rule.square : K) * X ^ 2) * derivative P +
    C (rule.factor n : K) * X * P

theorem DifferentialRule.coeff_next_zero (n : Int) (P : K[X]) :
    (rule.next n P).coeff 0 = rule.constant * P.coeff 1 := by
  simp [next, add_mul, mul_assoc, coeff_derivative, mul_coeff_zero]

theorem DifferentialRule.coeff_next_succ (n : Int) (P : K[X]) (j : Nat) :
    (rule.next n P).coeff (j + 1) = rule.constant * (j + 2) * P.coeff (j + 2) +
      (rule.square * j + rule.factor n) * P.coeff j := by
  -- The derivative times the square has nothing at the first power.
  have shifted : (X ^ 2 * derivative P).coeff (j + 1) = j * P.coeff j := by
    cases j with
    | zero => simp [pow_two, mul_assoc, coeff_X_mul, mul_coeff_zero]
    | succ j => rw [coeff_X_pow_mul, coeff_derivative]; push_cast; ring
  rw [next, coeff_add, add_mul, coeff_add, coeff_C_mul, coeff_derivative, mul_assoc, coeff_C_mul,
    shifted, mul_assoc, coeff_C_mul, coeff_X_mul]
  push_cast
  ring

/-- A rule has the same integers in every ring. -/
theorem DifferentialRule.map_next {R : Type} [CommRing R] (f : R →+* K) (n : Int) (P : R[X]) :
    (rule.next n P).map f = rule.next n (P.map f) := by
  simp [next, derivative_map]

/-- **A polynomial with powers of one parity**, that of `d`, and none beyond `d`. -/
def Alternates (d : Nat) (P : K[X]) : Prop :=
  ∀ j, (j ≤ d → j % 2 ≠ d % 2) → P.coeff j = 0

/-- The next polynomial has the other parity. -/
theorem Alternates.next {rule : DifferentialRule} {d : Nat} {P : K[X]} (h : Alternates d P)
    (n : Int) : Alternates (d + 1) (rule.next n P) := by
  intro j hj
  cases j with
  | zero => rw [rule.coeff_next_zero, h 1 (by omega), mul_zero]
  | succ j => rw [rule.coeff_next_succ, h (j + 2) (by omega), h j (by omega), mul_zero, mul_zero,
      add_zero]

/-- Its value, from every second coefficient. -/
theorem Alternates.eval_eq {d : Nat} {P : K[X]} (h : Alternates d P) (x : K) :
    P.eval x = x ^ (d % 2) *
      ∑ i ∈ Finset.range (d / 2 + 1), P.coeff (d % 2 + 2 * i) * (x * x) ^ i := by
  have degree : P.natDegree < d + 1 := by
    rw [Nat.lt_succ_iff, natDegree_le_iff_coeff_eq_zero]
    exact fun j hj => h j (by omega)
  -- The sum grows by two powers at a time, and the coefficient of one of them is zero.
  have pairs : ∀ m, m % 2 = d % 2 → m ≤ d → ∑ j ∈ Finset.range (m + 1), P.coeff j * x ^ j =
      x ^ (d % 2) * ∑ i ∈ Finset.range (m / 2 + 1), P.coeff (d % 2 + 2 * i) * (x * x) ^ i := by
    intro m
    induction m using Nat.twoStepInduction with
    | zero =>
      intro parity _
      simp [← parity]
    | one =>
      intro parity _
      have even : P.coeff 0 = 0 := h 0 (by omega)
      simp [Finset.sum_range_succ, ← parity, even, mul_comm]
    | more m ih _ =>
      intro parity hm
      have skipped : P.coeff (m + 1) = 0 := h (m + 1) (by omega)
      have place : d % 2 + 2 * (m / 2 + 1) = m + 2 := by omega
      have half : (m + 2) / 2 = m / 2 + 1 := by omega
      rw [Finset.sum_range_succ, Finset.sum_range_succ, ih (by omega) (by omega), skipped, half,
        Finset.sum_range_succ _ (m / 2 + 1), place, mul_add, zero_mul, add_zero]
      have power : x ^ (m + 2) = x ^ (d % 2) * (x * x) ^ (m / 2 + 1) := by
        rw [← pow_two, ← pow_mul, ← pow_add, place]
      rw [power]
      ring
  rw [eval_eq_sum_range' degree, pairs d rfl le_rfl]

end Rule

/-! ## Recurrences -/

/-- **What a sweep leaves alone**: all entries that it does not go down through. -/
theorem getElem?_of_sweep {E : Type} [Arithmetic E] {r : Recurrence} {n : Int} {x2 : E} (k : Nat) :
    ∀ {v : E} {p : List E} {result : E × List E}, sweep r n x2 k v p = .ok result →
      ∀ {j : Nat}, (j < k → j % 2 ≠ k % 2) → result.2[j]? = p[j]? := by
  induction k using Nat.twoStepInduction with
  | zero | one =>
    intro v p result h j _
    obtain ⟨w, -, h⟩ := bind_eq_ok_iff.mp h
    cases h
    rfl
  | more k ih _ =>
    intro v p result h j hj
    rw [sweep_succ] at h
    obtain ⟨w, -, h⟩ := bind_eq_ok_iff.mp h
    obtain ⟨c, -, h⟩ := bind_eq_ok_iff.mp h
    rw [ih h (by omega), List.getElem?_set_ne (by omega)]

/-- **A recurrence that computes a differential rule.**  The polynomial before number `n` has the
degree `n - lag`. -/
structure Recurrence.Computes (r : Recurrence) (rule : DifferentialRule) (lag : Int) : Prop where
  leading : ∀ n, r.leading n = rule.square * (n - lag) + rule.factor n
  above : ∀ n k, r.above n k = rule.constant * (k - 1)
  below : ∀ n k, r.below n k = rule.square * (k - 3) + rule.factor n
  negated : rule.constant = if r.negated then -1 else 1

/-- The coefficients of a polynomial stand in a list, up to degree `d` at every second place. -/
def Carries {K E : Type} [CommRing K] (lift : K → E) (p : List E) (P : K[X]) (d : Nat) : Prop :=
  d < p.length ∧ ∀ j ≤ d, j % 2 = d % 2 → p[j]? = some (lift (P.coeff j))

section Sweeps
variable {K E : Type} [CommRing K] [Arithmetic E] {lift : K → E} (exact : IsExactRing lift)

omit [Arithmetic E] in
theorem slot_eq_ok {p : List E} {i : Int} {j : Nat} {v : E} (hi : i = j) (h : p[j]? = some v) :
    slot p i = .ok v := by
  rw [slot, hi, entryAt?_natCast, h]

include exact

theorem horner_eq_ok {p : List E} {k : Nat} {c : K} (h : p[k]? = some (lift c)) (y v : K) :
    horner (lift y) (lift v) p k = .ok (lift (v * y + c)) :=
  bind_eq_ok (exact.mul v y) (bind_eq_ok (slot_eq_ok rfl h) (exact.add _ _))

variable {r : Recurrence} {rule : DifferentialRule} {lag : Int} (computes : r.Computes rule lag)
include computes

/-- **A new coefficient** comes from its two neighbours among the old ones. -/
theorem coefficient_eq_ok {n : Int} {k : Nat} {p : List E} {P : K[X]}
    (old : ∀ j < k + 2, j % 2 ≠ k % 2 → p[j]? = some (lift (P.coeff j))) :
    r.coefficient n k p = .ok (lift ((rule.next n P).coeff k)) := by
  rw [Recurrence.coefficient]
  cases k with
  | zero =>
    have first : slot p 1 = .ok (lift (P.coeff 1)) :=
      slot_eq_ok (j := 1) rfl (old 1 (by omega) (by omega))
    rw [if_pos rfl, Recurrence.constant, first, rule.coeff_next_zero, computes.negated]
    show (if r.negated then neg (lift (P.coeff 1)) else .ok (lift (P.coeff 1))) = _
    split
    · rw [exact.neg, Int.cast_neg, Int.cast_one, neg_one_mul]
    · rw [Int.cast_one, one_mul]
  | succ j =>
    have higher := slot_eq_ok (i := ((j + 1 : Nat) : Int) + 2 - 1) (j := j + 2)
      (by push_cast; ring) (old (j + 2) (by omega) (by omega))
    have lower := slot_eq_ok (i := ((j + 1 : Nat) : Int) + 2 - 3) (j := j)
      (by push_cast; ring) (old j (by omega) (by omega))
    rw [if_neg (Nat.succ_ne_zero j)]
    refine bind_eq_ok higher (bind_eq_ok (exact.scale _ _)
      (bind_eq_ok lower (bind_eq_ok (exact.scale _ _) ?_)))
    rw [exact.add, rule.coeff_next_succ, computes.above, computes.below]
    push_cast
    ring_nf

/-- **A sweep** replaces the old coefficients by the new ones, and adds up every second new one
by Horner's rule.  What it needs of the old ones is still there when it gets to it. -/
theorem sweep_eq_ok {n : Int} {y : K} {P : K[X]} (k : Nat) : ∀ {p : List E} (v : K),
    p[k]? = some (lift ((rule.next n P).coeff k)) →
    (∀ j < k, j % 2 ≠ k % 2 → p[j]? = some (lift (P.coeff j))) →
    ∃ q, sweep r n (lift y) k (lift v) p = .ok (lift (v * y ^ (k / 2 + 1) +
        ∑ i ∈ Finset.range (k / 2 + 1), (rule.next n P).coeff (k % 2 + 2 * i) * y ^ i), q) ∧
      ∀ j ≤ k, j % 2 = k % 2 → q[j]? = some (lift ((rule.next n P).coeff j)) := by
  induction k using Nat.twoStepInduction with
  | zero =>
    intro p v top _
    refine ⟨p, ?_, fun j hj _ => ?_⟩
    · rw [sweep, horner_eq_ok exact top]
      simp [bind, Except.bind, pure, Except.pure]
    · rw [Nat.le_zero.mp hj, top]
  | one =>
    intro p v top _
    refine ⟨p, ?_, fun j hj parity => ?_⟩
    · rw [sweep, horner_eq_ok exact top]
      simp [bind, Except.bind, pure, Except.pure]
    · rw [show j = 1 by omega, top]
  | more k ih _ =>
    intro p v top old
    have within : k < p.length := by
      have := (List.getElem?_eq_some_iff.mp top).1
      omega
    have coefficient := coefficient_eq_ok exact computes (n := n) (k := k) (p := p) (P := P)
      fun j hj parity => old j hj (by omega)
    obtain ⟨q, run, new⟩ := ih (p := p.set k (lift ((rule.next n P).coeff k)))
      (v * y + (rule.next n P).coeff (k + 2)) (List.getElem?_set_self within) (by
        intro j hj parity
        rw [List.getElem?_set_ne (by omega)]
        exact old j (by omega) (by omega))
    have kept : q[k + 2]? = p[k + 2]? := by
      rw [getElem?_of_sweep k run (by omega), List.getElem?_set_ne (by omega)]
    refine ⟨q, ?_, fun j hj parity => ?_⟩
    · have half : (k + 2) / 2 = k / 2 + 1 := by omega
      have last : k % 2 + 2 * (k / 2 + 1) = k + 2 := by omega
      rw [sweep_succ]
      refine bind_eq_ok (horner_eq_ok exact top y v) (bind_eq_ok coefficient (run.trans ?_))
      rw [half, Finset.sum_range_succ _ (k / 2 + 1), Nat.add_mod_right, last]
      ring_nf
    · by_cases here : j = k + 2
      · rw [here, kept, top]
      · exact new j (by omega) (by omega)

/-- **The next polynomial**: from a list that carries `P` and the new leading coefficient, its
value and a list that carries it. -/
theorem advance_eq_ok {n d : Nat} {P : K[X]} {p : List E} (alternates : Alternates d P)
    (carried : Carries lift p P d) (within : d + 1 < p.length) (parity : n % 2 = d % 2) (x : K) :
    ∃ q, advance r n (d + 1) (lift x) (lift (x * x)) (lift 0)
        (lift ((rule.next n P).coeff (d + 1))) p =
          .ok (lift ((rule.next n P).eval x), q) ∧
      q.length = p.length ∧ Carries lift q (rule.next n P) (d + 1) := by
  obtain ⟨q, run, new⟩ := sweep_eq_ok exact computes (n := n) (y := x * x) (P := P)
    (d + 1) (p := p.set (d + 1) (lift ((rule.next n P).coeff (d + 1)))) 0
    (List.getElem?_set_self within) (by
      intro j hj other
      rw [List.getElem?_set_ne (by omega)]
      exact carried.2 j (by omega) (by omega))
  have length : q.length = p.length := (length_of_sweep _ run).trans List.length_set
  refine ⟨q, ?_, length, by omega, new⟩
  rw [zero_mul, zero_add] at run
  refine bind_eq_ok run ?_
  rw [(alternates.next n).eval_eq x]
  show (if n % 2 = 0 then mul (lift _) (lift x) >>= fun v => .ok (v, q) else .ok (lift _, q)) = _
  by_cases even : n % 2 = 0
  · have odd : (d + 1) % 2 = 1 := by omega
    rw [if_pos even, exact.mul, odd, pow_one]
    exact congrArg (fun v => Except.ok (lift v, q)) (mul_comm _ _)
  · have even' : (d + 1) % 2 = 0 := by omega
    rw [if_neg even, even', pow_zero, one_mul]

/-- The new leading coefficient. -/
theorem leading_eq_ok {n d : Nat} {P : K[X]} {p : List E} (alternates : Alternates d P)
    (carried : Carries lift p P d) (degree : (n : Int) - lag = d) :
    (slot p d >>= scale (r.leading n)) = .ok (lift ((rule.next n P).coeff (d + 1))) := by
  refine bind_eq_ok (slot_eq_ok rfl (carried.2 d le_rfl rfl)) ?_
  rw [exact.scale, rule.coeff_next_succ, alternates (d + 2) (by omega), mul_zero, zero_add,
    computes.leading, degree]
  push_cast
  rfl

end Sweeps

end JetAlgebra.Outer
