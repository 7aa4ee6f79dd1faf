import JetAlgebra.Proofs.InPlace
import JetAlgebra.Proofs.Tangents

/-!
# Two polynomials in one list

The recipe of a tangent keeps the coefficients of two consecutive polynomials in one list, the
latest in the entries of one parity and the one before in the others, and puts the next
polynomial in place of the older one while it evaluates it.

`tangentInPlace` is the recipe as a program on that list, and it gives the same derivatives over
all numbers (`tangent_eq_tangentRun`).  No step of it leaves the list, whatever the numbers are
(`staysInside_tangentInPlace`).

Over exact numbers an iteration turns a list that interleaves two polynomials into one that
interleaves the next two (`IsInterleaved.step`): the entries of the latest polynomial are left
alone, those up to the new degree are overwritten, and beyond it there were zeros before.  So
at the start of every iteration the list is interleaved, and the derivatives are the polynomials
at the value: `runsInterleaved`.
-/
namespace JetAlgebra.Outer
open Arithmetic Polynomial InPlace

/-! ## The program -/

section Program
variable {E : Type} [Arithmetic E]

/-- One step of Horner's rule. -/
def hornerInPlace (x2 v : E) (k : Nat) : InPlace E E := do
  let w ← compute (mul v x2)
  let c ← read k
  compute (add w c)

/-- The new coefficient `k` of polynomial `n`. -/
def Recurrence.coefficientInPlace (r : Recurrence) (n : Int) (k : Nat) : InPlace E E :=
  if k = 0 then do
    let c ← read 1
    compute (if r.negated then neg c else .ok c)
  else do
    let higher ← read (k + 2 - 1)
    let a ← compute (scale (r.above n (k + 2)) higher)
    let lower ← read (k + 2 - 3)
    let b ← compute (scale (r.below n (k + 2)) lower)
    compute (add a b)

/-- Evaluates polynomial `n` from power `k` down, and overwrites the coefficients below. -/
def sweepInPlace (r : Recurrence) (n : Int) (x2 : E) : Nat → E → InPlace E E
  | 0, v => hornerInPlace x2 v 0
  | 1, v => hornerInPlace x2 v 1
  | k + 2, v => do
    let w ← hornerInPlace x2 v (k + 2)
    let c ← r.coefficientInPlace n k
    write k c
    sweepInPlace r n x2 k w

/-- Derivative `n` of a tangent with the value `t`. -/
def tangentIteration (s : Int) (t t2 zero : E) (n : Nat) : InPlace E E := do
  let last ← read n
  let top ← compute (scale ((tangentRecurrence s).leading n) last)
  write (n + 1) top
  let v ← sweepInPlace (tangentRecurrence s) n t2 (n + 1) zero
  compute (if n % 2 = 0 then mul v t else .ok v)

/-- **The recipe of a tangent** as a program on a list of zeros. -/
def tangentInPlace (s : Int) (t : E) (order : Nat) : InPlace E (List (Iteration E E)) :=
  if order = 0 then pure []
  else do
    let zero ← compute (zeroLike t)
    write 1 one
    let t2 ← compute (mul t t)
    iterate (tangentIteration s t t2 zero) order 1

/-- **The run** on the list that the order needs. -/
def tangentRun (s : Int) (t : E) (order : Nat) : Footprint E (List (Iteration E E)) :=
  tangentInPlace s t order (List.replicate (order + 2) (ofFloat 0.0))

/-! ## The program computes the recipe -/

theorem outcome_hornerInPlace (x2 v : E) (k : Nat) (p : List E) :
    (hornerInPlace x2 v k p).outcome = horner x2 v p k >>= fun w => pure (w, p) := by
  simp only [hornerInPlace, horner, outcome_bind, outcome_compute, outcome_read, bind_assoc,
    pure_bind]

theorem outcome_coefficientInPlace (r : Recurrence) (n : Int) (k : Nat) (p : List E) :
    (r.coefficientInPlace n k p).outcome = r.coefficient n k p >>= fun c => pure (c, p) := by
  rw [Recurrence.coefficientInPlace, Recurrence.coefficient]
  by_cases first : k = 0
  · simp only [if_pos first, Recurrence.constant, outcome_bind, outcome_compute, outcome_read,
      bind_assoc, pure_bind]
    rfl
  · simp only [if_neg first, Recurrence.lower, outcome_bind, outcome_compute, outcome_read,
      bind_assoc, pure_bind]

theorem outcome_sweepInPlace (r : Recurrence) (n : Int) (x2 : E) (k : Nat) :
    ∀ (v : E) (p : List E), (sweepInPlace r n x2 k v p).outcome = sweep r n x2 k v p := by
  induction k using Nat.twoStepInduction with
  | zero | one => exact fun v p => outcome_hornerInPlace x2 v _ p
  | more k ih _ =>
    intro v p
    simp only [sweepInPlace, sweep_succ, outcome_bind, outcome_hornerInPlace,
      outcome_coefficientInPlace, outcome_write, ih, bind_assoc, pure_bind]

theorem outcome_tangentIteration (s : Int) (t t2 zero : E) (n : Nat) (p : List E) :
    (tangentIteration s t t2 zero n p).outcome =
      tangentStep s t t2 zero (n, p) >>= fun result => pure (result.1, result.2.2) := by
  simp only [tangentIteration, tangentStep, advance_bind, outcome_bind, outcome_compute,
    outcome_read, outcome_write, outcome_sweepInPlace, bind_assoc, pure_bind]
  refine bind_congr fun last => bind_congr fun top => bind_congr fun swept => ?_
  split
  · simp only [bind_assoc, pure_bind]
  · rfl

theorem tangentFrom_eq_iterate (s : Int) (t t2 zero : E) (count : Nat) : ∀ (n : Nat) (p : List E),
    tangentFrom s t t2 zero count n p =
      (iterate (tangentIteration s t t2 zero) count n p).outcome >>= fun result =>
        pure (result.1.map Iteration.result) := by
  induction count with
  | zero => exact fun _ _ => rfl
  | succ count ih =>
    intro n p
    simp only [tangentFrom_eq] at ih
    simp only [tangentFrom_eq, trail, tangentStep, iterate, outcome_bind, outcome_snapshot,
      outcome_tangentIteration, outcome_pure, ih, bind_assoc, pure_bind, List.map_cons]

/-- **The program computes the recipe**: the value, and the results of its iterations.  It fails
where the recipe fails. -/
theorem tangent_eq_tangentRun (s : Int) (t : E) (order : Nat) : tangent s t order =
    (tangentRun s t order).outcome >>= fun result =>
      pure (t :: result.1.map Iteration.result) := by
  rw [tangent, tangentRun, tangentInPlace]
  by_cases h : order = 0
  · rw [if_pos h, if_pos h]
    rfl
  · simp only [if_neg h, outcome_bind, outcome_compute, outcome_write, tangentFrom_eq_iterate,
      bind_assoc, pure_bind]

/-! ## The program stays inside its list -/

section Places
variable {length : Nat}

theorem staysInside_horner (x2 v : E) {k : Nat} (h : k < length) :
    StaysInside length (hornerInPlace x2 v k) :=
  .bind (.compute _) fun _ => .bind (.read (by omega)) fun _ => .compute _

/-- Only coefficients other than the constant one need a place three below. -/
theorem staysInside_coefficient (r : Recurrence) (n : Int) {k : Nat} (h : k + 2 < length) :
    StaysInside length (r.coefficientInPlace n k : InPlace E E) :=
  .ite (fun _ => .bind (.read (by omega)) fun _ => .compute _) fun positive =>
    .bind (.read (by omega)) fun _ => .bind (.compute _) fun _ =>
      .bind (.read (by omega)) fun _ => .bind (.compute _) fun _ => .compute _

theorem staysInside_sweep (r : Recurrence) (n : Int) (x2 : E) (k : Nat) :
    ∀ v : E, k < length → StaysInside length (sweepInPlace r n x2 k v) := by
  induction k using Nat.twoStepInduction with
  | zero | one => exact fun v h => staysInside_horner x2 v h
  | more k ih _ =>
    intro v h
    exact .bind (staysInside_horner x2 v h) fun w => .bind (staysInside_coefficient r n h) fun c =>
      .bind (.write (by omega) c) fun _ => ih w (by omega)

theorem staysInside_tangentIteration (s : Int) (t t2 zero : E) {n : Nat} (h : n + 1 < length) :
    StaysInside length (tangentIteration s t t2 zero n) :=
  .bind (.read (by omega)) fun _ => .bind (.compute _) fun top => .bind (.write h top) fun _ =>
    .bind (staysInside_sweep _ _ t2 (n + 1) zero h) fun _ => .compute _

/-- **No place outside the list** is read or written, whatever the numbers are. -/
theorem staysInside_tangentInPlace (s : Int) (t : E) (order : Nat) :
    StaysInside (order + 2) (tangentInPlace s t order) :=
  .ite (fun _ => .pure _) fun _ => .bind (.compute _) fun zero =>
    .bind (.write (by omega) one) fun _ => .bind (.compute _) fun t2 =>
      .iterate order fun _ h => staysInside_tangentIteration s t t2 zero (by omega)

end Places

/-- A step leaves the entries of the other parity alone, and those beyond the new degree. -/
theorem getElem?_of_tangentStep {s : Int} {t t2 zero : E} {n : Nat} {p : List E}
    {result : E × Nat × List E} (h : tangentStep s t t2 zero (n, p) = .ok result) {j : Nat}
    (hj : j ≤ n + 1 → j % 2 = n % 2) : result.2.2[j]? = p[j]? := by
  obtain ⟨last, -, h⟩ := bind_eq_ok_iff.mp h
  obtain ⟨top, -, h⟩ := bind_eq_ok_iff.mp h
  obtain ⟨advanced, ha, h⟩ := bind_eq_ok_iff.mp h
  obtain ⟨v, hs⟩ := exists_sweep_of_advance ha
  cases h
  rw [getElem?_of_sweep _ hs (by omega), List.getElem?_set_ne (by omega)]

end Program

/-! ## Integer coefficients -/

section Integers
variable (K : Type) [CommRing K] (s : Int)

/-- The polynomials of a tangent have integer coefficients. -/
theorem map_tangentPolynomial (n : Nat) :
    (tangentPolynomial s n : ℤ[X]).map (Int.castRingHom K) = tangentPolynomial s n := by
  induction n with
  | zero => exact map_X _
  | succ n ih => rw [tangentPolynomial, tangentPolynomial, DifferentialRule.map_next, ih]

theorem coeff_tangentPolynomial (n j : Nat) :
    (tangentPolynomial s n : K[X]).coeff j = ((tangentPolynomial s n : ℤ[X]).coeff j : K) := by
  rw [← map_tangentPolynomial K, coeff_map, eq_intCast]

variable {K} in
theorem eval_tangentPolynomial (n : Nat) (t : K) :
    (tangentPolynomial s n).eval t = aeval t (tangentPolynomial s n : ℤ[X]) := by
  rw [← map_tangentPolynomial K, eval_map, aeval_def, algebraMap_int_eq]

variable {s} in
/-- There are no other polynomials that start and go on like those of a tangent. -/
theorem eq_tangentPolynomial {P : Nat → ℤ[X]} (first : P 0 = X)
    (next : ∀ n, P (n + 1) = (1 + C s * X ^ 2) * derivative (P n)) : P = tangentPolynomial s := by
  funext n
  induction n with
  | zero => exact first
  | succ n ih => rw [next, ih, tangentPolynomial_succ, Int.cast_id]

end Integers

/-! ## Interleaved lists -/

/-- **A polynomial in every second entry**: all entries of the parity are its coefficients, and it
has no coefficients elsewhere. -/
structure HasCoefficients {E : Type} [Arithmetic E] (p : List E) (P : ℤ[X]) (parity : Nat) :
    Prop where
  entry : ∀ j < p.length, j % 2 = parity % 2 → p[j]? = some (ofInt (P.coeff j))
  no_other : ∀ j, (j < p.length → j % 2 ≠ parity % 2) → P.coeff j = 0

/-- The polynomial two before number `n`, or zero where there is none. -/
noncomputable def secondLast (P : Nat → ℤ[X]) : Nat → ℤ[X]
  | 0 | 1 => 0
  | n + 2 => P n

/-- **The list at the start of iteration `n`** holds the polynomial before number `n` in the entries
with the parity of `n`, and the one before that in the others. -/
structure IsInterleaved {E : Type} [Arithmetic E] (P : Nat → ℤ[X]) (order n : Nat) (p : List E) :
    Prop where
  length : p.length = order + 2
  last : HasCoefficients p (P (n - 1)) n
  second_last : HasCoefficients p (secondLast P n) (n + 1)

theorem coeff_eq_zero {s : Int} {n order j : Nat} (hn : n ≤ order)
    (h : j < order + 2 → j % 2 ≠ (n + 1) % 2) : (tangentPolynomial s n : ℤ[X]).coeff j = 0 :=
  alternates_tangentPolynomial s n j fun _ => h (by omega)

theorem coeff_secondLast_eq_zero {s : Int} {n j : Nat} (h : n < j) :
    (secondLast (tangentPolynomial s) n).coeff j = 0 := by
  match n with
  | 0 | 1 => exact coeff_zero j
  | n + 2 => exact alternates_tangentPolynomial s n j (by omega)

section Exact
variable {K E : Type} [CommRing K] [Arithmetic E] {lift : K → E} (exact : IsExactRing lift)
include exact

/-- The list that the recipe starts with has one coefficient, that of the variable. -/
theorem isInterleaved_start (s : Int) (order : Nat) :
    IsInterleaved (tangentPolynomial s) order 1
      ((List.replicate (order + 2) (ofFloat 0.0)).set 1 (one : E)) := by
  have length : ((List.replicate (order + 2) (ofFloat 0.0)).set 1 (one : E)).length =
      order + 2 := by
    rw [List.length_set, List.length_replicate]
  have entries : ∀ j < order + 2,
      ((List.replicate (order + 2) (ofFloat 0.0)).set 1 (one : E))[j]? =
        some (ofInt (if j = 1 then 1 else 0)) := by
    intro j hj
    rw [List.getElem?_set, exact.ofFloat_zero, exact.one_eq, exact.ofInt]
    by_cases first : j = 1
    · subst first
      simp
    · rw [if_neg (Ne.symm first), if_neg first, List.getElem?_replicate_of_lt hj, Int.cast_zero]
  constructor
  case length => exact length
  case last =>
    constructor
    case entry =>
      intro j hj _
      rw [entries j (length ▸ hj), Nat.sub_self, tangentPolynomial, coeff_X]
      simp only [eq_comm]
    case no_other => exact fun j hj => coeff_eq_zero (Nat.zero_le order) (length ▸ hj)
  case second_last =>
    constructor
    case entry =>
      intro j hj even
      rw [entries j (length ▸ hj), if_neg (by omega)]
      rfl
    case no_other => exact fun j _ => coeff_zero j

/-- **One iteration** evaluates the next polynomial, and leaves the list interleaved. -/
theorem IsInterleaved.step {s : Int} {order n : Nat} {p : List E}
    (h : IsInterleaved (tangentPolynomial s) order (n + 1) p) (hn : n < order) (t : K) :
    ∃ q, (tangentIteration s (lift t) (lift (t * t)) (lift 0) (n + 1) p).outcome =
        .ok (lift (aeval t (tangentPolynomial s (n + 1) : ℤ[X])), q) ∧
      IsInterleaved (tangentPolynomial s) order (n + 2) q := by
  have carried : Carries lift p (tangentPolynomial s n : K[X]) (n + 1) := by
    refine ⟨by rw [h.length]; omega, fun j hj parity => ?_⟩
    rw [h.last.entry j (by rw [h.length]; omega) parity, exact.ofInt, coeff_tangentPolynomial K]
    rfl
  obtain ⟨q, run, length, carries⟩ := tangentStep_eq_ok exact s carried h.length hn t
  have kept : ∀ {j : Nat}, (j ≤ n + 2 → j % 2 = (n + 1) % 2) → q[j]? = p[j]? :=
    fun hj => getElem?_of_tangentStep run hj
  have same : p.length = q.length := h.length.trans length.symm
  have ran : (tangentIteration s (lift t) (lift (t * t)) (lift 0) (n + 1) p).outcome =
      .ok (lift (aeval t (tangentPolynomial s (n + 1) : ℤ[X])), q) := by
    rw [outcome_tangentIteration, run, eval_tangentPolynomial]
    rfl
  have last : HasCoefficients q (tangentPolynomial s (n + 1)) (n + 2) := by
    constructor
    case entry =>
      intro j hj parity
      by_cases within : j ≤ n + 2
      · rw [carries.2 j within parity, exact.ofInt, coeff_tangentPolynomial K]
      · -- Beyond its degree the new polynomial has zeros, and so had the one that it replaces.
        rw [kept fun hj => absurd hj within, h.second_last.entry j (by omega) parity,
          coeff_secondLast_eq_zero (by omega), alternates_tangentPolynomial s (n + 1) j (by omega)]
    case no_other => exact fun j hj => coeff_eq_zero hn (length ▸ hj)
  have second_last : HasCoefficients q (tangentPolynomial s n) (n + 3) := by
    constructor
    case entry =>
      intro j hj parity
      rw [kept fun _ => by omega]
      exact h.last.entry j (by omega) (by omega)
    case no_other =>
      intro j hj
      refine h.last.no_other j fun inside => ?_
      have other := hj (by omega)
      omega
  exact ⟨q, ran, length, last, second_last⟩

/-- **All iterations** start from interleaved lists. -/
theorem tangentRun_eq_ok (s : Int) (t : K) (order : Nat) :
    ∃ iterations q, (tangentRun s (lift t) order).outcome = .ok (iterations, q) ∧
      iterations.map Iteration.number = List.range' 1 order ∧
      ∀ i ∈ iterations, IsInterleaved (tangentPolynomial s) order i.number i.before := by
  by_cases h : order = 0
  · subst h
    exact ⟨[], _, rfl, rfl, fun _ hi => nomatch hi⟩
  have keeps : ∀ n p, n < order + 1 → 0 < n ∧ IsInterleaved (tangentPolynomial s) order n p →
      ∃ q, (tangentIteration s (lift t) (lift (t * t)) (lift 0) n p).outcome =
          .ok (lift (aeval t (tangentPolynomial s n : ℤ[X])), q) ∧
        0 < n + 1 ∧ IsInterleaved (tangentPolynomial s) order (n + 1) q := by
    rintro (_ | n) p hn ⟨positive, interleaved⟩
    · exact absurd positive (Nat.lt_irrefl 0)
    obtain ⟨q, ran, next⟩ := interleaved.step exact (Nat.lt_of_succ_lt_succ hn) t
    exact ⟨q, ran, Nat.succ_pos _, next⟩
  obtain ⟨iterations, q, ran, numbers, all⟩ := iterate_eq_ok
    (fun n p => 0 < n ∧ IsInterleaved (tangentPolynomial s) order n p)
    (fun n => lift (aeval t (tangentPolynomial s n : ℤ[X]))) (order + 1) keeps order (n := 1)
    (by omega) ⟨Nat.one_pos, isInterleaved_start exact s order⟩
  refine ⟨iterations, q, ?_, numbers, fun i hi => (all i hi).1.2⟩
  rw [tangentRun, tangentInPlace, if_neg h]
  simp only [outcome_bind, outcome_compute, outcome_write, bind_assoc, pure_bind]
  exact bind_eq_ok (exact.zeroLike t) (bind_eq_ok (exact.mul t t) ran)

end Exact

/-- **What the recipe of a tangent does** for the value `t`, up to an order, if `P` are the
polynomials of its derivatives. -/
structure RunsInterleaved {K E : Type} [CommRing K] [Arithmetic E] (lift : K → E) (s : Int)
    (P : Nat → ℤ[X]) (t : K) (order : Nat) : Prop where
  /-- The derivatives are the polynomials at the value. -/
  derivatives : tangent s (lift t) order =
    .ok ((List.range (order + 1)).map fun n => lift (aeval t (P n)))
  /-- They come from iterations on one list, and that is interleaved at the start of each. -/
  iterations : ∃ iterations q, (tangentRun s (lift t) order).outcome = .ok (iterations, q) ∧
    tangent s (lift t) order = .ok (lift t :: iterations.map Iteration.result) ∧
    iterations.map Iteration.number = List.range' 1 order ∧
    ∀ i ∈ iterations, IsInterleaved P order i.number i.before
  /-- Every place that is read or written is one of the list. -/
  places : ∀ i ∈ (tangentRun s (lift t) order).places, 0 ≤ i ∧ i < (order + 2 : Nat)

/-- **The recipe of a tangent evaluates the polynomials** `P 0 = X` and
`P (n + 1) = (1 + s * X^2) * P' n`, and keeps two of them at a time in one list that it never
leaves: in every commutative ring, for every value and every order. -/
theorem runsInterleaved {K E : Type} [CommRing K] [Arithmetic E] {lift : K → E}
    (exact : IsExactRing lift) (s : Int) {P : Nat → ℤ[X]} (first : P 0 = X)
    (next : ∀ n, P (n + 1) = (1 + C s * X ^ 2) * derivative (P n)) (t : K) (order : Nat) :
    RunsInterleaved lift s P t order := by
  obtain rfl := eq_tangentPolynomial first next
  obtain ⟨iterations, q, ran, numbers, interleaved⟩ := tangentRun_eq_ok exact s t order
  constructor
  case derivatives =>
    rw [tangent_eq_ok exact s t order]
    simp only [eval_tangentPolynomial]
  case iterations =>
    refine ⟨iterations, q, ran, ?_, numbers, interleaved⟩
    rw [tangent_eq_tangentRun, ran]
    rfl
  case places =>
    exact (staysInside_tangentInPlace s (lift t) order).inside List.length_replicate

/-- The hyperbolic tangent with the value two modulo six, up to the fifth derivative. -/
theorem runsInterleaved_modulo_six :
    IsExactRing (RingNumber.mk : ZMod 6 → RingNumber (ZMod 6)) ∧
    (tangentPolynomial (-1) 0 : ℤ[X]) = X ∧
    (∀ n, (tangentPolynomial (-1) (n + 1) : ℤ[X]) =
      (1 + C (-1) * X ^ 2) * derivative (tangentPolynomial (-1) n)) ∧
    RunsInterleaved (RingNumber.mk : ZMod 6 → RingNumber (ZMod 6)) (-1) (tangentPolynomial (-1))
      2 5 := by
  have next : ∀ n, (tangentPolynomial (-1) (n + 1) : ℤ[X]) =
      (1 + C (-1) * X ^ 2) * derivative (tangentPolynomial (-1) n) := tangentPolynomial_succ (-1)
  exact ⟨RingNumber.isExactRing, rfl, next,
    runsInterleaved RingNumber.isExactRing (-1) rfl next 2 5⟩

/-- Both endings of a sweep: the first iteration goes down to place zero, the second one to place
one. -/
example : (tangentRun 1 (⟨3⟩ : RingNumber ℤ) 2).places =
    [1, 1, 2, 2, 1, 0, 0, 2, 3, 3, 2, 0, 1, 1] := by decide +kernel

end JetAlgebra.Outer
