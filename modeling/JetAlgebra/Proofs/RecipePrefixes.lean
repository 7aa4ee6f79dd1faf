import Mathlib.Data.Nat.Init
import JetAlgebra.Operation
import JetAlgebra.Proofs.Outcome

/-!
# Fewer derivatives are a prefix of more

A recipe that is run for a lower order writes down the first derivatives of what it writes down
for a higher one: `HasPrefixes` says so of everything that is run for a number of entries, if
the longer run succeeds.

Most recipes hand a state from one entry to the next (`trail`), and then it is plain.  The
recurrences update a list of coefficients that is made as long as the order needs, so there it
has to be seen that no step looks at the end of the list (`sweep_append`).
-/
namespace JetAlgebra
open Arithmetic

/-! ## Runs and their prefixes -/

section Prefixes
variable {ε α β S : Type}

/-- **Shorter runs give prefixes of longer ones**, and a run for `n` gives `first + n`
entries. -/
def HasPrefixes (first : Nat) (run : Nat → Except ε (List α)) : Prop :=
  ∀ n l, run n = .ok l → l.length = first + n ∧ ∀ k ≤ n, run k = .ok (l.take (first + k))

/-- `count` entries, each from a step that hands a state on to the next one. -/
def trail (step : S → Except ε (α × S)) : (count : Nat) → S → Except ε (List α)
  | 0, _ => .ok []
  | count + 1, s => do
    let (v, next) ← step s
    return v :: (← trail step count next)

theorem hasPrefixes_trail (step : S → Except ε (α × S)) (s : S) :
    HasPrefixes 0 (trail step · s) := by
  intro n l h
  induction n generalizing s l with
  | zero =>
    cases h
    exact ⟨rfl, fun k hk => by rw [Nat.le_zero.mp hk]; rfl⟩
  | succ n ih =>
    obtain ⟨⟨v, next⟩, hv, h⟩ := bind_eq_ok_iff.mp h
    obtain ⟨vs, hvs, h⟩ := bind_eq_ok_iff.mp h
    cases h
    obtain ⟨length, shorter⟩ := ih next vs hvs
    refine ⟨by rw [List.length_cons, length]; omega, fun k hk => ?_⟩
    cases k with
    | zero => rfl
    | succ k =>
      refine bind_eq_ok hv (bind_eq_ok (shorter k (Nat.le_of_succ_le_succ hk)) ?_)
      rw [Nat.zero_add, Nat.zero_add, List.take_succ_cons]
      rfl

/-- **States that are told apart by nothing that a step looks at** leave the same trail.
`good k s` says that `k` more steps may be made from `s`. -/
theorem trail_eq_of_step {step : S → Except ε (α × S)} (good : Nat → S → Prop) (change : S → S)
    (same : ∀ k s, good (k + 1) s →
      step (change s) = (step s >>= fun result => .ok (result.1, change result.2)))
    (keep : ∀ k s v next, good (k + 1) s → step s = .ok (v, next) → good k next) (count : Nat) :
    ∀ s, good count s → trail step count (change s) = trail step count s := by
  induction count with
  | zero => exact fun _ _ => rfl
  | succ count ih =>
    intro s h
    rw [trail, trail, same count s h]
    cases hs : step s with
    | error fault => rfl
    | ok result =>
      show (trail step count (change result.2) >>= fun vs => .ok (result.1 :: vs)) = _
      rw [ih result.2 (keep count s _ _ h hs)]
      rfl

/-- **A trail along an invariant**: if the state before entry `i` gives that entry and the state
after it, the entries are known. -/
theorem trail_eq_ok {step : S → Except ε (α × S)} (value : Nat → α) (inv : Nat → S → Prop)
    (bound : Nat) (h : ∀ i s, i < bound → inv i s → ∃ next, step s = .ok (value i, next) ∧
      inv (i + 1) next) (count : Nat) : ∀ {i : Nat} {s : S}, i + count ≤ bound → inv i s →
        trail step count s = .ok ((List.range' i count).map value) := by
  induction count with
  | zero => exact fun _ _ => rfl
  | succ count ih =>
    intro i s hi hs
    obtain ⟨next, hv, hn⟩ := h i s (by omega) hs
    exact bind_eq_ok hv (bind_eq_ok (ih (by omega) hn) rfl)

namespace HasPrefixes
variable {first : Nat} {run : Nat → Except ε (List α)}

theorem replicate (first : Nat) (v : α) :
    HasPrefixes (ε := ε) first fun n => .ok (List.replicate (n + first) v) := by
  rintro n _ ⟨⟩
  refine ⟨by rw [List.length_replicate, Nat.add_comm], fun k hk => ?_⟩
  rw [List.take_replicate, Nat.min_eq_left (by omega), Nat.add_comm]

/-- Before the run something is computed that the number of entries does not matter for. -/
theorem bind {x : Except ε β} {f : β → Nat → Except ε (List α)}
    (h : ∀ a, HasPrefixes first (f a)) : HasPrefixes first fun n => x >>= (f · n) := by
  intro n l hl
  obtain ⟨a, ha, hl⟩ := bind_eq_ok_iff.mp hl
  obtain ⟨length, shorter⟩ := h a n l hl
  exact ⟨length, fun k hk => bind_eq_ok ha (shorter k hk)⟩

theorem ite {c : Prop} [Decidable c] {run' : Nat → Except ε (List α)}
    (h : HasPrefixes first run) (h' : HasPrefixes first run') :
    HasPrefixes first fun n => if c then run n else run' n := by
  split
  · exact h
  · exact h'

/-- One entry in front. -/
theorem cons (h : HasPrefixes first run) (v : α) :
    HasPrefixes (first + 1) fun n => do return v :: (← run n) := by
  intro n l hl
  obtain ⟨vs, hvs, hl⟩ := bind_eq_ok_iff.mp hl
  cases hl
  obtain ⟨length, shorter⟩ := h n vs hvs
  refine ⟨by rw [List.length_cons, length]; omega, fun k hk => bind_eq_ok (shorter k hk) ?_⟩
  rw [Nat.add_right_comm, List.take_succ_cons]
  rfl

/-- One entry more. -/
theorem shift (h : HasPrefixes first run) : HasPrefixes (first + 1) fun n => run (n + 1) := by
  intro n l hl
  obtain ⟨length, shorter⟩ := h (n + 1) l hl
  refine ⟨by omega, fun k hk => ?_⟩
  rw [Nat.add_assoc, Nat.add_comm 1 k]
  exact shorter (k + 1) (Nat.succ_le_succ hk)

/-- Without derivatives the value alone is written down, and nothing else is computed. -/
theorem guarded {v : α} (h : HasPrefixes 2 fun n => run (n + 1))
    (value : ∀ n l, run n = .ok l → l.head? = some v) :
    HasPrefixes 1 fun n => if n = 0 then .ok [v] else run n := by
  intro n l hl
  cases n with
  | zero =>
    cases hl
    exact ⟨rfl, fun k hk => by rw [Nat.le_zero.mp hk]; rfl⟩
  | succ n =>
    obtain ⟨length, shorter⟩ := h n l hl
    refine ⟨by omega, fun k hk => ?_⟩
    cases k with
    | zero =>
      obtain ⟨vs, rfl⟩ := List.head?_eq_some_iff.mp (value (n + 1) l hl)
      rfl
    | succ k =>
      rw [show 1 + (k + 1) = 2 + k by omega]
      exact shorter k (Nat.le_of_succ_le_succ hk)

/-- A run may start from a state that depends on the number of entries, as long as a shorter
run does not see the difference. -/
theorem of_longer (run : Nat → S → Except ε (List α)) {start : Nat → S}
    (h : ∀ n, HasPrefixes first (run · (start n)))
    (same : ∀ n k, k ≤ n → run k (start n) = run k (start k)) :
    HasPrefixes first fun n => run n (start n) := by
  intro n l hl
  obtain ⟨length, shorter⟩ := h n n l hl
  exact ⟨length, fun k hk => (same n k hk).symm.trans (shorter k hk)⟩

/-- The same runs in other words. -/
theorem congr {run' : Nat → Except ε (List α)} (h : HasPrefixes first run)
    (same : ∀ n, run' n = run n) : HasPrefixes first run' := (funext same : run' = run) ▸ h

end HasPrefixes

end Prefixes

namespace Outer
variable {E : Type} [Arithmetic E]

/-! ## Recipes that hand a state on -/

theorem hasPrefixes_exp (x : E) : HasPrefixes 1 (exp x) :=
  .bind fun e => .replicate 1 e

theorem hasPrefixes_expm1 (x : E) : HasPrefixes 1 (expm1 x) :=
  .bind fun e => .bind fun v => (HasPrefixes.replicate 0 e).cons v

theorem logChain_eq (inverse : E) (n : Nat) : ∀ (i : Nat) (xk : E), logChain inverse i n xk =
    trail (fun s : Nat × E => do
      let next ← mul s.2 (← mul inverse (ofInt (-(s.1 : Int))))
      return (s.2, s.1 + 1, next)) n (i, xk) := by
  induction n with
  | zero => exact fun _ _ => rfl
  | succ n ih => intro i xk; simp only [logChain, trail, ih, bind_assoc, pure_bind]

theorem hasPrefixes_logarithm (f : Elementary) (inverse first : E → Except ArithmeticFault E)
    (x : E) : HasPrefixes 1 (logarithm f inverse first x) := by
  refine .bind fun v => .guarded (HasPrefixes.shift (.bind fun r => .bind fun xk =>
    ((hasPrefixes_trail _ (1, xk)).congr fun n => logChain_eq r n 1 xk).cons v)) ?_
  intro n l h
  obtain ⟨r, -, h⟩ := bind_eq_ok_iff.mp h
  obtain ⟨xk, -, h⟩ := bind_eq_ok_iff.mp h
  obtain ⟨vs, -, h⟩ := bind_eq_ok_iff.mp h
  cases h
  rfl

theorem cycle_eq (alternating : Bool) (n : Nat) : ∀ a b : E, cycle alternating n a b =
    trail (fun s : E × E => do
      let next ← if alternating then neg s.1 else pure s.1
      return (s.1, s.2, next)) n (a, b) := by
  induction n with
  | zero => exact fun _ _ => rfl
  | succ n ih => intro a b; cases alternating <;> simp [cycle, trail, ih]

theorem hasPrefixes_cycle (alternating : Bool) (a b : E) :
    HasPrefixes 1 fun n => cycle alternating (n + 1) a b :=
  ((hasPrefixes_trail _ (a, b)).congr fun n => cycle_eq alternating n a b).shift

/-! ## Powers and roots -/

theorem powersUp_eq (x : E) (n : Nat) : ∀ xk : E, powersUp x n xk =
    (trail (fun y => do
      let next ← mul y x
      return (next, next)) n xk >>= fun powers => .ok (xk :: powers)) := by
  induction n with
  | zero => exact fun _ => rfl
  | succ n ih =>
    intro xk
    simp only [powersUp, trail, ih, bind_assoc, pure_bind]
    rfl

theorem hasPrefixes_powersUp (x xk : E) : HasPrefixes 1 (powersUp x · xk) :=
  ((hasPrefixes_trail _ xk).cons xk).congr fun n => powersUp_eq x n xk

/-- Falling factors are multiplied from the first entry on. -/
theorem fallingFactors_take (p : E) : ∀ {l m : List E} (i : Nat) (c : E),
    fallingFactors p i c l = .ok m →
      m.length = l.length ∧ ∀ k, fallingFactors p i c (l.take k) = .ok (m.take k) := by
  intro l
  induction l with
  | nil =>
    rintro _ i c ⟨⟩
    exact ⟨rfl, fun k => by rw [List.take_nil]; rfl⟩
  | cons v l ih =>
    intro m i c h
    obtain ⟨w, hw, h⟩ := bind_eq_ok_iff.mp h
    obtain ⟨q, hq, h⟩ := bind_eq_ok_iff.mp h
    obtain ⟨next, hn, h⟩ := bind_eq_ok_iff.mp h
    obtain ⟨ws, hws, h⟩ := bind_eq_ok_iff.mp h
    cases h
    obtain ⟨length, shorter⟩ := ih (i + 1) next hws
    refine ⟨by rw [List.length_cons, List.length_cons, length], fun k => ?_⟩
    cases k with
    | zero => rfl
    | succ k =>
      exact bind_eq_ok hw (bind_eq_ok hq (bind_eq_ok hn (bind_eq_ok (shorter k) rfl)))

theorem scalePowers_take {p : E} {l m : List E} (h : scalePowers p l = .ok m) :
    m.length = l.length ∧ ∀ k, scalePowers p (l.take k) = .ok (m.take k) := by
  cases l with
  | nil =>
    cases h
    exact ⟨rfl, fun k => by rw [List.take_nil]; rfl⟩
  | cons v l =>
    obtain ⟨vs, hvs, h⟩ := bind_eq_ok_iff.mp h
    cases h
    obtain ⟨length, shorter⟩ := fallingFactors_take p 1 p hvs
    refine ⟨by rw [List.length_cons, List.length_cons, length], fun k => ?_⟩
    cases k with
    | zero => rfl
    | succ k => exact bind_eq_ok (shorter k) rfl

/-- Powers that are prefixes of each other are scaled to prefixes of each other. -/
theorem hasPrefixes_scalePowers {run : Nat → Except ArithmeticFault (List E)}
    (h : HasPrefixes 1 run) (p : E) : HasPrefixes 1 (run · >>= scalePowers p) := by
  intro n l hl
  obtain ⟨powers, hp, hl⟩ := bind_eq_ok_iff.mp hl
  obtain ⟨length, shorter⟩ := h n powers hp
  obtain ⟨scaled, taken⟩ := scalePowers_take hl
  exact ⟨scaled.trans length, fun k hk => bind_eq_ok (shorter k hk) (taken (1 + k))⟩

theorem hasPrefixes_negativePowers (n : Nat) (x : E) : HasPrefixes 1 (negativePowers n x) :=
  .bind fun inverse => .bind fun xk => hasPrefixes_powersUp inverse xk

theorem alternate_eq (n : Nat) : ∀ v : E, alternate n v =
    trail (fun v => do
      let w ← neg v
      return (w, w)) n v := by
  induction n with
  | zero => exact fun _ => rfl
  | succ n ih => intro v; simp only [alternate, trail, ih, bind_assoc, pure_bind]

theorem hasPrefixes_zeroPower (x : E) : HasPrefixes 1 (zeroPower x) := by
  refine .bind fun zero => .bind fun x₀ => .ite ?_ (.ite ?_ (.replicate 1 zero))
  · exact .bind fun unit => .bind fun infinite =>
      ((hasPrefixes_trail _ infinite).congr fun n => alternate_eq n infinite).cons unit
  · exact .bind fun v => .replicate 1 v

theorem hasPrefixes_basePower (a x : E) : HasPrefixes 1 (basePower a x) :=
  .bind fun _ => .bind fun _ => .bind fun v => .bind fun _ => hasPrefixes_powersUp _ v

theorem rootChain_eq (overX overN : E) (n : Nat) : ∀ (i : Nat) (xk : E),
    rootChain overX overN i n xk =
      trail (fun s : Nat × E => do
        let next ← mul s.2 (← mul overX (← sub overN (ofInt s.1)))
        return (s.2, s.1 + 1, next)) n (i, xk) := by
  induction n with
  | zero => exact fun _ _ => rfl
  | succ n ih => intro i xk; simp only [rootChain, trail, ih, bind_assoc, pure_bind]

theorem hasPrefixes_root (kind : RootKind) (n x : E) : HasPrefixes 1 (root kind n x) :=
  .bind fun start => .bind fun overN => .bind fun overX =>
    ((hasPrefixes_trail _ (1, start.2)).congr fun count =>
      rootChain_eq overX overN count 1 start.2).cons start.1

/-! ## Recurrences -/

theorem horner_append {p : List E} {k : Nat} (h : k < p.length) (x2 v : E) (extra : List E) :
    horner x2 v (p ++ extra) k = horner x2 v p k := by
  rw [horner, horner, slot_append (by omega)]

/-- The new coefficient `k` of polynomial `n`. -/
def Recurrence.coefficient (r : Recurrence) (n : Int) (k : Nat) (p : List E) :
    Except ArithmeticFault E :=
  if k = 0 then r.constant p else r.lower n (k + 2) p

theorem sweep_succ (r : Recurrence) (n : Int) (x2 v : E) (k : Nat) (p : List E) :
    sweep r n x2 (k + 2) v p = (do
      let w ← horner x2 v p (k + 2)
      let c ← r.coefficient n k p
      sweep r n x2 k w (p.set k c)) := by
  rw [sweep, Recurrence.coefficient]
  split <;> rfl

theorem coefficient_append (r : Recurrence) (n : Int) {k : Nat} {p : List E}
    (h : k + 2 < p.length) (extra : List E) :
    r.coefficient n k (p ++ extra) = r.coefficient n k p := by
  rw [Recurrence.coefficient, Recurrence.coefficient]
  by_cases first : k = 0
  · rw [if_pos first, if_pos first, Recurrence.constant, Recurrence.constant,
      slot_append (by omega)]
  · rw [if_neg first, if_neg first, Recurrence.lower, Recurrence.lower, slot_append (by omega),
      slot_append (by omega)]

/-- **A sweep does not look beyond the power it starts from.** -/
theorem sweep_append (r : Recurrence) (n : Int) (x2 : E) (extra : List E) (k : Nat) :
    ∀ (v : E) {p : List E}, k < p.length → sweep r n x2 k v (p ++ extra) =
      (sweep r n x2 k v p >>= fun result => .ok (result.1, result.2 ++ extra)) := by
  induction k using Nat.twoStepInduction with
  | zero | one =>
    intro v p h
    rw [sweep, sweep, horner_append h, bind_assoc]
    rfl
  | more k ih _ =>
    intro v p h
    rw [sweep_succ, sweep_succ, horner_append h, coefficient_append r n h]
    simp only [bind_assoc]
    refine bind_congr fun w => bind_congr fun c => ?_
    rw [List.set_append_left _ _ (by omega)]
    exact ih w (by rw [List.length_set]; omega)

/-- A sweep keeps the length of the list. -/
theorem length_of_sweep {r : Recurrence} {n : Int} {x2 : E} (k : Nat) :
    ∀ {v : E} {p : List E} {result : E × List E}, sweep r n x2 k v p = .ok result →
      result.2.length = p.length := by
  induction k using Nat.twoStepInduction with
  | zero | one =>
    intro v p result h
    obtain ⟨w, -, h⟩ := bind_eq_ok_iff.mp h
    cases h
    rfl
  | more k ih _ =>
    intro v p result h
    rw [sweep_succ] at h
    obtain ⟨w, -, h⟩ := bind_eq_ok_iff.mp h
    obtain ⟨c, -, h⟩ := bind_eq_ok_iff.mp h
    rw [ih h, List.length_set]

/-- The value of polynomial `n` with the top coefficient that is given, and the coefficients
for the next one.  Polynomials of one parity lack a factor. -/
def advance (r : Recurrence) (n place : Nat) (x x2 zero top : E) (p : List E) :
    Except ArithmeticFault (E × List E) := do
  let (v, p) ← sweep r n x2 place zero (p.set place top)
  let v ← if n % 2 = 0 then mul v x else pure v
  return (v, p)

/-- What is done with it. -/
theorem advance_bind {β : Type} (r : Recurrence) (n place : Nat) (x x2 zero top : E) (p : List E)
    (g : E × List E → Except ArithmeticFault β) :
    advance r n place x x2 zero top p >>= g =
      (sweep r n x2 place zero (p.set place top) >>= fun result =>
        if n % 2 = 0 then mul result.1 x >>= fun v => g (v, result.2) else g result) := by
  rw [advance, bind_assoc]
  refine bind_congr fun result => ?_
  show ((if n % 2 = 0 then _ else _) >>= g) = _
  split
  · rw [bind_assoc]
    rfl
  · rfl

theorem advance_append (r : Recurrence) (n : Nat) {place : Nat} (x x2 zero top : E) {p : List E}
    (h : place < p.length) (extra : List E) :
    advance r n place x x2 zero top (p ++ extra) =
      (advance r n place x x2 zero top p >>= fun result => .ok (result.1, result.2 ++ extra)) := by
  rw [advance_bind, advance, List.set_append_left _ _ h,
    sweep_append _ _ _ _ _ _ (by rw [List.length_set]; exact h), bind_assoc]
  rfl

/-- What it leaves is what the sweep leaves. -/
theorem exists_sweep_of_advance {r : Recurrence} {n place : Nat} {x x2 zero top : E} {p : List E}
    {result : E × List E} (h : advance r n place x x2 zero top p = .ok result) :
    ∃ v, sweep r n x2 place zero (p.set place top) = .ok (v, result.2) := by
  obtain ⟨⟨v, q⟩, hs, h⟩ := bind_eq_ok_iff.mp h
  replace h : (if n % 2 = 0 then (mul v x >>= fun w => .ok (w, q)) else .ok (v, q)) =
    Except.ok result := h
  split at h
  · obtain ⟨w, -, h⟩ := bind_eq_ok_iff.mp h
    cases h
    exact ⟨v, hs⟩
  · cases h
    exact ⟨v, hs⟩

theorem length_of_advance {r : Recurrence} {n place : Nat} {x x2 zero top : E} {p : List E}
    {result : E × List E} (h : advance r n place x x2 zero top p = .ok result) :
    result.2.length = p.length := by
  obtain ⟨v, hs⟩ := exists_sweep_of_advance h
  exact (length_of_sweep _ hs).trans List.length_set

/-! ### Tangents -/

/-- One derivative of a tangent. -/
def tangentStep (s : Int) (t t2 zero : E) (state : Nat × List E) :
    Except ArithmeticFault (E × Nat × List E) := do
  let top ← scale ((tangentRecurrence s).leading state.1) (← slot state.2 state.1)
  let result ← advance (tangentRecurrence s) state.1 (state.1 + 1) t t2 zero top state.2
  return (result.1, state.1 + 1, result.2)

theorem tangentFrom_eq (s : Int) (t t2 zero : E) (count : Nat) : ∀ (n : Nat) (p : List E),
    tangentFrom s t t2 zero count n p = trail (tangentStep s t t2 zero) count (n, p) := by
  induction count with
  | zero => exact fun _ _ => rfl
  | succ count ih =>
    intro n p
    rw [tangentFrom, trail, tangentStep]
    simp only [bind_assoc, ih]
    simp only [advance_bind]
    rfl

/-- The end of the list is for the derivatives to come. -/
theorem tangentFrom_append (s : Int) (t t2 zero : E) (extra : List E) {count n : Nat} {p : List E}
    (h : n + count < p.length) :
    tangentFrom s t t2 zero count n (p ++ extra) = tangentFrom s t t2 zero count n p := by
  rw [tangentFrom_eq, tangentFrom_eq]
  refine trail_eq_of_step (fun k state => state.1 + k < state.2.length)
    (fun state => (state.1, state.2 ++ extra)) ?_ ?_ count (n, p) h
  · rintro k ⟨n, p⟩ h
    have within : n + (k + 1) < p.length := h
    simp only [tangentStep, bind_assoc]
    rw [slot_append (by omega)]
    refine bind_congr fun c => bind_congr fun top => ?_
    rw [advance_append _ _ _ _ _ _ (by omega), bind_assoc]
    rfl
  · rintro k ⟨n, p⟩ v next h hs
    have within : n + (k + 1) < p.length := h
    obtain ⟨c, -, hs⟩ := bind_eq_ok_iff.mp hs
    obtain ⟨top, -, hs⟩ := bind_eq_ok_iff.mp hs
    obtain ⟨result, hr, hs⟩ := bind_eq_ok_iff.mp hs
    cases hs
    have length : result.2.length = p.length := length_of_advance hr
    show n + 1 + k < result.2.length
    omega

omit [Arithmetic E] in
/-- A longer list of coefficients is a shorter one with more zeros. -/
theorem replicate_set_append {k n : Nat} (h : k ≤ n) {i : Nat} (hi : i < k) (v w : E) :
    (List.replicate n v).set i w = (List.replicate k v).set i w ++ List.replicate (n - k) v := by
  rw [← List.set_append_left _ _ (by rwa [List.length_replicate]), List.replicate_append_replicate,
    Nat.add_sub_cancel' h]

theorem hasPrefixes_tangentFrom (s : Int) (t t2 zero v w : E) : HasPrefixes 0 fun n =>
    tangentFrom s t t2 zero n 1 ((List.replicate (n + 2) v).set 1 w) := by
  refine .of_longer (fun n p => tangentFrom s t t2 zero n 1 p)
    (fun n => (hasPrefixes_trail _ _).congr fun count => tangentFrom_eq s t t2 zero count 1 _) ?_
  intro n k hk
  show tangentFrom s t t2 zero k 1 _ = tangentFrom s t t2 zero k 1 _
  rw [replicate_set_append (k := k + 2) (by omega) (by omega), tangentFrom_append]
  rw [List.length_set, List.length_replicate]
  omega

theorem hasPrefixes_tangent (s : Int) (t : E) : HasPrefixes 1 (tangent s t) := by
  refine .guarded (HasPrefixes.shift (.bind fun zero => .bind fun t2 =>
    (hasPrefixes_tangentFrom s t t2 zero _ _).cons t)) ?_
  intro n l h
  obtain ⟨zero, -, h⟩ := bind_eq_ok_iff.mp h
  obtain ⟨t2, -, h⟩ := bind_eq_ok_iff.mp h
  obtain ⟨vs, -, h⟩ := bind_eq_ok_iff.mp h
  cases h
  rfl

/-! ### Inverse functions -/

/-- One derivative of an inverse function. -/
def inverseStep (r : Recurrence) (x x2 zero f : E) (state : Nat × E × List E) :
    Except ArithmeticFault (E × Nat × E × List E) := do
  let top ← scale (r.leading state.1) (← slot state.2.2 ((state.1 : Int) - 2))
  let result ← advance r state.1 (state.1 - 1) x x2 zero top state.2.2
  let coeff ← mul state.2.1 f
  return (← mul coeff result.1, state.1 + 1, coeff, result.2)

theorem inverseFrom_eq (r : Recurrence) (x x2 zero f : E) (count : Nat) :
    ∀ (n : Nat) (coeff : E) (p : List E), inverseFrom r x x2 zero f count n coeff p =
      trail (inverseStep r x x2 zero f) count (n, coeff, p) := by
  induction count with
  | zero => exact fun _ _ _ => rfl
  | succ count ih =>
    intro n coeff p
    rw [inverseFrom, trail, inverseStep]
    simp only [bind_assoc, ih]
    simp only [advance_bind]
    rfl

theorem inverseFrom_append (r : Recurrence) (x x2 zero f : E) (extra : List E) {count n : Nat}
    (coeff : E) {p : List E} (hn : 2 ≤ n) (h : n + count ≤ p.length + 1) :
    inverseFrom r x x2 zero f count n coeff (p ++ extra) =
      inverseFrom r x x2 zero f count n coeff p := by
  rw [inverseFrom_eq, inverseFrom_eq]
  refine trail_eq_of_step
    (fun k state => 2 ≤ state.1 ∧ state.1 + k ≤ state.2.2.length + 1)
    (fun state => (state.1, state.2.1, state.2.2 ++ extra)) ?_ ?_ count (n, coeff, p) ⟨hn, h⟩
  · rintro k ⟨n, coeff, p⟩ ⟨hn, h⟩
    have lower : 2 ≤ n := hn
    have within : n + (k + 1) ≤ p.length + 1 := h
    simp only [inverseStep, bind_assoc]
    rw [slot_append (by omega)]
    refine bind_congr fun c => bind_congr fun top => ?_
    rw [advance_append _ _ _ _ _ _ (by omega), bind_assoc]
    rfl
  · rintro k ⟨n, coeff, p⟩ v next ⟨hn, h⟩ hs
    have lower : 2 ≤ n := hn
    have within : n + (k + 1) ≤ p.length + 1 := h
    obtain ⟨c, -, hs⟩ := bind_eq_ok_iff.mp hs
    obtain ⟨top, -, hs⟩ := bind_eq_ok_iff.mp hs
    obtain ⟨result, hr, hs⟩ := bind_eq_ok_iff.mp hs
    obtain ⟨scaled, -, hs⟩ := bind_eq_ok_iff.mp hs
    obtain ⟨d, -, hs⟩ := bind_eq_ok_iff.mp hs
    cases hs
    have length : result.2.length = p.length := length_of_advance hr
    show 2 ≤ n + 1 ∧ n + 1 + k ≤ result.2.length + 1
    omega

theorem hasPrefixes_inverseFrom (r : Recurrence) (x x2 zero f coeff v w : E) :
    HasPrefixes 0 fun n =>
      inverseFrom r x x2 zero f n 2 coeff ((List.replicate (n + 1) v).set 0 w) := by
  refine .of_longer (fun n p => inverseFrom r x x2 zero f n 2 coeff p)
    (fun n => (hasPrefixes_trail _ _).congr fun count =>
      inverseFrom_eq r x x2 zero f count 2 coeff _) ?_
  intro n k hk
  show inverseFrom r x x2 zero f k 2 coeff _ = inverseFrom r x x2 zero f k 2 coeff _
  rw [replicate_set_append (k := k + 1) (by omega) (by omega),
    inverseFrom_append _ _ _ _ _ _ _ (Nat.le_refl 2)]
  rw [List.length_set, List.length_replicate]
  omega

theorem hasPrefixes_inverseFunction (r : Recurrence) (first : Float) (x value coeff f : E) :
    HasPrefixes 1 (inverseFunction r first x value · coeff f) := by
  refine .guarded (.bind fun zero => .bind fun x2 => ?_) ?_
  · -- The first coefficient is the same for every order.
    have derivatives : HasPrefixes 2 fun n => mul coeff (ofFloat first) >>= fun d =>
        inverseFrom r x x2 zero f n 2 coeff
            ((List.replicate (n + 1) (ofFloat 0.0)).set 0 (ofFloat first)) >>= (.ok <| d :: ·)
          >>= (.ok <| value :: ·) :=
      .bind fun d => ((hasPrefixes_inverseFrom r x x2 zero f coeff _ _).cons d).cons value
    refine derivatives.congr fun n => (bind_congr fun d => ?_ : mul coeff (ofFloat first) >>= _ = _)
    rw [bind_assoc]
    rfl
  intro n l h
  obtain ⟨zero, -, h⟩ := bind_eq_ok_iff.mp h
  obtain ⟨x2, -, h⟩ := bind_eq_ok_iff.mp h
  obtain ⟨c, -, h⟩ := bind_eq_ok_iff.mp h
  obtain ⟨d, -, h⟩ := bind_eq_ok_iff.mp h
  obtain ⟨vs, -, h⟩ := bind_eq_ok_iff.mp h
  cases h
  rfl

end Outer

/-! ## Elementary functions -/

/-- **The derivatives of an elementary function** up to a lower order are the first ones of
those up to a higher order. -/
theorem hasPrefixes_derivativesOf {E : Type} [Arithmetic E] (f : Elementary) (x : E) :
    HasPrefixes 1 (Operation.derivativesOf f x) := by
  cases f with
  | exp => exact Outer.hasPrefixes_exp x
  | expm1 => exact Outer.hasPrefixes_expm1 x
  | log | log10 => exact Outer.hasPrefixes_logarithm _ _ _ x
  | log1p =>
    exact Outer.hasPrefixes_logarithm .log1p (fun x => do div Outer.one (← add x Outer.one)) pure x
  | sqrt | cbrt => exact Outer.hasPrefixes_root _ _ x
  | sin | sinh | cosh => exact .bind fun _ => .bind fun _ => Outer.hasPrefixes_cycle _ _ _
  | cos => exact .bind fun _ => .bind fun _ => .bind fun _ => Outer.hasPrefixes_cycle _ _ _
  | tan | tanh => exact .bind fun t => Outer.hasPrefixes_tangent _ t
  | asin | acos | asinh | acosh =>
    exact .bind fun f => .bind fun v => .bind fun c =>
      Outer.hasPrefixes_inverseFunction _ _ x v c f
  | atan | atanh =>
    exact .bind fun f => .bind fun v => Outer.hasPrefixes_inverseFunction _ _ x v f f

end JetAlgebra
