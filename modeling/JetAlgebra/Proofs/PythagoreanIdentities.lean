import JetAlgebra.Proofs.Differentiation
import JetAlgebra.Proofs.TangentQuotients

/-!
# The squares of a joint form

Each function of a joint form is the derivative of the other one, up to a sign, whatever the
values are that the functions have.  So the squares of the two, added up for the circular
functions and subtracted for the hyperbolic ones, have no derivatives: `derivative_norm`.  On jets
that holds in every slot, and all that is left is what the values make.
-/
namespace JetAlgebra
open Arithmetic Tables Exponent Expansion

/-! ## Cycles -/

section Cycles
variable {K : Type} [CommRing K]

/-- A sequence that starts with two given numbers, and is a multiple of itself after two steps. -/
def Outer.cycled (r a b : K) : Nat → K
  | 0 => a
  | 1 => b
  | i + 2 => r * cycled r a b i

/-- From the second number on it is such a sequence as well. -/
theorem Outer.cycled_succ (r a b : K) (i : Nat) : cycled r a b (i + 1) = cycled r b (r * a) i := by
  induction i using Nat.twoStepInduction with
  | zero => rfl
  | one => rfl
  | more i ih _ => exact congrArg (r * ·) ih

theorem Outer.cycled_mul (r c a b : K) (i : Nat) :
    cycled r (c * a) (c * b) i = c * cycled r a b i := by
  induction i using Nat.twoStepInduction with
  | zero => rfl
  | one => rfl
  | more i ih _ =>
    rw [cycled, cycled, ih]
    ring

end Cycles

namespace JointOperation
variable (f : JointOperation)

/-- The derivatives of a function of a joint form, from its value and that of the next one on. -/
def cycles {K : Type} [CommRing K] (a b : K) (o : Nat) : List K :=
  (List.range (o + 1)).map (Outer.cycled (-f.sign : K) a b)

section Recipe
variable {K E : Type} [Field K] [Arithmetic E] {lift : K → E}

theorem cycle_eq_cycles (neg : ∀ x, Arithmetic.neg (lift x) = .ok (lift (-x))) (a b : K) (o : Nat) :
    Outer.cycle (f = .sinCos) (o + 1) (lift a) (lift b) = .ok ((f.cycles a b o).map lift) := by
  rw [cycles, List.map_map]
  refine Outer.cycle_eq_ok neg (w := Outer.cycled (-f.sign : K) a b) (fun i => ?_) (o + 1)
  cases f <;> simp [Outer.cycled, sign]

theorem length_cycles (a b : K) (o : Nat) : o < (f.cycles a b o).length := by
  rw [cycles, List.length_map, List.length_range]
  exact Nat.lt_succ_self o

theorem getD_cycles (a b : K) {o i : Nat} (hi : i ≤ o) :
    (f.cycles a b o).getD i 0 = Outer.cycled (-f.sign : K) a b i := getD_map_range _ hi

end Recipe

/-! ## Both functions of a jet -/

section Jets
variable {K : Type} [Field K] {p o : Nat} (g : List K) (s c : K)

/-- The first function of a jet, from the values of both. -/
def firstExact (t : Tables) : List K := t.composeExact g (f.cycles s c t.order)

/-- The second function of a jet, from the values of both. -/
def secondExact (t : Tables) : List K := t.composeExact g (f.cycles c (-f.sign * s) t.order)

theorem length_firstExact : (f.firstExact g s c (complete p o)).length = (complete p o).size :=
  length_composeExact p o _ _

theorem length_secondExact : (f.secondExact g s c (complete p o)).length = (complete p o).size :=
  length_composeExact p o _ _

variable [CharZero K]

theorem getD_zero_firstExact : (f.firstExact g s c (complete p o)).getD 0 0 = s :=
  (getD_zero_composeExact g _).trans (f.getD_cycles s _ (Nat.zero_le _))

theorem getD_zero_secondExact : (f.secondExact g s c (complete p o)).getD 0 0 = c :=
  (getD_zero_composeExact g _).trans (f.getD_cycles c _ (Nat.zero_le _))

variable {k : Nat} (hk : k < o) (j : Fin p)

/-- **The derivative of the first function** is the second one. -/
theorem derivative_firstExact :
    derivative hk j (expansion p o (f.firstExact g s c (complete p o))) =
      upTo hk.le (expansion p o (f.secondExact g s c (complete p o))) *
        derivative hk j (expansion p o g) := by
  have next : ∀ i < o, (f.cycles s c o).getD (i + 1) 0 =
      1 * (f.cycles c (-f.sign * s) o).getD i 0 := by
    intro i hi
    rw [getD_cycles f _ _ hi, getD_cycles f _ _ hi.le, Outer.cycled_succ, one_mul]
  rw [firstExact, secondExact, order_complete, derivative_composeExact hk j next, one_smul]

/-- **The derivative of the second function** is the first one, with a sign. -/
theorem derivative_secondExact :
    derivative hk j (expansion p o (f.secondExact g s c (complete p o))) =
      (-f.sign : K) • (upTo hk.le (expansion p o (f.firstExact g s c (complete p o))) *
        derivative hk j (expansion p o g)) := by
  rw [firstExact, secondExact, order_complete]
  refine derivative_composeExact hk j (fun i hi => ?_) g
  rw [getD_cycles f _ _ hi, getD_cycles f _ _ hi.le, Outer.cycled_succ, Outer.cycled_mul]

end Jets

/-! ## The squares -/

/-- **The squares of both functions**, put together so that they have no derivatives. -/
def norm {R : Type} [CommRing R] (s c : R) : R :=
  match f with
  | .sinCos => s ^ 2 + c ^ 2
  | .sinhCosh => c ^ 2 - s ^ 2

theorem norm_eq {R : Type} [CommRing R] (s c : R) : f.norm s c = c ^ 2 + f.sign * s ^ 2 := by
  cases f with
  | sinCos => rw [norm, sign, Int.cast_one, one_mul, add_comm]
  | sinhCosh => rw [norm, sign, Int.cast_neg, Int.cast_one, neg_one_mul, sub_eq_add_neg]

theorem map_norm {R S F : Type} [CommRing R] [CommRing S] [FunLike F R S] [RingHomClass F R S]
    (φ : F) (s c : R) : φ (f.norm s c) = f.norm (φ s) (φ c) := by
  rw [norm_eq, norm_eq, map_add, map_mul, map_pow, map_pow, map_intCast]

/-- Two jets put together like the squares. -/
def unite {K : Type} [CommRing K] (ss cc : List K) : List K :=
  match f with
  | .sinCos => List.zipWith (· + ·) ss cc
  | .sinhCosh => List.zipWith (· - ·) cc ss

/-- **The squares of two jets**, computed and put together. -/
def squares {E : Type} [Arithmetic E] (k : Calculus) (s c : Jet E) :
    Except ArithmeticFault (Jet E) := do
  let ss ← Jet.mul k s s
  let cc ← Jet.mul k c c
  match f with
  | .sinCos => Jet.add ss cc
  | .sinhCosh => Jet.sub cc ss

section Squares
variable {K : Type} [Field K] {p o : Nat}

theorem length_unite {ss cc : List K} (h : ss.length = cc.length) :
    (f.unite ss cc).length = cc.length := by
  cases f <;> rw [unite, List.length_zipWith, h, Nat.min_self]

variable [CharZero K]

theorem expansion_unite (s c : List K) :
    expansion p o (f.unite ((complete p o).mulExact s s) ((complete p o).mulExact c c)) =
      f.norm (expansion p o s) (expansion p o c) := by
  have same : ((complete p o).mulExact s s).length = ((complete p o).mulExact c c).length :=
    (length_mulExact p o s s).trans (length_mulExact p o c c).symm
  cases f with
  | sinCos => rw [unite, expansion_add same, expansion_mulExact, expansion_mulExact, norm, sq, sq]
  | sinhCosh =>
    rw [unite, expansion_sub same.symm, expansion_mulExact, expansion_mulExact, norm, sq, sq]

/-- **Squares without derivatives** leave a value and zeros. -/
theorem unite_mulExact {s c : List K} (h : ∀ k (hk : k < o) (j : Fin p),
      derivative hk j (f.norm (expansion p o s) (expansion p o c)) = 0) :
    f.unite ((complete p o).mulExact s s) ((complete p o).mulExact c c) =
      f.norm (s.getD 0 0) (c.getD 0 0) :: List.replicate ((complete p o).size - 1) 0 := by
  have expanded := f.expansion_unite (p := p) (o := o) s c
  have length := length_mulExact p o c c
  have united := f.length_unite ((length_mulExact p o s s).trans length.symm)
  have constant := eq_constant_of_derivative_eq_zero (united.trans length) fun k hk j =>
    expanded ▸ h k hk j
  have value : (f.unite ((complete p o).mulExact s s) ((complete p o).mulExact c c)).getD 0 0 =
      f.norm (s.getD 0 0) (c.getD 0 0) := by
    rw [← value_expansion (p := p) (o := o), expanded, map_norm, value_expansion, value_expansion]
  rw [constant, value]

/-- **The squares of both functions of a jet** have no derivatives. -/
theorem derivative_norm (g : List K) (s c : K) {k : Nat} (hk : k < o) (j : Fin p) :
    derivative hk j (f.norm (expansion p o (f.firstExact g s c (complete p o)))
      (expansion p o (f.secondExact g s c (complete p o)))) = 0 := by
  have sign : (f.sign : Expansion p o K) = algebraMap K _ f.sign := (map_intCast _ _).symm
  rw [norm_eq, sign, ← Expansion.smul_eq, map_add, map_smul, sq, sq, derivative_mul,
    derivative_mul, derivative_firstExact, derivative_secondExact, Expansion.smul_eq,
    Expansion.smul_eq, map_neg]
  ring

end Squares

/-! ## What is computed -/

section Exact
variable {K E : Type} [Field K] [Arithmetic E] {lift : K → E} (exact : IsExactScalar lift)
  {p o : Nat}
include exact

/-- **Both results of a joint form**, from the values of its functions. -/
theorem parts_eq_ok {g : List K} (hg : g.length = (complete p o).size) {s c : K}
    (sine : apply f.first (lift (g.getD 0 0)) = .ok (lift s))
    (cosine : apply f.second (lift (g.getD 0 0)) = .ok (lift c)) :
    f.parts (complete p o).calculus .faithful (g.map lift) =
      .ok ((f.firstExact g s c (complete p o)).map lift,
        (f.secondExact g s c (complete p o)).map lift) := by
  rw [firstExact, secondExact, order_complete]
  exact f.parts_of_cycles exact.toIsExact exact.neg hg sine cosine
    (f.cycle_eq_cycles exact.neg s c o) (f.cycle_eq_cycles exact.neg c _ o)
    (f.length_cycles s c o) (f.length_cycles c _ o)

/-- The recipe of the first function lists its cycle. -/
theorem derivativesOf_first {x s c : K} (sine : apply f.first (lift x) = .ok (lift s))
    (cosine : apply f.second (lift x) = .ok (lift c)) (o : Nat) :
    Operation.derivativesOf f.first (lift x) o = .ok ((f.cycles s c o).map lift) := by
  have cycle := f.cycle_eq_cycles exact.neg s c o
  cases f <;> exact bind_eq_ok sine (bind_eq_ok cosine cycle)

/-- The recipe of the second function lists its cycle. -/
theorem derivativesOf_second {x s c : K} (sine : apply f.first (lift x) = .ok (lift s))
    (cosine : apply f.second (lift x) = .ok (lift c)) (o : Nat) :
    Operation.derivativesOf f.second (lift x) o = .ok ((f.cycles c (-f.sign * s) o).map lift) := by
  have cycle := f.cycle_eq_cycles exact.neg c (-f.sign * s) o
  cases f with
  | sinCos =>
    have negated : Arithmetic.neg (lift s) = .ok (lift (-(sinCos.sign : K) * s)) := by
      rw [exact.neg, sign, Int.cast_one, neg_one_mul]
    exact bind_eq_ok cosine (bind_eq_ok sine (bind_eq_ok negated cycle))
  | sinhCosh =>
    have kept : -(sinhCosh.sign : K) * s = s := by
      rw [sign, Int.cast_neg, Int.cast_one, neg_neg, one_mul]
    rw [kept] at cycle ⊢
    exact bind_eq_ok cosine (bind_eq_ok sine cycle)

/-- The squares of two jets, put together. -/
theorem squares_eq_ok {s c : List K} (hs : s.length = (complete p o).size)
    (hc : c.length = (complete p o).size) :
    f.squares (complete p o).calculus (s.map lift) (c.map lift) =
      .ok ((f.unite ((complete p o).mulExact s s) ((complete p o).mulExact c c)).map lift) := by
  refine bind_eq_ok (exact.mul_complete hs hs) (bind_eq_ok (exact.mul_complete hc hc) ?_)
  cases f with
  | sinCos => exact zipEach_map exact.add _ _
  | sinhCosh => exact zipEach_map exact.sub _ _

end Exact

/-! ## What is left in buffers -/

/-- **The operation on windows** that puts two squares together. -/
def Unites (t : Tables) (ss cc d : List Rat) : Prop :=
  match f with
  | .sinCos => t.Combines (.binary .add) ss cc d
  | .sinhCosh => t.Combines (.binary .subtract) cc ss d

theorem unites_unite {t : Tables} {ss cc : List Rat} (hs : ss.length = t.size)
    (hc : cc.length = t.size) : f.Unites t ss cc (f.unite ss cc) := by
  have length := (f.length_unite (hs.trans hc.symm)).trans hc
  have exact := Scalar.isExactScalar_rat
  cases f with
  | sinCos => exact combines_slotwise length (fun _ _ _ => rfl) (zipEach_map exact.add ss cc)
  | sinhCosh => exact combines_slotwise length (fun _ _ _ => rfl) (zipEach_map exact.sub cc ss)

/-- What a joint form of rationals leaves. -/
theorem results_rat {p o : Nat} {g : List Rat} (hg : g.length = (complete p o).size) :
    f.results (complete p o) g = .ok
      [Jet.ofRat (f.firstExact g (f.first.onRat (g.getD 0 0)) (f.second.onRat (g.getD 0 0))
        (complete p o)),
      Jet.ofRat (f.secondExact g (f.first.onRat (g.getD 0 0)) (f.second.onRat (g.getD 0 0))
        (complete p o))] := by
  have exact := Scalar.isExactScalar_rat
  rw [firstExact, secondExact, order_complete]
  exact results_of_through hg
    (exact.toIsExact.through_complete hg (f.derivativesOf_first exact rfl rfl o)
      (f.length_cycles _ _ o))
    (exact.toIsExact.through_complete hg (f.derivativesOf_second exact rfl rfl o)
      (f.length_cycles _ _ o))

end JointOperation

/-! ## What callers may rely on -/

/-- **The Pythagorean identity of a joint form**, for the tables `t`. -/
structure Tables.IsPythagorean (t : Tables) (f : JointOperation) : Prop where
  /-- Over exact elements, whatever the values of the two functions are. -/
  identity : ∀ {K E : Type} [Field K] [CharZero K] [Arithmetic E] {lift : K → E},
    IsExactScalar lift → ∀ {g : List K} {sine cosine : K}, g.length = t.size →
      apply f.first (lift (g.getD 0 0)) = .ok (lift sine) →
      apply f.second (lift (g.getD 0 0)) = .ok (lift cosine) → ∃ s c : List K,
        f.parts t.calculus .faithful (g.map lift) = .ok (s.map lift, c.map lift) ∧
        s.getD 0 0 = sine ∧ c.getD 0 0 = cosine ∧
        f.squares t.calculus (s.map lift) (c.map lift) =
          .ok ((f.norm sine cosine :: List.replicate (t.size - 1) 0).map lift)
  /-- The same of what the operations leave in the buffers of their results. -/
  results : ∀ {g : List Rat}, g.length = t.size → ∃ s c ss cc : List Rat,
    f.results t g = .ok [Jet.ofRat s, Jet.ofRat c] ∧
    t.Combines (.binary .multiply) s s ss ∧ t.Combines (.binary .multiply) c c cc ∧
    f.Unites t ss cc (f.norm (s.getD 0 0) (c.getD 0 0) :: List.replicate (t.size - 1) 0)

/-- **Both joint forms satisfy their Pythagorean identity**, for every signature and every jet. -/
theorem Tables.isPythagorean_of_built {p o : Nat} {t : Tables} (h : Built p o t)
    (f : JointOperation) : t.IsPythagorean f := by
  obtain rfl := h.eq_complete
  refine ⟨fun {K E} _ _ _ lift exact g sine cosine hg hs hc => ?_, fun {g} hg => ?_⟩
  · refine ⟨_, _, f.parts_eq_ok exact hg hs hc, f.getD_zero_firstExact g sine cosine,
      f.getD_zero_secondExact g sine cosine, ?_⟩
    rw [f.squares_eq_ok exact (f.length_firstExact g sine cosine)
      (f.length_secondExact g sine cosine), f.unite_mulExact fun k hk j =>
        f.derivative_norm g sine cosine hk j, f.getD_zero_firstExact, f.getD_zero_secondExact]
  · have exact := Scalar.isExact_rat
    have square := fun a : List Rat => length_mulExact p o a a
    have product := fun {a : List Rat} (ha : a.length = (complete p o).size) =>
      combines_multiply (square a) (exact.mul_complete ha ha)
    refine ⟨_, _, _, _, f.results_rat hg, product (f.length_firstExact g _ _),
      product (f.length_secondExact g _ _), ?_⟩
    rw [← f.unite_mulExact fun k hk j => f.derivative_norm g _ _ hk j]
    exact f.unites_unite (square _) (square _)

/-- A jet of two parameters up to order two, with functions that are affine maps. -/
theorem Tables.isPythagorean_two_two : Built 2 2 (complete 2 2) ∧ ∀ f : JointOperation,
    (complete 2 2).IsPythagorean f ∧ ∃ s c : List (ExactNumber Elementary.onRat),
      f.parts (complete 2 2).calculus .faithful ([2, 1, 0, 3, 1, -1].map .mk) = .ok (s, c) ∧
      f.squares (complete 2 2).calculus s c = .ok ((f.norm (f.first.onRat 2) (f.second.onRat 2) ::
        List.replicate ((complete 2 2).size - 1) 0).map .mk) := by
  refine ⟨built_complete 2 2, fun f => ?_⟩
  have identity := isPythagorean_of_built (built_complete 2 2) f
  obtain ⟨s, c, parts, -, -, squares⟩ := identity.identity ExactNumber.isExactScalar
    (g := [2, 1, 0, 3, 1, -1]) (by decide) rfl rfl
  exact ⟨identity, _, _, parts, squares⟩

end JetAlgebra
