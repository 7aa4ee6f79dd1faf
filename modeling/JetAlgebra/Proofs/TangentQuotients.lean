import JetAlgebra.Proofs.Division
import JetAlgebra.Proofs.JetLengths
import JetAlgebra.Proofs.JointForms
import JetAlgebra.Proofs.Substitution
import JetAlgebra.Proofs.Tangents

/-!
# The tangent is the quotient of a joint form

A tangent composes a jet with the derivatives of one recipe.  The quotient of the two results of
a joint form composes it with two other lists, takes a reciprocal and multiplies.  Over exact
elements both give the same jet as soon as the values do.

In one parameter that is the product rule: tangent times cosine is sine, derivative by derivative
(`mulExact_tangents`).  Composition with a jet keeps products (`composeExact_mulExact`), so it
holds for every jet, and the cosine can be divided by if its value is not zero.

The joint form is a function of jets here (`JointOperation.parts`), over any elements; running it on
windows stores what that function makes of the jet in them (`JointOperation.run_of_parts`).
-/
namespace JetAlgebra
open Arithmetic Tables Exponent Polynomial
open Finset.HasAntidiagonal (antidiagonal mem_antidiagonal)

/-! ## One parameter -/

section Single
variable {K : Type} [Field K] [CharZero K] {p o : Nat}

theorem size_single (o : Nat) : (complete 1 o).size = o + 1 := by
  rw [size_complete, Nat.add_comm, Nat.choose_succ_self_right]

/-- **The Leibniz rule** for functions of one parameter. -/
theorem getD_mulExact_single {k : Nat} (hk : k ≤ o) (a b : List K) :
    ((complete 1 o).mulExact a b).getD k 0 =
      ∑ ij ∈ antidiagonal k, k.choose ij.1 • (a.getD ij.1 0 * b.getD ij.2 0) := by
  have slot := getD_mulExact (fits_single_iff.mpr hk) a b
  rw [place_single hk, Finsupp.antidiagonal_single, Finset.sum_map] at slot
  rw [slot]
  refine Finset.sum_congr rfl fun ij hij => ?_
  have sum : ij.1 + ij.2 = k := mem_antidiagonal.mp hij
  have left : place 1 o (Finsupp.single 0 ij.1) = ij.1 := place_single (by omega)
  have right : place 1 o (Finsupp.single 0 ij.2) = ij.2 := place_single (by omega)
  show (factorial (Finsupp.single 0 k) : K) / (factorial (Finsupp.single 0 ij.1) *
    factorial (Finsupp.single 0 ij.2) : Nat) * (a.getD (place 1 o (Finsupp.single 0 ij.1)) 0 *
      b.getD (place 1 o (Finsupp.single 0 ij.2)) 0) = _
  rw [left, right, factorial_single, factorial_single, factorial_single, nsmul_eq_mul, ← sum,
    Nat.cast_add_choose, Nat.cast_mul]

/-- **Composition keeps products.** -/
theorem composeExact_mulExact (g a b : List K) :
    (complete p o).composeExact g ((complete 1 o).mulExact a b) =
      (complete p o).mulExact ((complete p o).composeExact g a)
        ((complete p o).composeExact g b) := by
  refine eq_of_expansion_eq (length_composeExact p o _ _) (length_mulExact p o _ _) ?_
  rw [expansion_composeExact_eq, expansion_mulExact, expansion_mulExact, map_mul,
    expansion_composeExact_eq, expansion_composeExact_eq]

/-- The derivatives of a tangent with the value `t`. -/
noncomputable def tangents (s : Int) (t : K) (o : Nat) : List K :=
  (List.range (o + 1)).map fun n => (Outer.tangentPolynomial s n).eval t

/-- The derivatives of a polynomial in the tangent times the cosine, where they have the values
`t` and `c`. -/
noncomputable def cosines (s : Int) (P : K[X]) (t c : K) (o : Nat) : List K :=
  (List.range (o + 1)).map fun n => (Outer.overCosine s P n).eval t * c

omit [CharZero K] in
theorem getD_tangents (s : Int) (t : K) {k : Nat} (hk : k ≤ o) :
    (tangents s t o).getD k 0 = (Outer.tangentPolynomial s k).eval t := getD_map_range _ hk

omit [CharZero K] in
theorem getD_cosines (s : Int) (P : K[X]) (t c : K) {k : Nat} (hk : k ≤ o) :
    (cosines s P t c o).getD k 0 = (Outer.overCosine s P k).eval t * c := getD_map_range _ hk

/-- **Tangent times cosine is sine**, with all derivatives. -/
theorem mulExact_tangents (s : Int) (t c : K) :
    (complete 1 o).mulExact (tangents s t o) (cosines s 1 t c o) = cosines s X t c o := by
  have length := (length_mulExact 1 o (tangents s t o) (cosines s 1 t c o)).trans (size_single o)
  refine List.ext_getElem (length.trans (by simp [cosines])) fun k hk hk' => ?_
  have inside : k ≤ o := by omega
  have left := getD_mulExact_single inside (tangents s t o) (cosines s 1 t c o)
  have right := getD_cosines s X t c inside
  rw [List.getD_eq_getElem _ _ hk] at left
  rw [List.getD_eq_getElem _ _ hk'] at right
  rw [left, right, Outer.sum_choose_mul, eval_finsetSum, Finset.sum_mul]
  refine Finset.sum_congr rfl fun ij hij => ?_
  have sum : ij.1 + ij.2 = k := mem_antidiagonal.mp hij
  rw [getD_tangents s t (by omega), getD_cosines s 1 t c (by omega), eval_smul, eval_mul,
    nsmul_eq_mul, nsmul_eq_mul]
  ring

end Single

/-! ## Joint forms over exact elements -/

/-- **A function that is known by its derivatives**, composed with a jet. -/
theorem IsExact.through_complete {K E : Type} [Field K] [Arithmetic E] {lift : K → E}
    (exact : IsExact lift) {p o : Nat} {g l : List K} (hg : g.length = (complete p o).size)
    {f : E → Nat → Except ArithmeticFault (List E)}
    (hf : f (lift (g.getD 0 0)) o = .ok (l.map lift)) (hl : o < l.length) :
    Jet.through (complete p o).calculus .faithful (g.map lift) f =
      .ok (((complete p o).composeExact g l).map lift) := by
  have order : (complete p o).calculus.order = o := order_complete p o
  refine bind_eq_ok (Jet.value_map (hg ▸ size_pos p o)) ?_
  rw [order]
  exact bind_eq_ok hf (bind_eq_ok (Storage.mapM_store _) (exact.compose_complete hg hl))

namespace JointOperation

/-- The quotient of the two functions. -/
def tangent : JointOperation → Elementary
  | .sinCos => .tan
  | .sinhCosh => .tanh

/-- The sign that tells the two joint forms apart. -/
def sign : JointOperation → Int
  | .sinCos => 1
  | .sinhCosh => -1

/-- **Both results** of a joint form. -/
def parts {E : Type} [Arithmetic E] (f : JointOperation) (k : Calculus) (s : Storage E)
    (g : Jet E) : Except ArithmeticFault (Jet E × Jet E) := do
  let (alternating, one, two) ← Operation.jointStarts f (← slot g 0)
  let part (c : E × E) (_ : E) (order : Nat) := Outer.cycle alternating (order + 1) c.1 c.2
  return (← Jet.through k s g (part one), ← Jet.through k s g (part two))

/-- **What both results are**: compositions with the cycles that start from the values of the two
functions. -/
theorem exists_of_parts {E : Type} [Arithmetic E] {f : JointOperation} {k : Calculus}
    {s : Storage E} {g x y : Jet E} (h : f.parts k s g = .ok (x, y)) : ∃ v alternating one two,
    slot g 0 = .ok v ∧ Operation.jointStarts f v = .ok (alternating, one, two) ∧
    Jet.through k s g (fun _ order => Outer.cycle alternating (order + 1) one.1 one.2) = .ok x ∧
    Jet.through k s g (fun _ order => Outer.cycle alternating (order + 1) two.1 two.2) = .ok y := by
  obtain ⟨v, value, h⟩ := bind_eq_ok_iff.mp h
  obtain ⟨⟨alternating, one, two⟩, starts, h⟩ := bind_eq_ok_iff.mp h
  obtain ⟨x, first, h⟩ := bind_eq_ok_iff.mp h
  obtain ⟨y, second, h⟩ := bind_eq_ok_iff.mp h
  cases h
  exact ⟨v, alternating, one, two, value, starts, first, second⟩

/-- **Running a joint form** stores both results, the second one into what the first one leaves, if
the operand is still there. -/
theorem run_of_parts {f : JointOperation} {k : Calculus} {m m' : Memory}
    {operand first second : Window} {s : Storage Scalar} {g x y : Jet Scalar}
    (h : f.parts k s g = .ok (x, y)) (hs : Operation.storageOf m operand = s)
    (hg : Operation.read k m "operand" operand = .ok g)
    (hx : Operation.checkResult k m first = .ok ())
    (stored : (Operation.writeTo first x).run.run m = (.ok (), m'))
    (hs' : Operation.storageOf m' operand = s)
    (hg' : Operation.read k m' "operand" operand = .ok g)
    (hy : Operation.checkResult k m' second = .ok ()) :
    (Operation.run k (.joint f operand first second)).run.run m =
      (Operation.writeTo second y).run.run m' := by
  obtain ⟨v, alternating, one, two, value, starts, computed, computed'⟩ := exists_of_parts h
  rw [run_joint (bind_eq_ok hg (bind_eq_ok (mapError_eq_ok_iff.mpr value)
    (mapError_eq_ok_iff.mpr starts))), run_bind, run_compute_through hs hg hx computed, stored]
  exact run_compute_through hs' hg' hy computed'

/-- Both results fill their windows. -/
theorem length_of_parts {f : JointOperation} {k : Calculus} (hk : k.IsFull) {s : Storage Scalar}
    {g x y : Jet Scalar} (h : f.parts k s g = .ok (x, y)) :
    x.length = k.size ∧ y.length = k.size := by
  obtain ⟨_, _, _, _, -, -, first, second⟩ := exists_of_parts h
  exact ⟨length_of_through hk first, length_of_through hk second⟩

/-- **Both results are left in buffers of their own**, on rational jets. -/
theorem results_of_parts {f : JointOperation} {p o : Nat} {a : List Rat}
    (ha : a.length = (complete p o).size) {x y : Jet Scalar}
    (h : f.parts (complete p o).calculus .faithful (Jet.ofRat a) = .ok (x, y)) :
    f.results (complete p o) a = .ok [x, y] := by
  obtain ⟨hx, hy⟩ := length_of_parts (isFull p o) h
  have filled : ∀ {v : Jet Scalar}, v.length = (complete p o).size →
      (List.replicate (complete p o).size Scalar.unset).length = v.length :=
    fun h => List.length_replicate.trans h.symm
  have stored : (Operation.writeTo ⟨"r", 0⟩ x).run.run (memory (complete p o) a) =
      (.ok (), (memory (complete p o) a).set "r" (.boxed x)) :=
    run_writeTo_boxed rfl rfl (filled hx)
  have read := JetOperation.length_ofRat ha
  rw [results, operation, run_of_parts h (storageOf_boxed rfl) (read_boxed rfl rfl read _)
    (checkResult_boxed rfl rfl List.length_replicate) stored (storageOf_boxed rfl)
    (read_boxed rfl rfl read _) (checkResult_boxed rfl rfl List.length_replicate),
    run_writeTo_boxed rfl rfl (filled hy)]
  rfl

section Parts
variable {K E : Type} [Field K] [Arithmetic E] {lift : K → E}

/-- The two cycles of a joint form, from the values of its functions. -/
theorem jointStarts_eq_ok (neg : ∀ x, Arithmetic.neg (lift x) = .ok (lift (-x)))
    (f : JointOperation) {x s c : K} (sine : apply f.first (lift x) = .ok (lift s))
    (cosine : apply f.second (lift x) = .ok (lift c)) :
    Operation.jointStarts f (lift x) = .ok (f = .sinCos, (lift s, lift c),
      (lift c, lift (-f.sign * s))) := by
  cases f with
  | sinCos =>
    refine bind_eq_ok sine (bind_eq_ok cosine (bind_eq_ok (neg _) ?_))
    rw [sign, Int.cast_one, neg_one_mul]
    rfl
  | sinhCosh =>
    refine bind_eq_ok sine (bind_eq_ok cosine ?_)
    rw [sign, Int.cast_neg, Int.cast_one, neg_neg, one_mul]
    rfl

/-- **A joint form** composes the jet with what its two cycles list. -/
theorem parts_of_cycles (exact : IsExact lift)
    (neg : ∀ x, Arithmetic.neg (lift x) = .ok (lift (-x))) (f : JointOperation) {p o : Nat}
    {g : List K} (hg : g.length = (complete p o).size) {s c : K}
    (sine : apply f.first (lift (g.getD 0 0)) = .ok (lift s))
    (cosine : apply f.second (lift (g.getD 0 0)) = .ok (lift c)) {l₁ l₂ : List K}
    (first : Outer.cycle (f = .sinCos) (o + 1) (lift s) (lift c) = .ok (l₁.map lift))
    (second : Outer.cycle (f = .sinCos) (o + 1) (lift c) (lift (-f.sign * s)) =
      .ok (l₂.map lift)) (h₁ : o < l₁.length) (h₂ : o < l₂.length) :
    f.parts (complete p o).calculus .faithful (g.map lift) =
      .ok (((complete p o).composeExact g l₁).map lift,
        ((complete p o).composeExact g l₂).map lift) :=
  bind_eq_ok (slot_map (i := 0) (hg ▸ size_pos p o))
    (bind_eq_ok (jointStarts_eq_ok neg f sine cosine)
      (bind_eq_ok (exact.through_complete hg first h₁)
        (bind_eq_ok (exact.through_complete hg second h₂) rfl)))

end Parts

variable {K E : Type} [Field K] [Arithmetic E] {lift : K → E} (exact : IsExactElement lift)
  (f : JointOperation)
include exact

/-- **A cycle** lists the derivatives of sine or cosine. -/
theorem cycle_eq_cosines {P : K[X]} (h : P = 1 ∨ P = X) (t c : K) (order : Nat) :
    Outer.cycle (f = .sinCos) (order + 1) (lift (P.eval t * c))
        (lift ((Outer.overCosine f.sign P 1).eval t * c)) =
      .ok ((cosines f.sign P t c order).map lift) := by
  have repeats : ∀ k, (Outer.overCosine f.sign P (k + 2)).eval t * c =
      if f = .sinCos then -((Outer.overCosine f.sign P k).eval t * c)
        else (Outer.overCosine f.sign P k).eval t * c := by
    intro k
    rw [Outer.overCosine_add_two f.sign h, eval_mul, eval_C]
    cases f with
    | sinCos => rw [if_pos rfl, sign]; push_cast; ring
    | sinhCosh => rw [if_neg (by decide), sign]; push_cast; ring
  rw [cosines, List.map_map]
  exact Outer.cycle_eq_ok exact.neg
    (w := fun k => (Outer.overCosine f.sign P k).eval t * c)
    (fun k => (repeats k).trans (if_congr decide_eq_true_iff.symm rfl rfl)) (order + 1)

/-- **A joint form** composes the jet with the derivatives of both functions. -/
theorem parts_complete [CharZero K] {p o : Nat} {g : List K} (hg : g.length = (complete p o).size)
    {t c : K} (sine : apply f.first (lift (g.getD 0 0)) = .ok (lift (t * c)))
    (cosine : apply f.second (lift (g.getD 0 0)) = .ok (lift c)) :
    f.parts (complete p o).calculus .faithful (g.map lift) =
      .ok (((complete p o).composeExact g (cosines f.sign X t c o)).map lift,
        ((complete p o).composeExact g (cosines f.sign 1 t c o)).map lift) := by
  have first := cycle_eq_cosines exact f (Or.inr rfl) t c o
  have second := cycle_eq_cosines exact f (Or.inl rfl) t c o
  rw [eval_X, Outer.overCosine_X_one, eval_one, one_mul] at first
  rw [Outer.overCosine_one_one, eval_mul, eval_C, eval_X, eval_one, one_mul, mul_assoc] at second
  have enough : ∀ P : K[X], o < (cosines f.sign P t c o).length := fun P => by simp [cosines]
  exact parts_of_cycles exact.toIsExact exact.neg f hg sine cosine first second (enough X)
    (enough 1)

/-- The recipe of the tangent lists its derivatives. -/
theorem derivativesOf_tangent {x t : K} (value : apply f.tangent (lift x) = .ok (lift t))
    (order : Nat) : Operation.derivativesOf f.tangent (lift x) order =
      .ok ((tangents f.sign t order).map lift) := by
  have recipe : Operation.derivativesOf f.tangent (lift x) order =
      (apply f.tangent (lift x) >>= fun v => Outer.tangent f.sign v order) := by cases f <;> rfl
  rw [recipe, tangents, List.map_map]
  exact bind_eq_ok value (Outer.tangent_eq_ok exact.toIsExactRing f.sign t order)

end JointOperation

/-- **Both tangents are the quotients of the joint forms**, slot by slot: for every signature and
every jet, if the cosine of its value is not zero and the values fit. -/
theorem Tables.tangent_eq_quotient_of_built {p o : Nat} {t : Tables} (h : Built p o t)
    {K E : Type} [Field K] [CharZero K] [Arithmetic E] {lift : K → E}
    (exact : IsExactElement lift) (f : JointOperation) {g : List K} (hg : g.length = t.size)
    {sine cosine tangent : K} (hs : apply f.first (lift (g.getD 0 0)) = .ok (lift sine))
    (hc : apply f.second (lift (g.getD 0 0)) = .ok (lift cosine))
    (ht : apply f.tangent (lift (g.getD 0 0)) = .ok (lift tangent)) (nonzero : cosine ≠ 0)
    (fit : tangent * cosine = sine) : ∃ s c q : List K,
      f.parts t.calculus .faithful (g.map lift) = .ok (s.map lift, c.map lift) ∧
      Jet.divide t.calculus .faithful (s.map lift) (c.map lift) = .ok (q.map lift) ∧
      Jet.through t.calculus .faithful (g.map lift) (Operation.derivativesOf f.tangent) =
        .ok (q.map lift) := by
  obtain rfl := h.eq_complete
  subst fit
  have length := length_composeExact p o g
  have value :
      ((complete p o).composeExact g (cosines f.sign 1 tangent cosine o)).getD 0 0 ≠ 0 := by
    rw [getD_zero_composeExact, getD_cosines _ _ _ _ (Nat.zero_le o)]
    show eval tangent 1 * cosine ≠ 0
    rwa [eval_one, one_mul]
  have quotient : (complete p o).divExact
      ((complete p o).composeExact g (cosines f.sign X tangent cosine o))
      ((complete p o).composeExact g (cosines f.sign 1 tangent cosine o)) =
        (complete p o).composeExact g (tangents f.sign tangent o) := by
    rw [← mulExact_tangents, composeExact_mulExact, divExact_mulExact (length _) (length _) value]
  have divided := exact.toIsExactDivision.divide_complete
    (length (cosines f.sign X tangent cosine o)) (length _) value
  rw [quotient] at divided
  refine ⟨_, _, _, JointOperation.parts_complete exact f hg hs hc, divided,
    exact.toIsExact.through_complete hg (f.derivativesOf_tangent exact ht o) ?_⟩
  rw [tangents, List.length_map, List.length_range]
  exact Nat.lt_succ_self o

/-- Sine, cosine and tangent of an angle, circular and hyperbolic, as functions of the tangent of
half the angle. -/
def halfAngle : Elementary → Rat → Rat
  | .sin, t | .tanh, t => 2 * t / (1 + t ^ 2)
  | .cos, t => (1 - t ^ 2) / (1 + t ^ 2)
  | .tan, t | .sinh, t => 2 * t / (1 - t ^ 2)
  | .cosh, t => (1 + t ^ 2) / (1 - t ^ 2)
  | _, t => t

/-- A jet of two parameters up to order two, for both joint forms. -/
theorem Tables.tangent_eq_quotient_two_two : Built 2 2 (complete 2 2) ∧ ∀ f : JointOperation,
    halfAngle f.second 2 ≠ 0 ∧
    halfAngle f.tangent 2 * halfAngle f.second 2 = halfAngle f.first 2 ∧
    ∃ s c q : List (ExactNumber halfAngle),
      f.parts (complete 2 2).calculus .faithful ([2, 1, 0, 3, 1, -1].map .mk) = .ok (s, c) ∧
      Jet.divide (complete 2 2).calculus .faithful s c = .ok q ∧
      Jet.through (complete 2 2).calculus .faithful ([2, 1, 0, 3, 1, -1].map .mk)
        (Operation.derivativesOf f.tangent) = .ok q := by
  refine ⟨built_complete 2 2, fun f => ?_⟩
  have nonzero : halfAngle f.second 2 ≠ 0 := by cases f <;> decide +kernel
  have fit : halfAngle f.tangent 2 * halfAngle f.second 2 = halfAngle f.first 2 := by
    cases f <;> decide +kernel
  obtain ⟨s, c, q, parts, quotient, tangent⟩ := tangent_eq_quotient_of_built (built_complete 2 2)
    (ExactNumber.isExactElement : IsExactElement (.mk : Rat → ExactNumber halfAngle)) f
    (g := [2, 1, 0, 3, 1, -1]) (by decide) rfl rfl rfl nonzero fit
  exact ⟨nonzero, fit, _, _, _, parts, quotient, tangent⟩

end JetAlgebra
