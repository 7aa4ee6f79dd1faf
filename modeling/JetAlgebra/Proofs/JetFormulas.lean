import JetAlgebra.Proofs.RationalRecipes

/-!
# Formulas of operations

Whether an operation on rational jets has a result depends on the values of the operands and on
the order alone, and so does the formula by which the expansion of the result comes from those of
the operands: a linear combination, a product, or the Taylor sum of a recipe (`Formula`).

`JetOperation.HasFormula` says which formulas an operation follows.  An operation that succeeds
has one (`exists_hasFormula`), one that has a formula succeeds, with the value of the formula as
the expansion of its result (`HasFormula.jet_eq`), and a formula for one order is one for every
lower order, without the derivatives in between (`HasFormula.upTo`).
-/
namespace JetAlgebra
open Arithmetic Scalar Tables Exponent

/-! ## Formulas -/

/-- **How a result comes from its operands**, with all that depends on their values worked
out. -/
inductive Formula where
  | linear (u v c : Rat)
  | product
  /-- The first operand times a function of the second one. -/
  | quotient (r : Recipe Rat)
  /-- A function of the first operand. -/
  | function (r : Recipe Rat)

section Value
variable {R S : Type} [CommRing R] [Algebra Rat R] [CommRing S] [Algebra Rat S]

/-- The Taylor sum of a recipe at `x`, with the value `x₀` for the center. -/
noncomputable def Recipe.series (o : Nat) (x₀ : Rat) (x : R) : Recipe Rat → R
  | .constant c => algebraMap Rat R c
  | .compose f => ∑ i ∈ Finset.range (o + 1), (f.getD i 0 / (i.factorial : Rat)) •
      (x - algebraMap Rat R x₀) ^ i

/-- The result of a formula. -/
noncomputable def Formula.value (o : Nat) (a₀ b₀ : Rat) (a b : R) : Formula → R
  | .linear u v c => u • a + v • b + algebraMap Rat R c
  | .product => a * b
  | .quotient r => a * r.series o b₀ b
  | .function r => r.series o a₀ a

/-- The formula for an order. -/
def Formula.upTo (k : Nat) : Formula → Formula
  | .linear u v c => .linear u v c
  | .product => .product
  | .quotient r => .quotient (r.upTo k)
  | .function r => .function (r.upTo k)

theorem getD_take_succ (f : List Rat) {i k : Nat} (hi : i ≤ k) :
    (f.take (k + 1)).getD i 0 = f.getD i 0 := by
  rw [List.getD_eq_getElem?_getD, List.getElem?_take_of_lt (Nat.lt_succ_of_le hi),
    List.getD_eq_getElem?_getD]

theorem Formula.upTo_upTo (F : Formula) (k : Nat) : (F.upTo k).upTo k = F.upTo k := by
  cases F with
  | linear | product => rfl
  | quotient r => exact congrArg quotient (Recipe.upTo_upTo r (Nat.le_refl k))
  | function r => exact congrArg function (Recipe.upTo_upTo r (Nat.le_refl k))

/-- **A map of algebras keeps a Taylor sum**, as long as there are no powers beyond the lower
order where it goes. -/
theorem Recipe.map_series (θ : R →ₐ[Rat] S) {k o : Nat} (hk : k ≤ o) (x₀ : Rat) (x : R)
    (nilpotent : ∀ i, k < i → (θ x - algebraMap Rat S x₀) ^ i = 0) (r : Recipe Rat) :
    θ (r.series o x₀ x) = (r.upTo k).series k x₀ (θ x) := by
  cases r with
  | constant c => exact θ.commutes c
  | compose f =>
    calc θ (∑ i ∈ Finset.range (o + 1), (f.getD i 0 / (i.factorial : Rat)) •
          (x - algebraMap Rat R x₀) ^ i)
        = ∑ i ∈ Finset.range (o + 1), (f.getD i 0 / (i.factorial : Rat)) •
            (θ x - algebraMap Rat S x₀) ^ i := by
          rw [map_sum]
          exact Finset.sum_congr rfl fun i _ => by
            rw [map_smul, map_pow, map_sub, AlgHom.commutes]
      _ = ∑ i ∈ Finset.range (k + 1), (f.getD i 0 / (i.factorial : Rat)) •
            (θ x - algebraMap Rat S x₀) ^ i := by
          refine (Finset.sum_subset (Finset.range_mono (Nat.succ_le_succ hk)) fun i _ hi => ?_).symm
          rw [nilpotent i (by simpa using hi), smul_zero]
      _ = ∑ i ∈ Finset.range (k + 1), ((f.take (k + 1)).getD i 0 / (i.factorial : Rat)) •
            (θ x - algebraMap Rat S x₀) ^ i :=
          Finset.sum_congr rfl fun i hi => by
            rw [getD_take_succ f (Nat.lt_succ_iff.mp (Finset.mem_range.mp hi))]

/-- **A map of algebras keeps the value of a formula.** -/
theorem Formula.map_value (θ : R →ₐ[Rat] S) {k o : Nat} (hk : k ≤ o) (a₀ b₀ : Rat) (a b : R)
    (ha : ∀ i, k < i → (θ a - algebraMap Rat S a₀) ^ i = 0)
    (hb : ∀ i, k < i → (θ b - algebraMap Rat S b₀) ^ i = 0) (F : Formula) :
    θ (F.value o a₀ b₀ a b) = (F.upTo k).value k a₀ b₀ (θ a) (θ b) := by
  cases F with
  | linear u v c =>
    rw [value, upTo, value, map_add, map_add, map_smul, map_smul, AlgHom.commutes]
  | product => exact map_mul θ a b
  | quotient r => rw [value, upTo, value, map_mul, r.map_series θ hk b₀ b hb]
  | function r => exact r.map_series θ hk a₀ a ha

end Value

/-! ## The formulas of operations -/

/-- **The formulas that an operation may follow**, on jets up to order `o` with `size` slots
and with these values. -/
inductive JetOperation.HasFormula (o size : Nat) (a₀ b₀ : Rat) :
    JetOperation → Formula → Prop where
  | add : HasFormula o size a₀ b₀ .add (.linear 1 1 0)
  | subtract : HasFormula o size a₀ b₀ .subtract (.linear 1 (-1) 0)
  | multiply : HasFormula o size a₀ b₀ .multiply .product
  | divide {r : Recipe Rat} (h : Recipe.IsStable (Outer.integerPower (-1) (rat b₀)) o r) :
    HasFormula o size a₀ b₀ .divide (.quotient r)
  /-- The quotient is a double, of which an exact number is needed only if there are
  derivatives. -/
  | remainder {r q : Rat} {n : Float} (hr : Arithmetic.remainder (rat a₀) (rat b₀) = .ok (rat r))
    (hn : Jet.quotient (rat a₀) (rat b₀) (rat r) = .ok n)
    (hq : Exact.ofFloat n = .ok q ∨ size = 1) :
    HasFormula o size a₀ b₀ .remainder (.linear 1 (-q) (r - a₀ + q * b₀))
  | compose {f : List Rat} (h : o < f.length) :
    HasFormula o size a₀ b₀ (.compose f) (.function (.compose (f.take (o + 1))))
  | function {f : JetFunction} {r : Recipe Rat} (h : Recipe.IsStable (f.recipe (rat a₀)) o r) :
    HasFormula o size a₀ b₀ (.function f) (.function r)

namespace JetOperation

/-- **A formula for an order is one for every lower order.** -/
theorem HasFormula.upTo {o size : Nat} {a₀ b₀ : Rat} {op : JetOperation} {F : Formula}
    (h : op.HasFormula o size a₀ b₀ F) {k size' : Nat} (hk : k ≤ o) (hs : size = 1 → size' = 1) :
    op.HasFormula k size' a₀ b₀ (F.upTo k) := by
  cases h with
  | add => exact .add
  | subtract => exact .subtract
  | multiply => exact .multiply
  | divide h => exact .divide (h.upTo hk)
  | remainder hr hn hq => exact .remainder hr hn (hq.imp_right hs)
  | @compose f h =>
    have shorter : (f.take (o + 1)).take (k + 1) = f.take (k + 1) := by
      rw [List.take_take, Nat.min_eq_left (by omega)]
    show HasFormula k size' a₀ b₀ _ (.function (.compose ((f.take (o + 1)).take (k + 1))))
    rw [shorter]
    exact .compose (by omega)
  | function h => exact .function (h.upTo hk)

section Jets
variable {p o : Nat} {a b : List Rat} (ha : a.length = (complete p o).size)
  (hb : b.length = (complete p o).size)

theorem value_eq {g : List Rat} (hg : g.length = (complete p o).size) :
    Jet.value .faithful (Jet.ofRat g) = .ok (rat (g.getD 0 0)) :=
  Jet.value_map (hg ▸ size_pos p o)

/-- **What a recipe makes of a jet** has the Taylor sum for its expansion. -/
theorem follow_rat {g : List Rat} (hg : g.length = (complete p o).size) {r : Recipe Rat}
    (reaches : r.Reaches o) : ∃ c : List Rat, c.length = (complete p o).size ∧
      Jet.follow (complete p o).calculus .faithful (Jet.ofRat g) r.ofRat = .ok (Jet.ofRat c) ∧
      expansion p o c = r.series o (g.getD 0 0) (expansion p o g) := by
  cases r with
  | constant c =>
    exact ⟨c :: List.replicate ((complete p o).size - 1) 0, length_constant p o c 0,
      bind_eq_ok (value_eq hg) (isExactField_rat.constant_complete _ c), expansion_constant p o c _⟩
  | compose f =>
    have enough : o < f.length := by rw [show f.length = o + 1 from reaches]; omega
    refine ⟨(complete p o).composeExact g f, length_composeExact p o g f, ?_, ?_⟩
    · refine bind_eq_ok (Storage.mapM_store _) ?_
      rw [isExactField_rat.compose_complete hg enough]
    · rw [expansion_composeExact, expansion_set_zero]
      rfl

/-- The quotient of the values is a number if there is any derivative that it is a factor of. -/
theorem exists_factor {g : List Rat} (hg : g.length = (complete p o).size) {n : Float}
    {multiples : Jet Scalar}
    (h : ((Jet.ofRat g).tail.mapM fun y => Arithmetic.mul y (ofFloat n)) = .ok multiples) :
    ∃ q, Exact.ofFloat n = .ok q ∨ (complete p o).size = 1 := by
  cases hn : Exact.ofFloat n with
  | ok q => exact ⟨q, .inl rfl⟩
  | error fault =>
    refine ⟨0, .inr ?_⟩
    match g, hg with
    | [], hg => exact absurd hg.symm (size_pos p o).ne'
    | [x], hg => exact hg.symm
    | x :: y :: g, _ =>
      -- The first derivative cannot be multiplied.
      have refused : Arithmetic.mul (rat y) (ofFloat n) = .error fault := by
        show (Exact.ofFloat n >>= _) = _
        rw [hn]
        rfl
      rw [Jet.ofRat, List.map_cons, List.map_cons, List.tail_cons, List.mapM_cons, refused] at h
      cases h

/-- The exact remainder of two rationals is a rational. -/
theorem exists_remainder {x y : Rat} {v : Scalar}
    (h : Arithmetic.remainder (rat x) (rat y) = .ok v) : ∃ r, v = rat r := by
  obtain ⟨r, -, h⟩ := bind_eq_ok_iff.mp h
  cases h
  exact ⟨r, rfl⟩

/-- Multiples of the derivatives, if there are any. -/
theorem multiples_eq {g : List Rat} (hg : g.length = (complete p o).size) {n : Float} {q : Rat}
    (hq : Exact.ofFloat n = .ok q ∨ (complete p o).size = 1) :
    ((Jet.ofRat g).tail.mapM fun y => Arithmetic.mul y (ofFloat n)) =
      .ok (Jet.ofRat (g.tail.map (· * q))) := by
  rcases hq with hq | size
  · have factor : ∀ y : Rat, Arithmetic.mul (rat y) (ofFloat n) = .ok (rat (y * q)) := fun y =>
      bind_eq_ok hq rfl
    rw [Jet.ofRat, ← List.map_tail, List.mapM_map, Jet.ofRat, List.map_map]
    exact mapM_eq_ok fun y _ => factor y
  · obtain ⟨y, rfl⟩ := List.length_eq_one_iff.mp (hg.trans size)
    rfl

include ha hb

/-- The jet of a remainder is a linear combination of the operands, but for its value. -/
theorem expansion_remainder (r q : Rat) :
    expansion p o (r :: List.zipWith (· - ·) a.tail (b.tail.map (· * q))) =
      (Formula.linear 1 (-q) (r - a.getD 0 0 + q * b.getD 0 0)).value o (a.getD 0 0) (b.getD 0 0)
        (expansion p o a) (expansion p o b) := by
  obtain ⟨x, as, rfl⟩ := List.exists_cons_of_length_pos (ha ▸ size_pos p o)
  obtain ⟨y, bs, rfl⟩ := List.exists_cons_of_length_pos (hb ▸ size_pos p o)
  have lengths : as.length = (bs.map (· * q)).length := by
    rw [List.length_map]
    exact Nat.succ.inj (ha.trans hb.symm)
  have slots : ∀ i, ((r :: List.zipWith (· - ·) as (bs.map (· * q))).set 0 0).getD i 0 =
      1 * ((x :: as).set 0 0).getD i 0 + -q * ((y :: bs).set 0 0).getD i 0 := by
    intro i
    cases i with
    | zero => simp
    | succ i =>
      have multiple : (bs.map (· * q)).getD i 0 = bs.getD i 0 * q := by
        rw [List.getD_eq_getElem?_getD, List.getElem?_map, List.getD_eq_getElem?_getD]
        cases bs[i]? <;> simp
      simp only [List.set_cons_zero, List.getD_cons_succ]
      rw [getD_zipWith (sub_zero 0) lengths, multiple]
      ring
  have derivatives := expansion_combination (p := p) (o := o) slots
  rw [expansion_set_zero, expansion_set_zero, expansion_set_zero, Expansion.smul_eq,
    Expansion.smul_eq, map_one, map_neg] at derivatives
  rw [Formula.value, Expansion.smul_eq, Expansion.smul_eq, map_one, map_neg, map_add, map_sub,
    map_mul]
  simp only [List.getD_cons_zero, List.tail_cons] at derivatives ⊢
  linear_combination derivatives

/-- **An operation that succeeds has a formula.** -/
theorem exists_hasFormula {op : JetOperation} {values : Jet Scalar}
    (h : op.jet (complete p o).calculus (Jet.ofRat a) (Jet.ofRat b) = .ok values) :
    ∃ F, op.HasFormula o (complete p o).size (a.getD 0 0) (b.getD 0 0) F := by
  have order : (complete p o).calculus.order = o := order_complete p o
  cases op with
  | add => exact ⟨_, .add⟩
  | subtract => exact ⟨_, .subtract⟩
  | multiply => exact ⟨_, .multiply⟩
  | divide =>
    obtain ⟨stored, hs, -⟩ := bind_eq_ok_iff.mp (mapError_eq_ok_iff.mp h)
    obtain ⟨reciprocal, hr, -⟩ := bind_eq_ok_iff.mp hs
    obtain ⟨v, hv, hr⟩ := bind_eq_ok_iff.mp hr
    obtain rfl := Except.ok.inj (hv.symm.trans (value_eq hb))
    obtain ⟨R, hR, -⟩ := bind_eq_ok_iff.mp hr
    rw [order] at hR
    obtain ⟨r, stable⟩ := JetFunction.recipe_power (-1) _ hR
    exact ⟨_, .divide stable⟩
  | remainder =>
    obtain ⟨x, hx, h⟩ := bind_eq_ok_iff.mp (mapError_eq_ok_iff.mp h)
    obtain ⟨y, hy, h⟩ := bind_eq_ok_iff.mp h
    obtain rfl := Except.ok.inj (hx.symm.trans (slot_map (ha ▸ size_pos p o)))
    obtain rfl := Except.ok.inj (hy.symm.trans (slot_map (hb ▸ size_pos p o)))
    obtain ⟨v, hr, h⟩ := bind_eq_ok_iff.mp h
    obtain ⟨r, rfl⟩ := exists_remainder hr
    obtain ⟨n, hn, h⟩ := bind_eq_ok_iff.mp h
    obtain ⟨multiples, hm, -⟩ := bind_eq_ok_iff.mp h
    obtain ⟨q, hq⟩ := exists_factor hb hm
    exact ⟨_, .remainder hr hn hq⟩
  | compose f =>
    rw [jet, order] at h
    split at h
    · cases h
    · exact ⟨_, .compose (by omega)⟩
  | function f =>
    obtain ⟨R, hR, -⟩ := bind_eq_ok_iff.mp (mapError_eq_ok_iff.mp h)
    obtain ⟨v, hv, hR⟩ := bind_eq_ok_iff.mp hR
    obtain rfl := Except.ok.inj (hv.symm.trans (value_eq ha))
    rw [order] at hR
    obtain ⟨r, stable⟩ := f.recipe_rat _ hR
    exact ⟨_, .function stable⟩

/-- **The quotient of two jets**, from the recipe of the reciprocal. -/
theorem divide_rat {r : Recipe Rat}
    (h : Recipe.IsStable (Outer.integerPower (-1) (rat (b.getD 0 0))) o r) :
    ∃ c : List Rat, c.length = (complete p o).size ∧
      Jet.divide (complete p o).calculus .faithful (Jet.ofRat a) (Jet.ofRat b) =
        .ok (Jet.ofRat c) ∧
      expansion p o c = expansion p o a * r.series o (b.getD 0 0) (expansion p o b) := by
  have order : (complete p o).calculus.order = o := order_complete p o
  obtain ⟨c, hc, followed, expanded⟩ := follow_rat hb h.reaches
  have run : Outer.integerPower (-1) (rat (b.getD 0 0)) (complete p o).calculus.order =
      .ok r.ofRat := by rw [order, h.run_eq]
  have reciprocal : Jet.reciprocal (complete p o).calculus .faithful (Jet.ofRat b) =
      .ok (Jet.ofRat c) := bind_eq_ok (value_eq hb) (bind_eq_ok run followed)
  have stored : Jet.stored .faithful (Jet.reciprocal (complete p o).calculus .faithful
      (Jet.ofRat b)) = .ok (Jet.ofRat c) := bind_eq_ok reciprocal (Storage.mapM_store _)
  exact ⟨_, length_mulExact p o a c, bind_eq_ok stored (isExactField_rat.mul_complete ha hc),
    by rw [expansion_mulExact, expanded]⟩

/-- **The remainder of two jets**, from the remainder and the quotient of their values. -/
theorem remainder_rat {r q : Rat} {n : Float}
    (hr : Arithmetic.remainder (rat (a.getD 0 0)) (rat (b.getD 0 0)) = .ok (rat r))
    (hn : Jet.quotient (rat (a.getD 0 0)) (rat (b.getD 0 0)) (rat r) = .ok n)
    (hq : Exact.ofFloat n = .ok q ∨ (complete p o).size = 1) :
    Jet.remainder (Jet.ofRat a) (Jet.ofRat b) =
      .ok (Jet.ofRat (r :: List.zipWith (· - ·) a.tail (b.tail.map (· * q)))) := by
  have slots : zipEach Arithmetic.sub (Jet.ofRat a).tail (Jet.ofRat (b.tail.map (· * q))) =
      .ok (Jet.ofRat (List.zipWith (· - ·) a.tail (b.tail.map (· * q)))) := by
    rw [Jet.ofRat, ← List.map_tail]
    exact zipEach_map isExactField_rat.sub _ _
  exact bind_eq_ok (slot_map (ha ▸ size_pos p o)) (bind_eq_ok (slot_map (hb ▸ size_pos p o))
    (bind_eq_ok hr (bind_eq_ok hn (bind_eq_ok (multiples_eq hb hq) (bind_eq_ok slots rfl)))))

/-- **An operation that has a formula succeeds**, and the value of the formula is the expansion
of the result. -/
theorem HasFormula.jet_eq {op : JetOperation} {F : Formula}
    (h : op.HasFormula o (complete p o).size (a.getD 0 0) (b.getD 0 0) F) :
    ∃ c : List Rat, c.length = (complete p o).size ∧
      op.jet (complete p o).calculus (Jet.ofRat a) (Jet.ofRat b) = .ok (Jet.ofRat c) ∧
      expansion p o c = F.value o (a.getD 0 0) (b.getD 0 0) (expansion p o a)
        (expansion p o b) := by
  have exact := isExactField_rat
  have order : (complete p o).calculus.order = o := order_complete p o
  cases h with
  | add =>
    refine ⟨_, ?_, mapError_eq_ok_iff.mpr (zipEach_map exact.add a b), ?_⟩
    · rw [List.length_zipWith, ha, hb, Nat.min_self]
    · rw [expansion_add (ha.trans hb.symm), Formula.value, one_smul, one_smul, map_zero, add_zero]
  | subtract =>
    refine ⟨_, ?_, mapError_eq_ok_iff.mpr (zipEach_map exact.sub a b), ?_⟩
    · rw [List.length_zipWith, ha, hb, Nat.min_self]
    · rw [expansion_sub (ha.trans hb.symm), Formula.value, one_smul, neg_one_smul, map_zero,
        add_zero, sub_eq_add_neg]
  | multiply =>
    exact ⟨_, length_mulExact p o a b, mapError_eq_ok_iff.mpr (exact.mul_complete ha hb),
      expansion_mulExact a b⟩
  | divide h =>
    obtain ⟨c, hc, computed, expanded⟩ := divide_rat ha hb h
    exact ⟨c, hc, mapError_eq_ok_iff.mpr computed, expanded⟩
  | @remainder r q n hr hn hq =>
    refine ⟨_, ?_, mapError_eq_ok_iff.mpr (remainder_rat ha hb hr hn hq),
      expansion_remainder ha hb r q⟩
    rw [List.length_cons, List.length_zipWith, List.length_map, List.length_tail,
      List.length_tail, ha, hb, Nat.min_self, Nat.sub_add_cancel (size_pos p o)]
  | @compose f h =>
    refine ⟨_, length_composeExact p o a f, ?_, ?_⟩
    · rw [jet, order, if_neg (by omega)]
      exact mapError_eq_ok_iff.mpr (exact.compose_complete ha h)
    · rw [expansion_composeExact, expansion_set_zero]
      refine Finset.sum_congr rfl fun i hi => ?_
      rw [getD_take_succ f (Nat.lt_succ_iff.mp (Finset.mem_range.mp hi))]
  | @function f r h =>
    obtain ⟨c, hc, followed, expanded⟩ := follow_rat ha h.reaches
    have recipe : (Jet.value .faithful (Jet.ofRat a) >>= (f.recipe · (complete p o).calculus.order))
        = .ok r.ofRat := bind_eq_ok (value_eq ha) (by rw [order, h.run_eq])
    exact ⟨c, hc, mapError_eq_ok_iff.mpr (bind_eq_ok recipe followed), expanded⟩

end Jets

end JetOperation

end JetAlgebra
