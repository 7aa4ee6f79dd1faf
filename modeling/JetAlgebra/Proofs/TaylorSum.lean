import JetAlgebra.Proofs.ExpansionLaws

/-!
# Composition is a Taylor sum of products

`Jet.compose` and `Jet.mul` read two different tables.  They belong together all the same:
composing with a function that has the derivatives `f` is to sum `f[k] / k!` times the `k`-th
power of the jet without its value, where powers are repeated products.  No power beyond the
order is needed, because it vanishes (`expansion_set_zero_pow`).

`Calculus.IsTaylorSum` is this agreement, with what it says about the identity and about the
square, and the remark that no derivative beyond the order is looked at.
-/
namespace JetAlgebra
open Tables Exponent Splitting MvPolynomial

/-! ## Powers -/

/-- A power of a jet by repeated products. -/
def Jet.repeatedProduct {E : Type} [Arithmetic E] (k : Calculus) (one h : Jet E) :
    Nat → Except ArithmeticFault (Jet E)
  | 0 => .ok one
  | n + 1 => do Jet.mul k (← repeatedProduct k one h n) h

variable {K : Type} [Field K]

/-- The constant jet one. -/
def Jet.unit (K : Type) [Field K] (size : Nat) : List K := 1 :: List.replicate (size - 1) 0

/-- A power of a jet over a field. -/
def Tables.powerExact (t : Tables) (h : List K) : Nat → List K
  | 0 => Jet.unit K t.size
  | n + 1 => t.mulExact (t.powerExact h n) h

variable {p o : Nat}

/-- A value and zeros are a jet. -/
theorem length_constant {K : Type} (p o : Nat) (c z : K) :
    (c :: List.replicate ((complete p o).size - 1) z).length = (complete p o).size := by
  rw [List.length_cons, List.length_replicate, Nat.sub_add_cancel (size_pos p o)]

theorem length_powerExact (p o : Nat) (h : List K) (n : Nat) :
    ((complete p o).powerExact h n).length = (complete p o).size := by
  cases n with
  | zero => exact length_constant p o 1 0
  | succ n => exact length_mulExact p o _ _

theorem IsExact.repeatedProduct_complete {E : Type} [Arithmetic E] {lift : K → E}
    (exact : IsExact lift) {h : List K} (hh : h.length = (complete p o).size) (n : Nat) :
    Jet.repeatedProduct (complete p o).calculus ((Jet.unit K (complete p o).size).map lift)
      (h.map lift) n = .ok (((complete p o).powerExact h n).map lift) := by
  induction n with
  | zero => rfl
  | succ n ih => exact bind_eq_ok ih (exact.mul_complete (length_powerExact p o h n) hh)

theorem expansion_powerExact [CharZero K] (h : List K) (n : Nat) :
    expansion p o ((complete p o).powerExact h n) = expansion p o h ^ n := by
  induction n with
  | zero => rw [powerExact, Jet.unit, expansion_constant, map_one, pow_zero]
  | succ n ih => rw [powerExact, expansion_mulExact, ih, pow_succ]

/-- A power of a jet without its value has no terms of a lower order. -/
theorem coeff_derivativePart_pow_of_degree_lt (g : List K) {k : Nat} {n : Exponent}
    (hn : n.degree < k) : coeff n (derivativePart p o g ^ k) = 0 := by
  rw [coeff_derivativePart_pow]
  refine Finset.sum_eq_zero fun S hS => ?_
  obtain ⟨hS, hsum⟩ := Finset.mem_filter.mp hS
  obtain ⟨rfl, parts⟩ := mem_partLists.mp hS
  exact absurd (card_le_degree ⟨fun hz => (parts 0 hz).1 rfl, hsum⟩) (Nat.not_le.mpr hn)

/-- **Without its value a jet is nilpotent.** -/
theorem expansion_set_zero_pow [CharZero K] (g : List K) {k : Nat} (hk : o < k) :
    expansion p o (g.set 0 0) ^ k = 0 := by
  rw [← truncated_derivativePart, ← map_pow, ← map_zero (truncated p o)]
  refine truncated_eq_iff.mpr fun n hn => ?_
  rw [coeff_derivativePart_pow_of_degree_lt g (hn.order.trans_lt hk), coeff_zero]

/-! ## Compositions -/

/-- **Slot by slot, a composition is the Taylor sum** of the powers. -/
theorem composeExact_eq [CharZero K] (g f : List K) :
    (complete p o).composeExact g f = (List.range (complete p o).size).map fun i =>
      ∑ k ∈ Finset.range (o + 1), f.getD k 0 / (k.factorial : K) *
        ((complete p o).powerExact (g.set 0 0) k).getD i 0 := by
  have sums : expansion p o ((complete p o).composeExact g f) =
      truncated p o (∑ k ∈ Finset.range (o + 1), (f.getD k 0 / (k.factorial : K)) •
        jetPolynomial p o ((complete p o).powerExact (g.set 0 0) k)) := by
    rw [expansion_composeExact, map_sum]
    refine Finset.sum_congr rfl fun k _ => ?_
    rw [← expansion_powerExact, map_smul]
    rfl
  refine List.ext_getElem ?_ fun i hi _ => ?_
  · rw [length_composeExact, List.length_map, List.length_range]
  obtain ⟨n, hn, rfl⟩ := exists_place (length_composeExact p o g f ▸ hi)
  have slot := truncated_eq_iff.mp sums n hn
  rw [coeff_jetPolynomial hn, coeff_sum,
    div_eq_iff (Nat.cast_ne_zero.mpr (factorial_pos n).ne'), Finset.sum_mul] at slot
  rw [← List.getD_eq_getElem _ 0 hi, slot, List.getElem_map, List.getElem_range]
  refine Finset.sum_congr rfl fun k _ => ?_
  rw [coeff_smul, coeff_jetPolynomial hn, smul_eq_mul, mul_assoc,
    div_mul_cancel₀ _ (Nat.cast_ne_zero.mpr (factorial_pos n).ne')]

/-- The Taylor sum of a function without derivatives beyond the second. -/
theorem expansion_composeExact_quadratic [CharZero K] (g : List K) {f : List K}
    (hf : ∀ k, 3 ≤ k → f.getD k 0 = 0) :
    expansion p o ((complete p o).composeExact g f) = algebraMap K _ (f.getD 0 0) +
      f.getD 1 0 • expansion p o (g.set 0 0) +
        (f.getD 2 0 / 2) • expansion p o (g.set 0 0) ^ 2 := by
  -- The powers vanish beyond the order, the derivatives beyond the second; neither of the two
  -- need be the smaller one.
  have beyond_order : ∑ k ∈ Finset.range (o + 1), (f.getD k 0 / (k.factorial : K)) •
      expansion p o (g.set 0 0) ^ k = ∑ k ∈ Finset.range (o + 3),
        (f.getD k 0 / (k.factorial : K)) • expansion p o (g.set 0 0) ^ k := by
    refine Finset.sum_subset (Finset.range_mono (by omega)) fun k _ hk => ?_
    rw [expansion_set_zero_pow g (by simpa using hk), smul_zero]
  have beyond_two : ∑ k ∈ Finset.range 3, (f.getD k 0 / (k.factorial : K)) •
      expansion p o (g.set 0 0) ^ k = ∑ k ∈ Finset.range (o + 3),
        (f.getD k 0 / (k.factorial : K)) • expansion p o (g.set 0 0) ^ k := by
    refine Finset.sum_subset (Finset.range_mono (by omega)) fun k _ hk => ?_
    rw [hf k (by simpa using hk), zero_div, zero_smul]
  rw [expansion_composeExact, beyond_order, ← beyond_two, Finset.sum_range_succ,
    Finset.sum_range_succ, Finset.sum_range_one, pow_zero, pow_one, Nat.factorial_zero,
    Nat.factorial_one, Nat.factorial_two, Nat.cast_one, Nat.cast_two, div_one, div_one,
    Algebra.algebraMap_eq_smul_one]

/-- **Composing with the identity** changes nothing. -/
theorem composeExact_identity [CharZero K] {g : List K} (hg : g.length = (complete p o).size)
    (m : Nat) : (complete p o).composeExact g (g.getD 0 0 :: 1 :: List.replicate m 0) = g := by
  refine eq_of_expansion_eq (length_composeExact p o _ _) hg ?_
  rw [expansion_composeExact_quadratic, expansion_set_zero]
  · simp only [List.getD_cons_zero, List.getD_cons_succ, getD_replicate_zero]
    rw [one_smul, zero_div, zero_smul]
    ring
  · intro k hk
    obtain ⟨k, rfl⟩ := Nat.exists_eq_add_of_le' hk
    simp only [List.getD_cons_succ, getD_replicate_zero]

/-- **Composing with the square** multiplies the jet by itself. -/
theorem composeExact_square [CharZero K] (g : List K) (m : Nat) :
    (complete p o).composeExact g (g.getD 0 0 ^ 2 :: 2 * g.getD 0 0 :: 2 :: List.replicate m 0) =
      (complete p o).mulExact g g := by
  refine eq_of_expansion_eq (length_composeExact p o _ _) (length_mulExact p o _ _) ?_
  rw [expansion_composeExact_quadratic, expansion_mulExact, expansion_set_zero]
  · simp only [List.getD_cons_zero, List.getD_cons_succ]
    rw [div_self two_ne_zero, one_smul, Expansion.smul_eq, map_pow, map_mul, map_ofNat]
    ring
  · intro k hk
    obtain ⟨k, rfl⟩ := Nat.exists_eq_add_of_le' hk
    simp only [List.getD_cons_succ, getD_replicate_zero]

/-! ## What callers may rely on -/

/-- A jet of exact rationals. -/
abbrev Jet.ofRat (a : List Rat) : Jet Scalar := a.map Scalar.rat

/-- **Composition and multiplication agree** for the rules `k`, at the jet `g` and at the
derivatives `f`. -/
structure Calculus.IsTaylorSum (k : Calculus) (g f : List Rat) : Prop where
  /-- The composition is the sum of the powers of `g` without its value, each times a
  derivative over a factorial. -/
  powers : ∃ w : Nat → List Rat,
    (∀ n, (w n).length = k.size ∧ Jet.repeatedProduct k (Jet.ofRat (Jet.unit Rat k.size))
      (Jet.ofRat (g.set 0 0)) n = .ok (Jet.ofRat (w n))) ∧
    Jet.compose k .faithful (Jet.ofRat g) (Jet.ofRat f) =
      .ok (Jet.ofRat ((List.range k.size).map fun i =>
        ∑ n ∈ Finset.range (k.order + 1), f.getD n 0 / n.factorial * (w n).getD i 0))
  /-- The identity has the derivatives `g₀, 1, 0, ...`. -/
  identity : Jet.compose k .faithful (Jet.ofRat g)
    (Jet.ofRat (g.getD 0 0 :: 1 :: List.replicate k.order 0)) = .ok (Jet.ofRat g)
  /-- The square has the derivatives `g₀², 2 g₀, 2, 0, ...`. -/
  square : ∃ s, Jet.mul k (Jet.ofRat g) (Jet.ofRat g) = .ok s ∧
    Jet.compose k .faithful (Jet.ofRat g)
      (Jet.ofRat (g.getD 0 0 ^ 2 :: 2 * g.getD 0 0 :: 2 :: List.replicate k.order 0)) = .ok s
  /-- What follows the derivatives up to the order does not matter, whatever it is. -/
  surplus : ∀ rest : List Scalar, Jet.compose k .faithful (Jet.ofRat g)
    (Jet.ofRat (f.take (k.order + 1)) ++ rest) =
      Jet.compose k .faithful (Jet.ofRat g) (Jet.ofRat f)

/-- **Every signature has the agreement**, at every jet of exact rationals and with any
sufficient number of derivatives. -/
theorem Calculus.isTaylorSum_of_built {t : Tables} (h : Built p o t) {g f : List Rat}
    (hg : g.length = t.size) (hf : o + 1 ≤ f.length) : t.calculus.IsTaylorSum g f := by
  obtain rfl := h.eq_complete
  have exact := Scalar.isExact_rat
  have order : (complete p o).calculus.order = o := order_complete p o
  refine ⟨⟨(complete p o).powerExact (g.set 0 0), fun n => ⟨length_powerExact p o _ n, ?_⟩, ?_⟩,
    ?_, ⟨_, exact.mul_complete hg hg, ?_⟩, fun rest => ?_⟩
  · exact exact.repeatedProduct_complete (by rw [List.length_set, hg]) n
  · rw [exact.compose_complete hg hf, composeExact_eq, order]
    rfl
  · rw [exact.compose_complete hg (by simp [order]), composeExact_identity hg]
  · rw [exact.compose_complete hg (by simp [order]; omega), composeExact_square]
  · have enough : ∀ d ∈ (complete p o).calculus.composition.derivatives,
        0 ≤ d ∧ d < (Jet.ofRat (f.take (o + 1))).length := by
      intro d hd
      rw [List.length_map, List.length_take_of_le hf]
      have bounds := derivatives_le_order d hd
      omega
    have whole : Jet.ofRat f = Jet.ofRat (f.take (o + 1)) ++ Jet.ofRat (f.drop (o + 1)) := by
      rw [← List.map_append, List.take_append_drop]
    rw [order, Jet.compose_append enough, whole, Jet.compose_append enough]

/-- The square of the parameter at `3`, with its derivatives up to the second. -/
theorem Calculus.isTaylorSum_square : Built 1 2 (complete 1 2) ∧
    (complete 1 2).calculus.IsTaylorSum [3, 1, 0] [9, 6, 2] :=
  ⟨built_complete 1 2, isTaylorSum_of_built (built_complete 1 2) (by decide) (by decide)⟩

end JetAlgebra
