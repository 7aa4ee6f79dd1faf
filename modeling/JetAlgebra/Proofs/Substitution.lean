import JetAlgebra.Proofs.Locating
import JetAlgebra.Proofs.TaylorSum

/-!
# Substituting expansions into expansions

Values for the parameters turn a polynomial into a sum of products of them.  For an expansion
that makes sense only if the products that the jet has no slot for vanish, and then it is a map
of algebras (`substitute`).

A jet of a single parameter is the list of the derivatives of a function, and substituting a
jet without its value for the parameter composes the two: `expansion_composeExact_eq`.  Maps of
algebras keep Taylor sums, so composing twice is composing once, with the composition of the
outer functions (`composeExact_assoc`), whatever the tables of the two signatures look like.
-/
namespace JetAlgebra
open Tables Exponent Splitting MvPolynomial

variable {K : Type} [Field K] {p o : Nat}

/-! ## Substitution -/

theorem isTwoSided_beyond (p o : Nat) : (beyond p o K).IsTwoSided := inferInstance

section Substitute
variable {A : Type} [CommRing A] [Algebra K A] {v : Nat → A}

theorem aeval_eq_zero_of_beyond (hv : ∀ s, ¬ Fits p o s → (s.prod fun j k => v j ^ k) = 0)
    {F : MvPolynomial Nat K} (hF : F ∈ beyond p o K) : aeval v F = 0 := by
  rw [aeval_def, eval₂_eq]
  refine Finset.sum_eq_zero fun s hs => ?_
  have outside : ¬ Fits p o s := fun fits => MvPolynomial.mem_support_iff.mp hs (hF s fits)
  have product := hv s outside
  rw [Finsupp.prod] at product
  rw [product, mul_zero]

/-- **Substituting values for the parameters**, if the products that a `(p, o)` jet has no
slot for are zero. -/
noncomputable def substitute (v : Nat → A)
    (hv : ∀ s, ¬ Fits p o s → (s.prod fun j k => v j ^ k) = 0) : Expansion p o K →ₐ[K] A :=
  haveI := isTwoSided_beyond (K := K) p o
  Ideal.Quotient.liftₐ (beyond p o K) (aeval v) fun _ hF => aeval_eq_zero_of_beyond hv hF

theorem substitute_truncated (hv : ∀ s, ¬ Fits p o s → (s.prod fun j k => v j ^ k) = 0)
    (F : MvPolynomial Nat K) : substitute v hv (truncated p o F) = aeval v F := rfl

end Substitute

/-- **The value of an expansion**: all parameters are zero. -/
noncomputable def Expansion.value : Expansion p o K →ₐ[K] K :=
  substitute (0 : Nat → K) fun s hs => by
    obtain ⟨j, hj⟩ := Finsupp.ne_iff.mp fun hz : s = 0 => hs (hz ▸ fits_zero p o)
    exact Finset.prod_eq_zero (Finsupp.mem_support_iff.mpr hj) (zero_pow hj)

theorem Expansion.value_expansion (a : List K) : value (expansion p o a) = a.getD 0 0 := by
  have value := coeff_jetPolynomial (fits_zero p o) a
  rw [place_zero, factorial_zero, Nat.cast_one, div_one] at value
  rw [Expansion.value, expansion, substitute_truncated, aeval_zero, constantCoeff_eq, value]
  rfl

/-- The value of a product is the product of the values. -/
theorem getD_zero_mulExact [CharZero K] (a b : List K) :
    ((complete p o).mulExact a b).getD 0 0 = a.getD 0 0 * b.getD 0 0 := by
  rw [← Expansion.value_expansion (p := p) (o := o), expansion_mulExact, map_mul,
    Expansion.value_expansion, Expansion.value_expansion]

/-! ## Jets of a single parameter -/

theorem eq_single_of_fits {n : Exponent} (hn : Fits 1 o n) : n = Finsupp.single 0 (n 0) := by
  ext j
  rcases Nat.eq_zero_or_pos j with rfl | hj
  · rw [Finsupp.single_eq_same]
  · rw [hn.parameters j hj, Finsupp.single_eq_of_ne (Nat.ne_of_gt hj)]

theorem fits_single_iff {k : Nat} : Fits 1 o (Finsupp.single 0 k) ↔ k ≤ o := by
  constructor
  · intro h
    have order := h.order
    rwa [Finsupp.degree_single] at order
  · intro h
    exact ⟨fun j hj => Finsupp.single_eq_of_ne (Nat.ne_of_gt hj), by rwa [Finsupp.degree_single]⟩

theorem place_single {k : Nat} (hk : k ≤ o) : place 1 o (Finsupp.single 0 k) = k := by
  have orders : tuple 1 (Finsupp.single 0 k) = [k] := by simp [tuple]
  rw [place, orders, slotOf_single o k hk]

theorem factorial_single (k : Nat) : factorial (Finsupp.single 0 k) = k.factorial :=
  Finsupp.prod_single_index Nat.factorial_zero

/-- With a single parameter the expansion is a sum of powers. -/
theorem expansion_single [CharZero K] (f : List K) : expansion 1 o f =
    truncated 1 o (∑ k ∈ Finset.range (o + 1), C (f.getD k 0 / (k.factorial : K)) * X 0 ^ k) := by
  refine expansion_eq_truncated fun n hn => ?_
  obtain ⟨k, rfl⟩ : ∃ k, n = Finsupp.single 0 k := ⟨_, eq_single_of_fits hn⟩
  have hk := fits_single_iff.mp hn
  rw [coeff_sum, Finset.sum_eq_single k]
  · rw [coeff_C_mul, coeff_X_pow, if_pos rfl, mul_one, place_single hk, factorial_single,
      mul_div_cancel₀ _ (Nat.cast_ne_zero.mpr k.factorial_ne_zero)]
  · intro l _ hl
    have other : Finsupp.single 0 l ≠ Finsupp.single 0 k :=
      fun h => hl (Finsupp.single_injective 0 h)
    rw [coeff_C_mul, coeff_X_pow, if_neg other, mul_zero]
  · exact fun h => absurd (Finset.mem_range.mpr (Nat.lt_succ_of_le hk)) h

/-! ## Composition is substitution -/

/-- What is put in for the single parameter: a jet without its value. -/
noncomputable def innerJet (p o : Nat) (g : List K) (j : Nat) : Expansion p o K :=
  if j = 0 then expansion p o (g.set 0 0) else 0

variable [CharZero K]

/-- A jet without its value has no powers beyond the order. -/
theorem prod_innerJet (g : List K) (s : Exponent) (hs : ¬ Fits 1 o s) :
    (s.prod fun j k => innerJet p o g j ^ k) = 0 := by
  by_cases other : ∃ j, 1 ≤ j ∧ s j ≠ 0
  · obtain ⟨j, hj, hsj⟩ := other
    refine Finset.prod_eq_zero (Finsupp.mem_support_iff.mpr hsj) ?_
    show innerJet p o g j ^ s j = 0
    rw [innerJet, if_neg (Nat.ne_of_gt hj), zero_pow hsj]
  · have parameters : ∀ j, 1 ≤ j → s j = 0 := fun j hj =>
      Classical.byContradiction fun h => other ⟨j, hj, h⟩
    have high : o < s 0 := by
      refine Nat.lt_of_not_le fun h => hs ⟨parameters, ?_⟩
      rwa [← sum_tuple parameters, tuple, List.range_one, List.map_singleton,
        List.sum_singleton]
    have there : 0 ∈ s.support := Finsupp.mem_support_iff.mpr (Nat.ne_zero_of_lt high)
    refine Finset.prod_eq_zero there ?_
    show innerJet p o g 0 ^ s 0 = 0
    rw [innerJet, if_pos rfl, expansion_set_zero_pow g high]

/-- **Composition with the jet `g`**, as a map of expansions. -/
noncomputable def composeWith (p o : Nat) (g : List K) : Expansion 1 o K →ₐ[K] Expansion p o K :=
  substitute (innerJet p o g) (prod_innerJet g)

/-- **Composing substitutes** the jet without its value into the outer function. -/
theorem expansion_composeExact_eq (g f : List K) :
    expansion p o ((complete p o).composeExact g f) = composeWith p o g (expansion 1 o f) := by
  rw [expansion_single, composeWith, substitute_truncated, expansion_composeExact, map_sum]
  refine Finset.sum_congr rfl fun k _ => ?_
  rw [map_mul, map_pow, aeval_C, aeval_X, innerJet, if_pos rfl, Expansion.smul_eq]

/-- The value of a composition is that of the outer function. -/
theorem getD_zero_composeExact (g f : List K) :
    ((complete p o).composeExact g f).getD 0 0 = f.getD 0 0 := by
  have value := getD_composeExact (fits_zero p o) g f
  have none : splittings p o 0 = {0} := by
    ext S
    rw [mem_splittings (fits_zero p o), isSplitting_zero, Finset.mem_singleton]
  rw [place_zero, none, Finset.sum_singleton] at value
  rw [value, factorial_zero, share_zero, Multiset.card_zero, Multiset.map_zero,
    Multiset.prod_zero, mul_one, div_self (Nat.cast_ne_zero.mpr one_ne_zero), one_mul]

/-- **Composition is associative**: composing with two functions in turn is composing with
the composition of the two. -/
theorem composeExact_assoc (g f h : List K) :
    (complete p o).composeExact ((complete p o).composeExact g f) h =
      (complete p o).composeExact g ((complete 1 o).composeExact f h) := by
  refine eq_of_expansion_eq (length_composeExact p o _ _) (length_composeExact p o _ _) ?_
  -- The jet that `h` is composed with is substituted for as well, without its value.
  have inner : expansion p o (((complete p o).composeExact g f).set 0 0) =
      composeWith p o g (expansion 1 o (f.set 0 0)) := by
    rw [expansion_set_zero, expansion_composeExact_eq, getD_zero_composeExact,
      expansion_set_zero, map_sub, AlgHom.commutes]
  calc expansion p o ((complete p o).composeExact ((complete p o).composeExact g f) h)
      = ∑ k ∈ Finset.range (o + 1), (h.getD k 0 / (k.factorial : K)) •
          composeWith p o g (expansion 1 o (f.set 0 0)) ^ k := by
        rw [expansion_composeExact, inner]
    _ = composeWith p o g (∑ k ∈ Finset.range (o + 1), (h.getD k 0 / (k.factorial : K)) •
          expansion 1 o (f.set 0 0) ^ k) := by
        rw [map_sum]
        exact Finset.sum_congr rfl fun k _ => by rw [map_smul, map_pow]
    _ = expansion p o ((complete p o).composeExact g ((complete 1 o).composeExact f h)) := by
        rw [← expansion_composeExact, ← expansion_composeExact_eq]

/-! ## What callers may rely on -/

/-- **Composition is functorial**: a function composed with a jet, and then another function
composed with the result, is the same as the jet composed with the composition of the two
functions, which is computed with one parameter.  No derivatives need belong to each other. -/
theorem Tables.compose_compose_of_built {t single : Tables} (ht : Built p o t)
    (hs : Built 1 o single) {g f h : List Rat} (hg : g.length = t.size) (hf : f.length = o + 1)
    (hh : h.length = o + 1) : ∃ gf fh composed : List Rat,
      Jet.compose t.calculus .faithful (Jet.ofRat g) (Jet.ofRat f) = .ok (Jet.ofRat gf) ∧
      Jet.compose single.calculus .faithful (Jet.ofRat f) (Jet.ofRat h) = .ok (Jet.ofRat fh) ∧
      Jet.compose t.calculus .faithful (Jet.ofRat gf) (Jet.ofRat h) = .ok (Jet.ofRat composed) ∧
      Jet.compose t.calculus .faithful (Jet.ofRat g) (Jet.ofRat fh) = .ok (Jet.ofRat composed) := by
  obtain rfl := ht.eq_complete
  obtain rfl := hs.eq_complete
  have exact := Scalar.isExact_rat
  have size : (complete 1 o).size = o + 1 := by
    rw [size_complete, Nat.add_comm, Nat.choose_succ_self_right]
  have outer : ((complete 1 o).composeExact f h).length = o + 1 :=
    (length_composeExact 1 o f h).trans size
  refine ⟨_, _, _, exact.compose_complete hg (Nat.lt_of_lt_of_eq (Nat.lt_succ_self o) hf.symm),
    exact.compose_complete (hf.trans size.symm) (Nat.lt_of_lt_of_eq (Nat.lt_succ_self o) hh.symm),
    exact.compose_complete (length_composeExact p o g f)
      (Nat.lt_of_lt_of_eq (Nat.lt_succ_self o) hh.symm), ?_⟩
  rw [composeExact_assoc]
  exact exact.compose_complete hg (Nat.lt_of_lt_of_eq (Nat.lt_succ_self o) outer.symm)

/-- A jet of two parameters up to order two, and two functions that do not fit together. -/
theorem Tables.compose_compose_two_two : Built 2 2 (complete 2 2) ∧ Built 1 2 (complete 1 2) ∧
    ∃ gf fh composed : List Rat,
      Jet.compose (complete 2 2).calculus .faithful (Jet.ofRat [1, 2, 0, 3, 1, 1])
        (Jet.ofRat [5, -1, 2]) = .ok (Jet.ofRat gf) ∧
      Jet.compose (complete 1 2).calculus .faithful (Jet.ofRat [5, -1, 2])
        (Jet.ofRat [0, 7, 1 / 3]) = .ok (Jet.ofRat fh) ∧
      Jet.compose (complete 2 2).calculus .faithful (Jet.ofRat gf) (Jet.ofRat [0, 7, 1 / 3]) =
        .ok (Jet.ofRat composed) ∧
      Jet.compose (complete 2 2).calculus .faithful (Jet.ofRat [1, 2, 0, 3, 1, 1])
        (Jet.ofRat fh) = .ok (Jet.ofRat composed) :=
  ⟨built_complete 2 2, built_complete 1 2,
    compose_compose_of_built (built_complete 2 2) (built_complete 1 2) (by decide) rfl rfl⟩

end JetAlgebra
