import JetAlgebra.Proofs.Layout

/-!
# Derivation orders as exponents

A tuple of orders has a length, which is in the way as soon as tuples of different
signatures are compared or tuples are added.  An `Exponent` is the same without a length:
the order of each parameter, zero for all but finitely many.  The value part of a jet keeps
its exponents, and the derivative part has one more at the last parameter.

`Exponent.Fits p o` are the exponents that a `(p, o)` jet has a slot for, and
`Exponent.place p o` is that slot.  `place_value`, `place_raise` and `getD_lower_place` are
all that the rule tables need to know about the layout.
-/
namespace JetAlgebra

/-- The derivation order of each parameter. -/
abbrev Exponent := Nat →₀ Nat

/-- The exponent of a tuple of orders. -/
def Orders.exponent (n : Orders) : Exponent := n.toFinsupp

namespace Exponent
open Tables Orders

/-- The orders of the first `p` parameters. -/
def tuple (p : Nat) (s : Exponent) : Orders := (List.range p).map s

/-- One derivative along parameter `j`. -/
noncomputable def unit (j : Nat) : Exponent := Finsupp.single j 1

/-- **The exponents of a `(p, o)` jet.** -/
structure Fits (p o : Nat) (s : Exponent) : Prop where
  parameters : ∀ j, p ≤ j → s j = 0
  order : s.degree ≤ o

/-- The slot of an exponent in a `(p, o)` jet. -/
def place (p o : Nat) (s : Exponent) : Nat := (complete p o).slotOf (tuple p s)

/-- The product of the factorials of all orders. -/
def factorial (s : Exponent) : Nat := s.prod fun _ k => k.factorial

@[simp] theorem unit_self (j : Nat) : unit j j = 1 := Finsupp.single_eq_same

@[simp] theorem degree_unit (j : Nat) : (unit j).degree = 1 := Finsupp.degree_single j 1

theorem unit_ne_zero (j : Nat) : unit j ≠ 0 := Finsupp.single_ne_zero.mpr Nat.one_ne_zero

theorem unit_le_iff {j : Nat} {s : Exponent} : unit j ≤ s ↔ 0 < s j := by
  rw [unit, Finsupp.single_le_iff]; exact Iff.rfl

theorem exists_add_unit {j : Nat} {s : Exponent} (h : 0 < s j) : ∃ s', s = s' + unit j :=
  ⟨s - unit j, (tsub_add_cancel_of_le (unit_le_iff.mpr h)).symm⟩

/-! ### Tuples -/

@[simp] theorem length_tuple (p : Nat) (s : Exponent) : (tuple p s).length = p := by simp [tuple]

theorem tuple_succ (p : Nat) (s : Exponent) : tuple (p + 1) s = tuple p s ++ [s p] := by
  rw [tuple, List.range_succ, List.map_append, List.map_singleton, tuple]

theorem tuple_zero (p : Nat) : tuple p 0 = List.replicate p 0 := by
  rw [tuple, List.eq_replicate_iff]
  exact ⟨by simp, fun d hd => by obtain ⟨_, _, rfl⟩ := List.mem_map.mp hd; rfl⟩

theorem tuple_unit (p k : Nat) : tuple p (unit k) = (List.replicate p 0).set k 1 := by
  refine List.ext_getElem (by simp) fun j hj hj' => ?_
  simp [tuple, unit, List.getElem_set, Finsupp.single_apply]

theorem exponent_apply (n : Orders) (j : Nat) : n.exponent j = n.getD j 0 :=
  List.toFinsupp_apply n j

theorem tuple_exponent (n : Orders) : tuple n.length n.exponent = n := by
  refine List.ext_getElem (by simp) fun j hj hj' => ?_
  simp [tuple, exponent_apply, List.getD_eq_getElem?_getD, hj']

theorem exponent_tuple {p : Nat} {s : Exponent} (h : ∀ j, p ≤ j → s j = 0) :
    (tuple p s).exponent = s := by
  ext j
  rw [exponent_apply]
  rcases Nat.lt_or_ge j p with hj | hj
  · simp [tuple, List.getD_eq_getElem?_getD, hj]
  · simp [tuple, List.getD_eq_getElem?_getD, hj, h j hj]

theorem support_subset {p : Nat} {s : Exponent} (h : ∀ j, p ≤ j → s j = 0) :
    s.support ⊆ Finset.range p := by
  intro j hj
  rw [Finset.mem_range]
  exact Nat.lt_of_not_le fun hp => Finsupp.mem_support_iff.mp hj (h j hp)

theorem sum_tuple {p : Nat} {s : Exponent} (h : ∀ j, p ≤ j → s j = 0) :
    (tuple p s).sum = s.degree := by
  rw [Finsupp.degree_apply,
    Finset.sum_subset (support_subset h) fun j _ hj => Finsupp.notMem_support_iff.mp hj]
  rfl

theorem fits_iff_tuple {p o : Nat} {s : Exponent} (h : ∀ j, p ≤ j → s j = 0) :
    Fits p o s ↔ (tuple p s).sum ≤ o := by
  rw [sum_tuple h]
  exact ⟨fun hs => hs.order, fun hs => ⟨h, hs⟩⟩

theorem exponent_outside (n : Orders) : ∀ j, n.length ≤ j → n.exponent j = 0 := by
  intro j hj
  rw [exponent_apply, List.getD_eq_getElem?_getD, List.getElem?_eq_none hj]
  rfl

theorem fits_exponent {p o : Nat} {n : Orders} (hl : n.length = p) (hs : n.sum ≤ o) :
    Fits p o n.exponent := by
  subst hl
  rw [fits_iff_tuple (exponent_outside n), tuple_exponent]
  exact hs

/-! ### What fits -/

theorem fits_zero (p o : Nat) : Fits p o 0 := ⟨fun _ _ => rfl, by simp⟩

theorem Fits.of_le {p o : Nat} {s t : Exponent} (h : s ≤ t) (ht : Fits p o t) : Fits p o s where
  parameters j hj := Nat.le_zero.mp (ht.parameters j hj ▸ h j)
  order := Nat.le_trans (Finsupp.degree_mono h) ht.order

theorem Fits.of_add_eq {p o : Nat} {l r n : Exponent} (hn : Fits p o n) (hx : l + r = n) :
    Fits p o l ∧ Fits p o r :=
  ⟨hn.of_le (hx ▸ le_self_add), hn.of_le (hx ▸ le_add_self)⟩

theorem Fits.eq_zero_of_point {o : Nat} {s : Exponent} (h : Fits 0 o s) : s = 0 :=
  Finsupp.ext fun j => h.parameters j (Nat.zero_le j)

theorem Fits.eq_zero_of_edge {p : Nat} {s : Exponent} (h : Fits p 0 s) : s = 0 :=
  (Finsupp.degree_eq_zero_iff s).mp (Nat.le_zero.mp h.order)

theorem Fits.raise {p o : Nat} {s : Exponent} (h : Fits (p + 1) o s) :
    Fits (p + 1) (o + 1) (s + unit p) where
  parameters j hj := by
    rw [Finsupp.add_apply, h.parameters j hj, Nat.zero_add, unit,
      Finsupp.single_eq_of_ne (by omega)]
  order := by rw [map_add, degree_unit]; exact Nat.succ_le_succ h.order

theorem Fits.lift {p o : Nat} {s : Exponent} (h : Fits p o s) : Fits p (o + 1) s where
  parameters := h.parameters
  order := Nat.le_succ_of_le h.order

/-- **An exponent is in the value part, or one more than one of the derivative part.** -/
theorem Fits.cases {p o : Nat} {s : Exponent} (h : Fits (p + 1) (o + 1) s) :
    Fits p (o + 1) s ∨ ∃ s', Fits (p + 1) o s' ∧ s = s' + unit p := by
  rcases Nat.eq_zero_or_pos (s p) with hp | hp
  · refine Or.inl ⟨fun j hj => ?_, h.order⟩
    rcases Nat.eq_or_lt_of_le hj with rfl | hj
    · exact hp
    · exact h.parameters j hj
  · obtain ⟨s', rfl⟩ := exists_add_unit hp
    have horder := h.order
    rw [map_add, degree_unit] at horder
    exact Or.inr ⟨s', ⟨(h.of_le le_self_add).parameters, by omega⟩, rfl⟩

/-! ### The slot of an exponent -/

theorem getElem?_place {p o : Nat} {s : Exponent} (h : Fits p o s) :
    (complete p o).derivatives[place p o s]? = some (tuple p s) :=
  getElem?_slotOf (length_tuple p s) ((fits_iff_tuple h.parameters).mp h)

theorem place_lt {p o : Nat} {s : Exponent} (h : Fits p o s) : place p o s < (complete p o).size :=
  slotOf_lt (length_tuple p s) ((fits_iff_tuple h.parameters).mp h)

theorem place_injective {p o : Nat} {s t : Exponent} (hs : Fits p o s) (ht : Fits p o t)
    (h : place p o s = place p o t) : s = t := by
  have tuples : tuple p s = tuple p t :=
    slotOf_injective (length_tuple p s) ((fits_iff_tuple hs.parameters).mp hs)
      (length_tuple p t) ((fits_iff_tuple ht.parameters).mp ht) h
  rw [← exponent_tuple hs.parameters, tuples, exponent_tuple ht.parameters]

theorem place_of_getElem? {p o i : Nat} {n : Orders}
    (h : (complete p o).derivatives[i]? = some n) :
    Fits p o n.exponent ∧ place p o n.exponent = i := by
  obtain ⟨hl, hs⟩ := mem_of_getElem? h
  subst hl
  exact ⟨fits_exponent rfl hs, by rw [place, tuple_exponent, slotOf_of_getElem? h]⟩

/-- Every slot is the slot of an exponent. -/
theorem exists_place {p o i : Nat} (h : i < (complete p o).size) :
    ∃ s, Fits p o s ∧ place p o s = i :=
  ⟨_, place_of_getElem? (List.getElem?_eq_getElem (length_derivatives p o ▸ h))⟩

/-- The exponent that a slot holds. -/
def held (p o i : Nat) : Exponent := Orders.exponent ((complete p o).derivatives.getD i [])

theorem held_place {p o : Nat} {s : Exponent} (h : Fits p o s) : held p o (place p o s) = s := by
  rw [held, List.getD_eq_getElem?_getD, getElem?_place h, Option.getD_some,
    exponent_tuple h.parameters]

/-- All exponents of a `(p, o)` jet. -/
noncomputable def box (p o : Nat) : Finset Exponent :=
  (Finset.range (complete p o).size).image (held p o)

@[simp] theorem mem_box {p o : Nat} {s : Exponent} : s ∈ box p o ↔ Fits p o s := by
  rw [box, Finset.mem_image]
  constructor
  · rintro ⟨i, hi, rfl⟩
    obtain ⟨s, hs, rfl⟩ := exists_place (Finset.mem_range.mp hi)
    rwa [held_place hs]
  · exact fun hs => ⟨place p o s, Finset.mem_range.mpr (place_lt hs), held_place hs⟩

theorem place_held {p o i : Nat} (h : i < (complete p o).size) : place p o (held p o i) = i := by
  obtain ⟨s, hs, rfl⟩ := exists_place h
  rw [held_place hs]

/-- A sum over the slots is one over the exponents. -/
theorem sum_range_size {M : Type} [AddCommMonoid M] (p o : Nat) (v : Nat → M) :
    ∑ i ∈ Finset.range (complete p o).size, v i = ∑ s ∈ box p o, v (place p o s) := by
  rw [box, Finset.sum_image]
  · exact Finset.sum_congr rfl fun i hi => by rw [place_held (Finset.mem_range.mp hi)]
  · intro i hi j hj h
    rw [← place_held (Finset.mem_range.mp hi), h, place_held (Finset.mem_range.mp hj)]

@[simp] theorem place_zero (p o : Nat) : place p o 0 = 0 := by
  rw [place, tuple_zero, slotOf_zeros]

theorem place_eq_zero_iff {p o : Nat} {s : Exponent} (h : Fits p o s) :
    place p o s = 0 ↔ s = 0 := by
  constructor
  · exact fun hz => place_injective h (fits_zero p o) (hz.trans (place_zero p o).symm)
  · rintro rfl; exact place_zero p o

/-- **The value part keeps its slots.** -/
theorem place_value {p o : Nat} {s : Exponent} (h : Fits p (o + 1) s) :
    place (p + 1) (o + 1) s = place p (o + 1) s := by
  rw [place, tuple_succ, h.parameters p (Nat.le_refl p), slotOf_value (length_tuple p s), place]

theorem raiseLast_tuple (p : Nat) (s : Exponent) :
    raiseLast (tuple (p + 1) s) = tuple (p + 1) (s + unit p) := by
  have below : tuple p (s + unit p) = tuple p s := by
    refine List.map_congr_left fun j hj => ?_
    rw [Finsupp.add_apply, unit, Finsupp.single_eq_of_ne (Nat.ne_of_lt (List.mem_range.mp hj)),
      Nat.add_zero]
  rw [tuple_succ, raiseLast_concat, tuple_succ, below, Finsupp.add_apply, unit_self]

/-- **The derivative part follows the value part**, with one more derivative. -/
theorem place_raise {p o : Nat} (s : Exponent) :
    place (p + 1) (o + 1) (s + unit p) = (complete p (o + 1)).size + place (p + 1) o s := by
  rw [place, ← raiseLast_tuple, tuple_succ, raiseLast_concat, slotOf_derivative (length_tuple p s),
    ← tuple_succ, place]

/-- **The lower slots keep the exponents.** -/
theorem getD_lower_place {p o : Nat} {s : Exponent} (h : Fits p o s) :
    (complete p (o + 1)).lower.getD (place p o s) 0 = place p (o + 1) s := by
  rw [lower_complete, List.getD_eq_getElem?_getD, List.getElem?_map, getElem?_place h]
  rfl

/-! ### Factorials -/

@[simp] theorem factorial_zero : factorial 0 = 1 := Finsupp.prod_zero_index

theorem factorial_pos (s : Exponent) : 0 < s.factorial :=
  Finset.prod_pos fun _ _ => Nat.factorial_pos _

/-- One more derivative multiplies the factorial by the new order. -/
theorem factorial_add_unit (s : Exponent) (j : Nat) :
    factorial (s + unit j) = factorial s * (s j + 1) := by
  have split : ∀ t : Exponent, (t j).factorial * factorial (t.erase j) = factorial t :=
    fun t => Finsupp.mul_prod_erase' t j _ fun _ => Nat.factorial_zero
  have rest : (s + unit j).erase j = s.erase j := by
    rw [Finsupp.erase_add, unit, Finsupp.erase_single, add_zero]
  rw [← split (s + unit j), rest, ← split s, Finsupp.add_apply, unit_self, Nat.factorial_succ]
  ring

@[simp] theorem factorial_unit (j : Nat) : factorial (unit j) = 1 := by
  rw [← zero_add (unit j), factorial_add_unit, factorial_zero]
  rfl

/-- A product over the orders is one over the exponent. -/
theorem prod_map_tuple {p : Nat} {s : Exponent} (h : ∀ j, p ≤ j → s j = 0) {f : Nat → Nat}
    (hf : f 0 = 1) : ((tuple p s).map f).prod = s.prod fun _ k => f k := by
  rw [Finsupp.prod_of_support_subset s (support_subset h) _ fun _ _ => hf, tuple, List.map_map]
  rfl

theorem prod_map_orders (n : Orders) {f : Nat → Nat} (hf : f 0 = 1) :
    (n.map f).prod = n.exponent.prod fun _ k => f k := by
  rw [← prod_map_tuple (exponent_outside n) hf, tuple_exponent]

theorem factorial_exponent (n : Orders) : factorial n.exponent = (n.map Nat.factorial).prod :=
  (prod_map_orders n Nat.factorial_zero).symm

end Exponent

end JetAlgebra
