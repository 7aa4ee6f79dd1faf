import JetAlgebra.Proofs.ChainRule

/-!
# Which tables fit the limits

`Tables.Within` is what the limits ask of tables: not too many slots, not too many composition
terms if there are parameters and derivatives at all, and no coefficient that is too large.
Given the right neighbours it decides whether the tables of a signature are built
(`build?_complete_eq_ok_iff`).

All three numbers grow with the signature: every exponent of a smaller jet is one of a larger
jet, and how it splits into parts does not depend on the jet.  So a signature that fits never
fails for the sake of a smaller one: `Within.mono`.  The sizes can be had without the tables, and
there is one bound on them for the same reason (`sizesUpTo?_eq_ok_iff`).
-/
namespace JetAlgebra
open Exponent Splitting ChainTerm

namespace Weighted
variable {κ : Type}

theorem foldl_max_le_iff {row : List (Weighted κ)} {c m : Nat} :
    row.foldl (fun m t => max m t.coefficient) c ≤ m ↔ c ≤ m ∧ ∀ t ∈ row, t.coefficient ≤ m := by
  induction row generalizing c with
  | nil => simp
  | cons t row ih => rw [List.foldl_cons, ih, max_le_iff, List.forall_mem_cons, and_assoc]

/-- **The largest coefficient is the least bound** of all coefficients. -/
theorem largest_le_iff {rows : List (List (Weighted κ))} {m : Nat} :
    largest rows ≤ m ↔ ∀ row ∈ rows, ∀ t ∈ row, t.coefficient ≤ m := by
  have start : ∀ c, rows.foldl (fun m row => row.foldl (fun m t => max m t.coefficient) m) c ≤ m ↔
      c ≤ m ∧ ∀ row ∈ rows, ∀ t ∈ row, t.coefficient ≤ m := by
    induction rows with
    | nil => simp
    | cons row rows ih =>
      intro c
      rw [List.foldl_cons, ih, foldl_max_le_iff, List.forall_mem_cons, and_assoc]
  rw [largest, start, and_iff_right (Nat.zero_le m)]

end Weighted

namespace Exponent

theorem Fits.mono {p o q k : Nat} {s : Exponent} (h : Fits q k s) (hp : q ≤ p) (ho : k ≤ o) :
    Fits p o s :=
  ⟨fun j hj => h.parameters j (hp.trans hj), h.order.trans ho⟩

theorem box_mono {p o q k : Nat} (hp : q ≤ p) (ho : k ≤ o) : box q k ⊆ box p o :=
  fun _ hs => mem_box.mpr ((mem_box.mp hs).mono hp ho)

end Exponent

namespace Tables
variable {p o q k : Nat}

/-! ## How much there is -/

theorem size_mono (hp : q ≤ p) (ho : k ≤ o) : (complete q k).size ≤ (complete p o).size := by
  rw [size_complete, size_complete]
  calc (q + k).choose k
      ≤ (p + k).choose k := Nat.choose_le_choose k (Nat.add_le_add_right hp k)
    _ = (p + k).choose p := (Nat.choose_symm_add).symm
    _ ≤ (p + o).choose p := Nat.choose_le_choose p (Nat.add_le_add_left ho p)
    _ = (p + o).choose o := Nat.choose_symm_add

/-- The sizes for one parameter more, which are refused by the last of them. -/
theorem sizesUpTo?_succ {indexMax : Int}
    (h : sizesUpTo? indexMax (o + 1) p = .ok (complete p o).sizes) :
    sizesUpTo? indexMax (o + 1) (p + 1) =
      if indexMax < (complete (p + 1) o).size then
        .error (.tooManySlots (p + 1) o (complete (p + 1) o).size)
      else .ok (complete (p + 1) o).sizes := by
  have above : (complete p o).sizes.extend = (complete (p + 1) o).sizes := by
    rw [sizes_complete, sizes_complete, Sizes.extend_binomials]
  have needed : ((complete (p + 1) o).sizes.getLastD []).getLastD 0 =
      (complete (p + 1) o).size := by
    rw [sizes_complete, Sizes.last_binomials, size_complete]
  rw [sizesUpTo?, h, ← needed, ← above]
  rfl

/-- **The sizes alone** are those of the complete tables, and are refused where a jet with so many
parameters has too many slots. -/
theorem sizesUpTo?_eq_ok_iff {indexMax : Int} {sizes : Sizes} :
    sizesUpTo? indexMax (o + 1) p = .ok sizes ↔
      (p = 0 ∨ (complete p o).size ≤ indexMax) ∧ (complete p o).sizes = sizes := by
  induction p generalizing sizes with
  | zero =>
    have start : sizesUpTo? indexMax (o + 1) 0 = .ok (complete 0 o).sizes := rfl
    rw [start, Except.ok.injEq, and_iff_right (Or.inl rfl)]
  | succ p ih =>
    constructor
    · intro h
      obtain ⟨_, lower, -⟩ := bind_eq_ok_iff.mp h
      obtain ⟨-, rfl⟩ := ih.mp lower
      rw [sizesUpTo?_succ lower] at h
      split at h
      · cases h
      · exact ⟨.inr (by omega), Except.ok.inj h⟩
    · rintro ⟨h | fits, rfl⟩
      · cases h
      · have smaller : (complete p o).size ≤ (complete (p + 1) o).size :=
          size_mono (Nat.le_succ p) (Nat.le_refl o)
        rw [sizesUpTo?_succ (ih.mpr ⟨.inr (by omega), rfl⟩), if_neg (by omega)]

/-- How an exponent splits does not depend on the jet. -/
theorem splittings_eq {n : Exponent} (hn : Fits q k n) (hp : q ≤ p) (ho : k ≤ o) :
    splittings q k n = splittings p o n := by
  ext S
  rw [mem_splittings hn, mem_splittings (hn.mono hp ho)]

/-- The row of an exponent has a term for each splitting. -/
theorem length_compositionRow {n : Exponent} (hn : Fits p o n) :
    ((complete p o).composition.getD (place p o n) []).length = (splittings p o n).card := by
  obtain ⟨row, hrow, hr⟩ := isChainRow_composition hn
  have terms := hr.perm (factorial_pos n).ne' (fun _ => mem_splittings hn)
    (fun _ _ hS hT he => factors_injective (hS.fits hn) (hT.fits hn) he) fun S _ => share_pos S
  rw [List.getD_eq_getElem?_getD, hrow, Option.getD_some, terms.length_eq, List.length_map,
    Finset.length_toList]

theorem termCount_eq_sum (rows : List (List ChainTerm)) :
    termCount rows = ∑ i ∈ Finset.range rows.length, (rows.getD i []).length := by
  induction rows with
  | nil => rfl
  | cons row rows ih =>
    rw [termCount_cons, ih, List.length_cons, Finset.sum_range_succ', Nat.add_comm]
    rfl

/-- **The terms of the chain rule** are the splittings of all exponents. -/
theorem termCount_complete (p o : Nat) :
    termCount (complete p o).composition = ∑ n ∈ box p o, (splittings p o n).card := by
  rw [termCount_eq_sum, length_composition, sum_range_size]
  exact Finset.sum_congr rfl fun n hn => length_compositionRow (mem_box.mp hn)

theorem termCount_mono (hp : q ≤ p) (ho : k ≤ o) :
    termCount (complete q k).composition ≤ termCount (complete p o).composition := by
  rw [termCount_complete, termCount_complete]
  calc ∑ n ∈ box q k, (splittings q k n).card
      = ∑ n ∈ box q k, (splittings p o n).card :=
        Finset.sum_congr rfl fun n hn => by rw [splittings_eq (mem_box.mp hn) hp ho]
    _ ≤ ∑ n ∈ box p o, (splittings p o n).card :=
        Finset.sum_le_sum_of_subset (box_mono hp ho)

/-- **Every coefficient comes back** in the tables of a larger signature. -/
theorem largest_mono (hp : q ≤ p) (ho : k ≤ o) :
    Weighted.largest (complete q k).composition ≤ Weighted.largest (complete p o).composition := by
  refine Weighted.largest_le_iff.mpr fun row hrow t ht => ?_
  obtain ⟨n, hn, hr⟩ := isChainRow_of_mem hrow
  obtain ⟨S, hS, -, hc⟩ := hr.coefficient_of_mem ht
  obtain ⟨row', hrow', hr'⟩ := isChainRow_composition (hn.mono hp ho)
  obtain ⟨t', ht', -, hc'⟩ := hr'.exists_mem (factorial_pos n).ne' hS
  have same : t.coefficient = t'.coefficient :=
    Nat.eq_of_mul_eq_mul_right (share_pos S) (hc.trans hc'.symm)
  rw [same]
  exact Weighted.largest_le_iff.mp le_rfl row' (List.mem_of_getElem? hrow') t' ht'

/-! ## What the limits ask -/

/-- **Whether tables fit the limits.** -/
structure Within (t : Tables) (limits : BuildLimits) : Prop where
  slots : ((t.parameters + t.order).choose t.order : Int) ≤ limits.indexMax
  terms : t.parameters ≠ 0 → t.order ≠ 0 → termCount t.composition ≤ limits.maxTerms
  coefficients : (Weighted.largest t.composition : Int) ≤ limits.indexMax

/-- The limits ask the same in terms of the slots. -/
theorem within_complete_iff {limits : BuildLimits} : (complete p o).Within limits ↔
    ((complete p o).size : Int) ≤ limits.indexMax ∧
      (p ≠ 0 → o ≠ 0 → termCount (complete p o).composition ≤ limits.maxTerms) ∧
      (Weighted.largest (complete p o).composition : Int) ≤ limits.indexMax := by
  rw [size_complete]
  constructor
  · rintro ⟨slots, terms, coefficients⟩
    rw [parameters_complete, order_complete] at slots terms
    exact ⟨slots, terms, coefficients⟩
  · rintro ⟨slots, terms, coefficients⟩
    refine ⟨?_, ?_, coefficients⟩ <;> rwa [parameters_complete, order_complete]

/-- **A smaller signature fits as well.** -/
theorem Within.mono {limits : BuildLimits} (h : (complete p o).Within limits) (hp : q ≤ p)
    (ho : k ≤ o) : (complete q k).Within limits := by
  obtain ⟨slots, terms, coefficients⟩ := within_complete_iff.mp h
  exact within_complete_iff.mpr ⟨(Int.ofNat_le.mpr (size_mono hp ho)).trans slots,
    fun _ _ => (termCount_mono hp ho).trans (terms (by omega) (by omega)),
    (Int.ofNat_le.mpr (largest_mono hp ho)).trans coefficients⟩

/-- Neighbours that are not there are not looked at. -/
theorem build?_congr {limits : BuildLimits} {value value' derivative derivative' : Tables}
    (hv : p ≠ 0 → value = value') (hd : o ≠ 0 → derivative = derivative') :
    build? limits p o value derivative = build? limits p o value' derivative' := by
  cases p with
  | zero => rfl
  | succ p =>
    obtain rfl := hv (Nat.succ_ne_zero p)
    cases o with
    | zero => rfl
    | succ o => rw [hd (Nat.succ_ne_zero o)]

/-- **Tables are built exactly if they fit**, and then they are the complete ones. -/
theorem build?_complete_eq_ok_iff {limits : BuildLimits} {t : Tables} :
    build? limits p o (complete (p - 1) o) (complete p (o - 1)) = .ok t ↔
      t = complete p o ∧ (complete p o).Within limits := by
  rw [build?_eq_ok_iff, within_complete_iff]
  cases p with
  | zero =>
    -- There is one slot and one coefficient, and they are the same number.
    have slots : (complete 0 o).size = Weighted.largest (complete 0 o).composition := by
      rw [size_complete, Nat.zero_add, Nat.choose_self]
      rfl
    constructor
    · rintro ⟨h, coefficients⟩
      cases h
      exact ⟨rfl, slots ▸ coefficients, fun h => absurd rfl h, coefficients⟩
    · rintro ⟨rfl, -, -, coefficients⟩
      exact ⟨rfl, coefficients⟩
  | succ p =>
    rw [Nat.add_sub_cancel]
    cases o with
    | zero =>
      rw [assemble?_edge_eq_ok_iff, count_sizesAbove]
      constructor
      · rintro ⟨⟨slots, rfl⟩, coefficients⟩
        exact ⟨rfl, slots, fun _ h => absurd rfl h, coefficients⟩
      · rintro ⟨rfl, slots, -, coefficients⟩
        exact ⟨⟨slots, rfl⟩, coefficients⟩
    | succ o =>
      rw [assemble?_cell_eq_ok_iff, count_sizesAbove, Nat.add_sub_cancel, ← complete_succ_succ]
      constructor
      · rintro ⟨⟨slots, rfl, terms⟩, coefficients⟩
        exact ⟨rfl, slots, fun _ _ => terms, coefficients⟩
      · rintro ⟨rfl, slots, terms, coefficients⟩
        exact ⟨⟨slots, rfl, terms (Nat.succ_ne_zero p) (Nat.succ_ne_zero o)⟩, coefficients⟩

/-- Tables that do not fit are refused, and all others are built. -/
theorem build?_complete_cases (limits : BuildLimits) (p o : Nat) :
    (¬ (complete p o).Within limits ∧
      ∃ fault, build? limits p o (complete (p - 1) o) (complete p (o - 1)) = .error fault) ∨
    ((complete p o).Within limits ∧
      build? limits p o (complete (p - 1) o) (complete p (o - 1)) = .ok (complete p o)) := by
  rcases hb : build? limits p o (complete (p - 1) o) (complete p (o - 1)) with fault | t
  · refine Or.inl ⟨fun fits => ?_, fault, rfl⟩
    rw [build?_complete_eq_ok_iff.mpr ⟨rfl, fits⟩] at hb
    cases hb
  · obtain ⟨rfl, fits⟩ := build?_complete_eq_ok_iff.mp hb
    exact Or.inr ⟨fits, rfl⟩

end Tables

end JetAlgebra
