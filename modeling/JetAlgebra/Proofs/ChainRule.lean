import JetAlgebra.Proofs.Construction
import JetAlgebra.Proofs.Splitting
import JetAlgebra.Proofs.Weights

/-!
# The composition table is the chain rule

The row of an exponent `n` expands `n!` over the splittings of `n`: the term of a splitting
`S` has one factor for each part, in the order of the slots, and the coefficient
`n! / Splitting.share S`.  For one parameter this is the formula of Faà di Bruno.

One step of the table differentiates a row along the last parameter.  The factors of the new
terms are those of the raised splittings (`coe_raisedFactors`).  Read from the other side, the
weight of a splitting `T` is a sum over its parts (`weight_differentiate`), and with the shares
it becomes `n!` times the derivatives along the last parameter that the parts have together.
-/
namespace JetAlgebra

open Tables Exponent

namespace ChainTerm

/-! ## Slots in order -/

theorem perm_insertSlot (s : Nat) (l : List Nat) : (insertSlot s l).Perm (s :: l) := by
  induction l with
  | nil => exact .refl _
  | cons t l ih =>
    rw [insertSlot]
    split
    · exact .refl _
    · exact (ih.cons t).trans (List.Perm.swap s t l)

theorem pairwise_insertSlot (s : Nat) {l : List Nat} (h : l.Pairwise (· ≤ ·)) :
    (insertSlot s l).Pairwise (· ≤ ·) := by
  induction l with
  | nil => exact List.pairwise_singleton _ _
  | cons t l ih =>
    obtain ⟨ht, hl⟩ := List.pairwise_cons.mp h
    rw [insertSlot]
    split
    · next hst =>
      refine List.pairwise_cons.mpr ⟨fun u hu => ?_, h⟩
      rcases List.mem_cons.mp hu with rfl | hu
      · exact hst
      · exact Nat.le_trans hst (ht u hu)
    · next hst =>
      refine List.pairwise_cons.mpr ⟨fun u hu => ?_, ih hl⟩
      rcases List.mem_cons.mp ((perm_insertSlot s l).mem_iff.mp hu) with rfl | hu
      · omega
      · exact ht u hu

/-- **Sorting slots** depends on which slots there are, not on their order. -/
theorem sorted_eq_sort (l : List Nat) : sorted l = (l : Multiset Nat).sort := by
  have perm : (sorted l).Perm l := by
    induction l with
    | nil => exact .refl _
    | cons s l ih => exact (perm_insertSlot s _).trans (ih.cons s)
  have pairwise : (sorted l).Pairwise (· ≤ ·) := by
    clear perm
    induction l with
    | nil => exact List.Pairwise.nil
    | cons s l ih => exact pairwise_insertSlot s ih
  refine List.Perm.eq_of_pairwise' pairwise (Multiset.pairwise_sort _ _) (perm.trans ?_)
  exact Multiset.coe_eq_coe.mp (Multiset.sort_eq _ _).symm

/-- The factors that a term has after it is differentiated: with a new factor, or with one of
its factors raised. -/
def raisedFactors (r : Renumbering) (f : ChainFactors) : List ChainFactors :=
  ⟨f.derivative + 1, sorted (f.slots.map (r.same.getD · 0) ++ [r.first])⟩ ::
    (raiseEach r f.slots).map fun slots => ⟨f.derivative, sorted slots⟩

theorem differentiate_eq (r : Renumbering) (t : ChainTerm) :
    differentiate r t = (raisedFactors r t.key).map fun f => ⟨t.coefficient, f⟩ := by
  rw [differentiate, raisedFactors, List.map_cons, List.map_map]
  rfl

/-- Every new term has the coefficient of the old one. -/
theorem weight_differentiate (r : Renumbering) (t : ChainTerm) (f : ChainFactors) :
    Weighted.weight (differentiate r t) f = (raisedFactors r t.key).count f * t.coefficient := by
  rw [differentiate_eq]
  induction raisedFactors r t.key with
  | nil => rw [List.map_nil, Weighted.weight_nil, List.count_nil, Nat.zero_mul]
  | cons g fs ih =>
    rw [List.map_cons, Weighted.weight_cons, ih, List.count_cons, Nat.add_mul, Nat.add_comm]
    simp only [beq_iff_eq, ite_mul, Nat.one_mul, Nat.zero_mul]

end ChainTerm

namespace Splitting
open ChainTerm
variable {p o : Nat} {S T : Multiset Exponent}

/-- The factors of the term of a splitting. -/
noncomputable def factors (p o : Nat) (S : Multiset Exponent) : ChainFactors where
  derivative := S.card
  slots := (S.map (place p o)).sort

theorem coe_slots_factors (p o : Nat) (S : Multiset Exponent) :
    ((factors p o S).slots : Multiset Nat) = S.map (place p o) := Multiset.sort_eq _ _

theorem map_held_place (hS : ∀ s ∈ S, Fits p o s) : (S.map (place p o)).map (held p o) = S := by
  rw [Multiset.map_map]
  exact (Multiset.map_congr rfl fun s hs => held_place (hS s hs)).trans (Multiset.map_id' S)

/-- The factors tell which splitting it is. -/
theorem factors_injective (hS : ∀ s ∈ S, Fits p o s) (hT : ∀ s ∈ T, Fits p o s)
    (h : factors p o S = factors p o T) : S = T := by
  have slots : S.map (place p o) = T.map (place p o) := by
    rw [← coe_slots_factors, ← coe_slots_factors, h]
  rw [← map_held_place hS, slots, map_held_place hT]

/-- The value part has the same factors. -/
theorem factors_value (hS : ∀ s ∈ S, Fits p (o + 1) s) :
    factors p (o + 1) S = factors (p + 1) (o + 1) S := by
  rw [factors, factors, Multiset.map_congr rfl fun s hs => place_value (hS s hs)]

/-- How the table of the `(p + 1, o + 1)` jet renumbers the slots of its derivative part. -/
def renumber (p o : Nat) : Renumbering :=
  renumbering (p + 1) (o + 1) (complete p (o + 1)).sizesAbove (complete (p + 1) o)

theorem renumber_same {s : Exponent} (h : Fits (p + 1) o s) :
    (renumber p o).same.getD (place (p + 1) o s) 0 = place (p + 1) (o + 1) s := by
  rw [renumber, renumbering, List.getD_eq_getElem?_getD, List.getElem?_map, getElem?_place h]
  rfl

theorem renumber_raised {s : Exponent} (h : Fits (p + 1) o s) :
    (renumber p o).raised.getD (place (p + 1) o s) 0 = place (p + 1) (o + 1) (s + unit p) := by
  rw [renumber, renumbering, List.getD_eq_getElem?_getD, List.getElem?_map, getElem?_place h,
    Option.map_some, raiseLast_tuple]
  rfl

theorem renumber_first : (renumber p o).first = place (p + 1) (o + 1) (unit p) := by
  have orders : Orders.unitLast (p + 1) = tuple (p + 1) (unit p) := by
    rw [← zero_add (unit p), ← raiseLast_tuple, tuple_succ, Orders.raiseLast_concat,
      tuple_zero]
    rfl
  rw [renumber, renumbering, orders]
  rfl

theorem factors_ofList (p o : Nat) (l : List Exponent) :
    factors p o l = ⟨l.length, sorted (l.map (place p o))⟩ := by
  rw [sorted_eq_sort]; rfl

/-- The parts in the order of their slots. -/
theorem exists_parts (hS : ∀ s ∈ S, Fits p o s) :
    ∃ l : List Exponent, (l : Multiset Exponent) = S ∧
      (factors p o S).slots = l.map (place p o) := by
  refine ⟨(factors p o S).slots.map (held p o), ?_, ?_⟩
  · rw [← Multiset.map_coe, coe_slots_factors, map_held_place hS]
  · rw [List.map_map, List.map_congr_left (g := id), List.map_id]
    intro i hi
    rw [← Multiset.mem_coe, coe_slots_factors] at hi
    obtain ⟨s, hs, rfl⟩ := Multiset.mem_map.mp hi
    exact congrArg (place p o) (held_place (hS s hs))

/-- All ways to add `e` to one entry of a list of parts. -/
noncomputable def raiseParts (e : Exponent) : List Exponent → List (List Exponent)
  | [] => []
  | s :: l => ((s + e) :: l) :: (raiseParts e l).map (s :: ·)

/-- Raising one slot after the other raises one part after the other. -/
theorem raiseEach_map_place {l : List Exponent} (hl : ∀ s ∈ l, Fits (p + 1) o s) :
    raiseEach (renumber p o) (l.map (place (p + 1) o)) =
      (raiseParts (unit p) l).map (List.map (place (p + 1) (o + 1))) := by
  induction l with
  | nil => rfl
  | cons s l ih =>
    have hs := hl s List.mem_cons_self
    have rest := fun t ht => hl t (List.mem_cons_of_mem s ht)
    have same : l.map (place (p + 1) (o + 1)) =
        (l.map (place (p + 1) o)).map ((renumber p o).same.getD · 0) := by
      rw [List.map_map]
      exact List.map_congr_left fun t ht => (renumber_same (rest t ht)).symm
    rw [List.map_cons, raiseEach, renumber_same hs, renumber_raised hs, ih rest, ← same, raiseParts,
      List.map_cons, List.map_cons, List.map_map, List.map_map]
    rfl

theorem coe_raiseParts (e : Exponent) (l : List Exponent) :
    Multiset.ofList ((raiseParts e l).map Multiset.ofList) =
      (l : Multiset Exponent).map fun s => (s + e) ::ₘ (l : Multiset Exponent).erase s := by
  induction l with
  | nil => rfl
  | cons s l ih =>
    rw [← Multiset.cons_coe, map_raise_cons, ← ih, raiseParts, List.map_cons, List.map_map,
      Multiset.map_coe, List.map_map]
    rfl

theorem length_of_mem_raiseParts {e : Exponent} {l m : List Exponent} (h : m ∈ raiseParts e l) :
    m.length = l.length := by
  induction l generalizing m with
  | nil => cases h
  | cons s l ih =>
    rcases List.mem_cons.mp h with rfl | h
    · rfl
    · obtain ⟨m, hm, rfl⟩ := List.mem_map.mp h
      exact congrArg (· + 1) (ih hm)

/-- **Differentiating a term raises its splitting**: the new factors are those of the
splittings with one derivative more. -/
theorem coe_raisedFactors (hS : ∀ s ∈ S, Fits (p + 1) o s) :
    (raisedFactors (renumber p o) (factors (p + 1) o S) : Multiset ChainFactors) =
      (raises (unit p) S).map (factors (p + 1) (o + 1)) := by
  obtain ⟨l, rfl, hslots⟩ := exists_parts hS
  have same : (l.map (place (p + 1) o)).map ((renumber p o).same.getD · 0) =
      l.map (place (p + 1) (o + 1)) := by
    rw [List.map_map]
    exact List.map_congr_left fun s hs => renumber_same (hS s hs)
  have new : factors (p + 1) (o + 1) (unit p ::ₘ l) = ⟨l.length + 1,
      sorted (l.map (place (p + 1) (o + 1)) ++ [place (p + 1) (o + 1) (unit p)])⟩ := by
    have last : unit p ::ₘ (l : Multiset Exponent) = Multiset.ofList (l ++ [unit p]) :=
      Multiset.coe_eq_coe.mpr (List.perm_append_singleton _ _).symm
    rw [last, factors_ofList, List.length_append, List.map_append]
    rfl
  have old : ∀ m ∈ raiseParts (unit p) l,
      (⟨l.length, sorted (m.map (place (p + 1) (o + 1)))⟩ : ChainFactors) =
        factors (p + 1) (o + 1) m := by
    intro m hm
    rw [factors_ofList, length_of_mem_raiseParts hm]
  rw [raisedFactors, hslots, same, renumber_first, raiseEach_map_place hS, List.map_map, raises,
    Multiset.map_cons, new, ← coe_raiseParts, Multiset.map_coe, List.map_map]
  exact congrArg (fun fs => Multiset.ofList (_ :: fs)) (List.map_congr_left old)

end Splitting

/-! ## Rows -/

open Splitting

/-- **The row of the exponent `n`** in the composition table of a `(p, o)` jet. -/
def IsChainRow (p o : Nat) (n : Exponent) (row : List ChainTerm) : Prop :=
  Weighted.Expands row (IsSplitting n) (factors p o) share (factorial n)

namespace IsChainRow

/-- A jet that is a single slot keeps the value of the outer function. -/
theorem single (p o : Nat) : IsChainRow p o 0 [⟨1, 0, []⟩] where
  nodup := List.nodup_singleton _
  keys t ht := by
    obtain rfl := List.mem_singleton.mp ht
    exact ⟨0, isSplitting_zero.mpr rfl, by simp [factors]⟩
  weight S hS := by
    obtain rfl := isSplitting_zero.mp hS
    simp [factors]

variable {p o : Nat} {n : Exponent} {row : List ChainTerm}

/-- A row of the value part is a row of the whole table. -/
theorem value (hn : Fits p (o + 1) n) (h : IsChainRow p (o + 1) n row) :
    IsChainRow (p + 1) (o + 1) n row :=
  Weighted.Expands.congr h fun _ hS => factors_value (hS.fits hn)

/-- **The weight of a splitting after a derivative** comes from the splittings before: one for
each of its parts that has a derivative along the last parameter. -/
theorem weight_differentiate (hn : Fits (p + 1) o n) (h : IsChainRow (p + 1) o n row)
    {T : Multiset Exponent} (hT : IsSplitting (n + unit p) T) :
    Weighted.weight (row.flatMap (ChainTerm.differentiate (renumber p o)))
        (factors (p + 1) (o + 1) T) =
      ∑ x ∈ T.toFinset with unit p ≤ x, ways (unit p) T x *
        Weighted.weight row (factors (p + 1) o (lowered (unit p) T x)) := by
  have step : ∀ t ∈ row,
      Weighted.weight (ChainTerm.differentiate (renumber p o) t) (factors (p + 1) (o + 1) T) =
        ∑ x ∈ T.toFinset with unit p ≤ x, ways (unit p) T x *
          if t.key = factors (p + 1) o (lowered (unit p) T x) then t.coefficient else 0 := by
    intro t ht
    obtain ⟨S, hS, hk⟩ := h.keys t ht
    have raised : (ChainTerm.raisedFactors (renumber p o) t.key).count (factors (p + 1) (o + 1) T) =
        (raises (unit p) S).count T := by
      rw [← Multiset.coe_count, hk, coe_raisedFactors (hS.fits hn), Multiset.count_map,
        Multiset.count_eq_card_filter_eq]
      refine congrArg _ (Multiset.filter_congr fun R hR => ?_)
      have after := isSplitting_of_mem_raises (unit_ne_zero p) hS hR
      exact ⟨factors_injective (hT.fits hn.raise) (after.fits hn.raise), fun he => he ▸ rfl⟩
    rw [ChainTerm.weight_differentiate, raised, count_raises (unit_ne_zero p) hS.zero_notMem,
      Finset.sum_mul]
    refine Finset.sum_congr rfl fun x hx => ?_
    obtain ⟨hx, hpx⟩ := Finset.mem_filter.mp hx
    have low := isSplitting_lowered hT (Multiset.mem_toFinset.mp hx) hpx
    have same : t.key = factors (p + 1) o (lowered (unit p) T x) ↔
        S = lowered (unit p) T x :=
      ⟨fun he => factors_injective (hS.fits hn) (low.fits hn) (hk ▸ he), fun he => he ▸ hk⟩
    simp only [same, ite_mul, mul_ite, Nat.zero_mul, Nat.mul_zero]
  -- What is left is to sum over the terms first and over the parts of `T` last.
  rw [Weighted.weight_flatMap, List.map_congr_left step]
  refine (Multiset.sum_map_sum_map (row : Multiset ChainTerm) _).trans ?_
  exact Finset.sum_congr rfl fun x _ => List.sum_map_mul_left ..

/-- **Differentiating a row of the chain rule** gives the row with one derivative more. -/
theorem differentiate (hn : Fits (p + 1) o n) (h : IsChainRow (p + 1) o n row) :
    IsChainRow (p + 1) (o + 1) (n + unit p)
      (ChainTerm.differentiateRow (renumber p o) row) := by
  rw [ChainTerm.differentiateRow_eq]
  refine Weighted.expands_combine ?_ ?_
  · intro t ht
    obtain ⟨u, hu, ht⟩ := List.mem_flatMap.mp ht
    obtain ⟨S, hS, hk⟩ := h.keys u hu
    rw [ChainTerm.differentiate_eq, List.mem_map] at ht
    obtain ⟨f, hf, rfl⟩ := ht
    rw [← Multiset.mem_coe, hk, coe_raisedFactors (hS.fits hn)] at hf
    obtain ⟨T, hT, rfl⟩ := Multiset.mem_map.mp hf
    exact ⟨T, isSplitting_of_mem_raises (unit_ne_zero p) hS hT, rfl⟩
  · intro T hT
    have part : ∀ x ∈ T.toFinset.filter (unit p ≤ ·),
        ways (unit p) T x * Weighted.weight row
          (factors (p + 1) o (lowered (unit p) T x)) * share T =
        factorial n * (x p * T.count x) := by
      intro x hx
      obtain ⟨hx, hpx⟩ := Finset.mem_filter.mp hx
      rw [Multiset.mem_toFinset] at hx
      rw [Nat.mul_right_comm, ways_mul_share hx hpx, ← h.weight _ (isSplitting_lowered hT hx hpx)]
      ring
    calc Weighted.weight (row.flatMap (ChainTerm.differentiate (renumber p o)))
            (factors (p + 1) (o + 1) T) * share T
        = ∑ x ∈ T.toFinset with unit p ≤ x, factorial n * (x p * T.count x) := by
          rw [weight_differentiate hn h hT, Finset.sum_mul, Finset.sum_congr rfl part]
      _ = factorial n * T.sum p := by rw [← Finset.mul_sum, sum_order_mul_count]
      _ = factorial (n + unit p) := by
          rw [hT.sum_eq, factorial_add_unit, Finsupp.add_apply, unit_self]

end IsChainRow

namespace Tables

theorem composition_succ_succ (p o : Nat) :
    (complete (p + 1) (o + 1)).composition =
      ChainTerm.joinRows (renumber p o) (complete p (o + 1)).composition
        (complete (p + 1) o).composition := rfl

theorem length_composition (p o : Nat) :
    (complete p o).composition.length = (complete p o).size := by
  induction p, o using grid_induction with
  | point o => rw [size_complete, Nat.zero_add, Nat.choose_self]; rfl
  | edge p => rw [size_complete, Nat.choose_zero_right]; rfl
  | cell p o hv hd =>
    rw [composition_succ_succ, ChainTerm.joinRows, List.length_append, List.length_map, hv, hd,
      size_succ_succ]

/-- **Every row of the composition table is a row of the chain rule.** -/
theorem isChainRow_composition {p o : Nat} {n : Exponent} (hn : Fits p o n) :
    ∃ row, (complete p o).composition[place p o n]? = some row ∧ IsChainRow p o n row := by
  induction p, o using grid_induction generalizing n with
  | point o =>
    obtain rfl := hn.eq_zero_of_point
    exact ⟨_, by rw [place_zero]; rfl, IsChainRow.single 0 o⟩
  | edge p =>
    obtain rfl := hn.eq_zero_of_edge
    exact ⟨_, by rw [place_zero]; rfl, IsChainRow.single (p + 1) 0⟩
  | cell p o hv hd =>
    rw [composition_succ_succ, ChainTerm.joinRows]
    -- A slot of the value part keeps its row, and one of the derivative part differentiates it.
    rcases hn.cases with hv' | ⟨n, hd', rfl⟩
    · obtain ⟨row, hrow, h⟩ := hv hv'
      refine ⟨row, ?_, h.value hv'⟩
      rw [place_value hv',
        List.getElem?_append_left (length_composition p (o + 1) ▸ place_lt hv'), hrow]
    · obtain ⟨row, hrow, h⟩ := hd hd'
      refine ⟨_, ?_, h.differentiate hd'⟩
      rw [place_raise, ← length_composition, List.getElem?_append_right (Nat.le_add_right ..),
        Nat.add_sub_cancel_left, List.getElem?_map, hrow, Option.map_some]

theorem isChainRow_of_mem {p o : Nat} {row : List ChainTerm}
    (h : row ∈ (complete p o).composition) : ∃ n, Fits p o n ∧ IsChainRow p o n row := by
  obtain ⟨i, hi, rfl⟩ := List.mem_iff_getElem.mp h
  obtain ⟨n, hn, rfl⟩ := exists_place (length_composition p o ▸ hi)
  obtain ⟨row, hrow, hr⟩ := isChainRow_composition hn
  rw [List.getElem?_eq_getElem hi] at hrow
  exact ⟨n, hn, Option.some.inj hrow ▸ hr⟩

end Tables

/-! ## The rows in terms of orders -/

/-- **Parts of orders**: tuples of as many orders, not all zero, that add up to `n`. -/
structure Orders.IsSplit (n : Orders) (S : Multiset Orders) : Prop where
  length : ∀ s ∈ S, s.length = n.length
  nonzero : ∀ s ∈ S, s ≠ List.replicate n.length 0
  sum : ∀ j, (S.map (·.getD j 0)).sum = n.getD j 0

/-- What `n!` is divided by: the factorials of the parts, and those of the numbers of equal
parts. -/
def Orders.splitShare (S : Multiset Orders) : Nat :=
  (S.map fun s => (s.map Nat.factorial).prod).prod * ∏ s ∈ S.toFinset, (S.count s).factorial

/-- **The chain rule for one slot.**  In tables `t`, a row of composition terms for the slot
with orders `n`: each multiset of parts of `n` is that of the factors of exactly one term, in
the order of the slots, with the coefficient of the formula of Faà di Bruno. -/
structure Tables.IsCompositionRow (t : Tables) (n : Orders) (row : List ChainTerm) : Prop where
  /-- Each multiset of parts has one term. -/
  existsUnique : ∀ S, n.IsSplit S → ∃! term, term ∈ row ∧
    (term.key.slots : Multiset Nat).map (t.derivatives[·]?) = S.map some
  /-- Each term belongs to a multiset of parts. -/
  terms : ∀ term ∈ row, ∃ S, n.IsSplit S ∧
    (term.key.slots : Multiset Nat).map (t.derivatives[·]?) = S.map some ∧
    term.key.derivative = S.card ∧
    (term.coefficient : ℚ) = (n.map Nat.factorial).prod / Orders.splitShare S
  /-- No two terms have the same factors. -/
  distinct : row.Pairwise fun u v => ¬ u.key.slots.Perm v.key.slots
  increasing : ∀ term ∈ row, term.key.slots.Pairwise (· ≤ ·)
  length : ∀ term ∈ row, term.key.slots.length = term.key.derivative
  positive : ∀ term ∈ row, 0 < term.coefficient
  /-- The factors are slots of the jet other than the value. -/
  slots : ∀ term ∈ row, ∀ s ∈ term.key.slots, 1 ≤ s ∧ s < t.size

namespace Splitting
variable {p o : Nat} {n : Orders}

theorem sum_apply (S : Multiset Exponent) (j : Nat) : S.sum j = (S.map (· j)).sum :=
  map_multiset_sum (Finsupp.applyAddHom j) S

/-- Parts of orders are parts of the exponent. -/
theorem isSplitting_of_isSplit {S : Multiset Orders} (h : n.IsSplit S) :
    IsSplitting n.exponent (S.map Orders.exponent) := by
  refine ⟨fun hz => ?_, Finsupp.ext fun j => ?_⟩
  · obtain ⟨s, hs, hz⟩ := Multiset.mem_map.mp hz
    refine h.nonzero s hs ?_
    rw [← h.length s hs, ← tuple_zero, ← hz, tuple_exponent]
  · rw [exponent_apply, ← h.sum j, sum_apply, Multiset.map_map]
    exact congrArg _ (Multiset.map_congr rfl fun s _ => exponent_apply s j)

/-- Parts of an exponent are parts of its orders. -/
theorem isSplit_map_tuple (hn : Fits p o n.exponent) (hl : n.length = p) {S : Multiset Exponent}
    (hS : IsSplitting n.exponent S) : n.IsSplit (S.map (tuple p)) := by
  have orders : ∀ s ∈ S, Orders.exponent (tuple p s) = s :=
    fun s hs => exponent_tuple (hS.fits hn s hs).parameters
  refine ⟨fun m hm => ?_, fun m hm hz => ?_, fun j => ?_⟩
  · obtain ⟨s, _, rfl⟩ := Multiset.mem_map.mp hm
    rw [length_tuple, hl]
  · obtain ⟨s, hs, rfl⟩ := Multiset.mem_map.mp hm
    rw [hl, ← tuple_zero] at hz
    have zero : s = 0 := by rw [← orders s hs, hz, exponent_tuple fun _ _ => rfl]
    exact hS.zero_notMem (zero ▸ hs)
  · rw [Multiset.map_map, ← exponent_apply, ← hS.sum_eq, sum_apply]
    refine congrArg _ (Multiset.map_congr rfl fun s hs => ?_)
    rw [Function.comp_apply, ← exponent_apply, orders s hs]

theorem map_tuple_exponent {S : Multiset Orders} (h : n.IsSplit S) :
    (S.map Orders.exponent).map (tuple n.length) = S := by
  rw [Multiset.map_map]
  refine (Multiset.map_congr rfl fun s hs => ?_).trans (Multiset.map_id' S)
  rw [Function.comp_apply, ← h.length s hs, tuple_exponent]

theorem map_exponent_tuple {S : Multiset Exponent} (hS : ∀ s ∈ S, Fits p o s) :
    (S.map (tuple p)).map Orders.exponent = S := by
  rw [Multiset.map_map]
  exact (Multiset.map_congr rfl fun s hs => exponent_tuple (hS s hs).parameters).trans
    (Multiset.map_id' S)

theorem splitShare_map_tuple {S : Multiset Exponent} (hS : ∀ s ∈ S, Fits p o s) :
    Orders.splitShare (S.map (tuple p)) = share S := by
  have injective : Set.InjOn (tuple p) {s | s ∈ S} := by
    intro s hs t ht he
    rw [← exponent_tuple (hS s hs).parameters, he, exponent_tuple (hS t ht).parameters]
  rw [Orders.splitShare, share, Multiset.map_map, Multiset.toFinset_map, Finset.prod_image]
  · refine congrArg₂ _ (congrArg _ (Multiset.map_congr rfl fun s hs => ?_))
      (Finset.prod_congr rfl fun s hs => ?_)
    · rw [Function.comp_apply, ← factorial_exponent, exponent_tuple (hS s hs).parameters]
    · rw [Multiset.count_map_eq_count _ _ injective s (Multiset.mem_toFinset.mp hs)]
  · exact fun s hs t ht he =>
      injective (Multiset.mem_toFinset.mp hs) (Multiset.mem_toFinset.mp ht) he

/-- The slots of a splitting hold its parts. -/
theorem map_derivatives_slots {S : Multiset Exponent} (hS : ∀ s ∈ S, Fits p o s) :
    ((factors p o S).slots : Multiset Nat).map ((complete p o).derivatives[·]?) =
      (S.map (tuple p)).map some := by
  rw [coe_slots_factors, Multiset.map_map, Multiset.map_map]
  exact Multiset.map_congr rfl fun s hs => getElem?_place (hS s hs)

theorem length_slots_factors (p o : Nat) (S : Multiset Exponent) :
    (factors p o S).slots.length = S.card :=
  (Multiset.length_sort _).trans (Multiset.card_map _ _)

end Splitting

namespace Tables

/-- A multiset of parts is that of the factors of exactly one term. -/
theorem existsUnique_of_isSplit {p o : Nat} {n : Orders} (hn : Fits p o n.exponent)
    (hl : n.length = p) {row : List ChainTerm} (h : IsChainRow p o n.exponent row)
    {S : Multiset Orders} (hS : n.IsSplit S) : ∃! term, term ∈ row ∧
      (term.key.slots : Multiset Nat).map ((complete p o).derivatives[·]?) = S.map some := by
  subst hl
  have split := isSplitting_of_isSplit hS
  obtain ⟨term, ht, hk, -⟩ := h.exists_mem (factorial_pos n.exponent).ne' split
  have parts := map_derivatives_slots (split.fits hn)
  rw [map_tuple_exponent hS] at parts
  refine ⟨term, ⟨ht, hk ▸ parts⟩, ?_⟩
  rintro term' ⟨ht', parts'⟩
  obtain ⟨R, hR, hk'⟩ := h.keys term' ht'
  rw [hk', map_derivatives_slots (hR.fits hn)] at parts'
  have same : R = S.map Orders.exponent := by
    rw [← map_exponent_tuple (hR.fits hn), Multiset.map_injective (Option.some_injective _) parts']
  exact List.inj_on_of_nodup_map h.nodup ht' ht (by rw [hk', hk, same])

theorem isCompositionRow_of_isChainRow {p o : Nat} {n : Orders} (hn : Fits p o n.exponent)
    (hl : n.length = p) {row : List ChainTerm} (h : IsChainRow p o n.exponent row) :
    (complete p o).IsCompositionRow n row := by
  have length : ∀ term ∈ row, term.key.slots.length = term.key.derivative := by
    intro term ht
    obtain ⟨S, -, hk⟩ := h.keys term ht
    rw [hk, length_slots_factors]; rfl
  have increasing : ∀ term ∈ row, term.key.slots.Pairwise (· ≤ ·) := by
    intro term ht
    obtain ⟨S, -, hk⟩ := h.keys term ht
    rw [hk]
    exact Multiset.pairwise_sort _ _
  refine ⟨fun S hS => existsUnique_of_isSplit hn hl h hS, fun term ht => ?_, ?_, increasing,
    length, fun term ht => ?_, fun term ht s hs => ?_⟩
  · obtain ⟨S, hS, hk, hc⟩ := h.coefficient_of_mem ht
    refine ⟨S.map (tuple p), isSplit_map_tuple hn hl hS, ?_, ?_, ?_⟩
    · rw [hk, map_derivatives_slots (hS.fits hn)]
    · rw [hk, Multiset.card_map]; rfl
    · have pos : ((share S : Nat) : ℚ) ≠ 0 := Nat.cast_ne_zero.mpr (share_pos S).ne'
      rw [splitShare_map_tuple (hS.fits hn), eq_div_iff pos, ← factorial_exponent, ← hc,
        Nat.cast_mul]
  · refine (List.pairwise_map.mp h.nodup).imp_of_mem fun {u v} hu hv hne hp => hne ?_
    have slots := hp.eq_of_pairwise' (increasing u hu) (increasing v hv)
    calc u.key = ⟨u.key.slots.length, u.key.slots⟩ := by rw [length u hu]
      _ = ⟨v.key.slots.length, v.key.slots⟩ := by rw [slots]
      _ = v.key := by rw [length v hv]
  · obtain ⟨S, hS, -, hc⟩ := h.coefficient_of_mem ht
    refine Nat.pos_of_ne_zero fun hz => (factorial_pos n.exponent).ne' ?_
    rw [← hc, hz, Nat.zero_mul]
  · obtain ⟨S, hS, hk⟩ := h.keys term ht
    rw [hk, ← Multiset.mem_coe, coe_slots_factors] at hs
    obtain ⟨x, hx, rfl⟩ := Multiset.mem_map.mp hs
    have fits := hS.fits hn x hx
    exact ⟨Nat.pos_of_ne_zero fun hz => hS.zero_notMem ((place_eq_zero_iff fits).mp hz ▸ hx),
      place_lt fits⟩

/-- **The composition table is the chain rule**, in every table that is built: there is one row
for each slot, and it has the terms of the ways to split the orders of the slot into parts. -/
theorem isCompositionRow_of_built {p o : Nat} {t : Tables} (h : Built p o t) :
    t.composition.length = t.size ∧ ∀ (i : Nat) (n : Orders), t.derivatives[i]? = some n →
      ∃ row, t.composition[i]? = some row ∧ t.IsCompositionRow n row := by
  obtain rfl := h.eq_complete
  refine ⟨length_composition p o, fun i n hn => ?_⟩
  obtain ⟨hfit, rfl⟩ := place_of_getElem? hn
  obtain ⟨row, hrow, hr⟩ := isChainRow_composition hfit
  exact ⟨row, hrow, isCompositionRow_of_isChainRow hfit (mem_of_getElem? hn).1 hr⟩

/-- The third derivative: `f'''(g) g'^3 + 3 f''(g) g' g'' + f'(g) g'''`. -/
theorem isCompositionRow_third : Built 1 3 (complete 1 3) ∧
    (complete 1 3).IsCompositionRow [3] [⟨1, 3, [1, 1, 1]⟩, ⟨3, 2, [1, 2]⟩, ⟨1, 1, [3]⟩] := by
  refine ⟨built_complete 1 3, ?_⟩
  obtain ⟨row, hrow, h⟩ := (isCompositionRow_of_built (built_complete 1 3)).2 3 [3] (by decide)
  have there : (complete 1 3).composition[3]? =
      some [⟨1, 3, [1, 1, 1]⟩, ⟨3, 2, [1, 2]⟩, ⟨1, 1, [3]⟩] := by decide
  exact Option.some.inj (hrow.symm.trans there) ▸ h

end Tables

end JetAlgebra
