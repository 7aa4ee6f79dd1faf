import JetAlgebra.Proofs.ChainRule
import JetAlgebra.Proofs.LeibnizRule
import JetAlgebra.Proofs.RowSums

/-!
# The operations on exact jets, read off the tables

`Tables.mulExact` and `Tables.composeExact` sum the rows of the two rule tables over a field.
`mul_complete` and `compose_complete` say that this is what `Jet.mul` and `Jet.compose` compute
from the flattened tables, and that they never fail on jets of the right size: no row of a
complete table is empty, and every entry of it is a place in a jet.
-/
namespace JetAlgebra
open Tables Exponent

variable {K : Type} [Field K]

theorem ProductTerm.term_entry (a b : List K) (t : ProductTerm) :
    ProductEntry.term a b t.entry =
      t.coefficient * (a.getD t.key.left 0 * b.getD t.key.right 0) := by
  rw [ProductEntry.term, mul_assoc, entry, entryAt_natCast, entryAt_natCast]
  exact congrArg (· * _) (Int.cast_natCast t.coefficient)

theorem ChainTerm.term_entry (f g : List K) (t : ChainTerm) :
    CompositionEntry.term f g t.entry =
      t.coefficient * (f.getD t.key.derivative 0 * (t.key.slots.map (g.getD · 0)).prod) := by
  have slots : entryAt g ∘ Int.ofNat = (g.getD · 0) := funext (entryAt_natCast g)
  rw [CompositionEntry.term, mul_assoc, ChainTerm.entry, entryAt_natCast, List.map_map, slots]
  exact congrArg (· * _) (Int.cast_natCast t.coefficient)

namespace Tables

/-- The product of two jets over a field. -/
def mulExact (t : Tables) (a b : List K) : List K :=
  t.product.map fun row => (row.map fun term => (term.coefficient : K) *
    (a.getD term.key.left 0 * b.getD term.key.right 0)).sum

/-- The composition of a function with a jet over a field. -/
def composeExact (t : Tables) (g f : List K) : List K :=
  t.composition.map fun row => (row.map fun term => (term.coefficient : K) *
    (f.getD term.key.derivative 0 * (term.key.slots.map (g.getD · 0)).prod)).sum

theorem length_mulExact (p o : Nat) (a b : List K) :
    ((complete p o).mulExact a b).length = (complete p o).size := by
  rw [mulExact, List.length_map, length_product]

theorem length_composeExact (p o : Nat) (g f : List K) :
    ((complete p o).composeExact g f).length = (complete p o).size := by
  rw [composeExact, List.length_map, length_composition]

/-! ## Rows of the complete tables -/

/-- Every slot of a product has the term of its own derivative. -/
theorem ne_nil_of_mem_product (p o : Nat) : ∀ row ∈ (complete p o).product, row ≠ [] := by
  intro row h
  obtain ⟨n, -, hr⟩ := isLeibnizRow_of_mem h
  obtain ⟨t, ht, -⟩ := hr.exists_mem (factorial_pos n).ne' (x := (0, n)) (zero_add n)
  exact List.ne_nil_of_mem ht

theorem slots_lt_of_mem_product {p o : Nat} {row : List ProductTerm}
    (h : row ∈ (complete p o).product) {t : ProductTerm} (ht : t ∈ row) :
    t.key.left < (complete p o).size ∧ t.key.right < (complete p o).size := by
  obtain ⟨n, hn, hr⟩ := isLeibnizRow_of_mem h
  exact hr.slots_lt hn ht

theorem ne_nil_of_mem_composition (p o : Nat) :
    ∀ row ∈ (complete p o).composition, row ≠ [] := by
  intro row h
  obtain ⟨n, -, hr⟩ := isChainRow_of_mem h
  obtain ⟨S, hS⟩ := Splitting.exists_isSplitting n
  obtain ⟨t, ht, -⟩ := hr.exists_mem (factorial_pos n).ne' hS
  exact List.ne_nil_of_mem ht

theorem factors_lt_of_mem_composition {p o : Nat} {row : List ChainTerm}
    (h : row ∈ (complete p o).composition) {t : ChainTerm} (ht : t ∈ row) :
    t.key.derivative ≤ o ∧ ∀ s ∈ t.key.slots, s < (complete p o).size := by
  obtain ⟨n, hn, hr⟩ := isChainRow_of_mem h
  obtain ⟨S, hS, hk⟩ := hr.keys t ht
  rw [hk]
  refine ⟨Nat.le_trans (Splitting.card_le_degree hS) hn.order, fun s hs => ?_⟩
  rw [← Multiset.mem_coe, Splitting.coe_slots_factors] at hs
  obtain ⟨x, hx, rfl⟩ := Multiset.mem_map.mp hs
  exact place_lt (hS.fits hn x hx)

section Entries
variable {p o : Nat}

theorem productEntries_ne_nil (p o : Nat) : (complete p o).productEntries ≠ [] := by
  rw [productEntries, ← List.length_pos_iff, List.length_map, length_product]
  exact size_pos p o

theorem chainEntries_ne_nil (p o : Nat) : (complete p o).chainEntries ≠ [] := by
  rw [chainEntries, ← List.length_pos_iff, List.length_map, length_composition]
  exact size_pos p o

theorem ne_nil_of_mem_productEntries (p o : Nat) :
    ∀ row ∈ (complete p o).productEntries, row ≠ [] :=
  ne_nil_of_mem_map (ne_nil_of_mem_product p o)

theorem ne_nil_of_mem_chainEntries (p o : Nat) :
    ∀ row ∈ (complete p o).chainEntries, row ≠ [] :=
  ne_nil_of_mem_map (ne_nil_of_mem_composition p o)

/-- Every factor of a product is a slot. -/
theorem slots_of_mem_productEntries {e : ProductEntry}
    (he : e ∈ (complete p o).productEntries.flatten) :
    IsPosition (complete p o).size e.left ∧ IsPosition (complete p o).size e.right := by
  obtain ⟨row, hrow, t, ht, rfl⟩ := mem_flatten_map.mp he
  obtain ⟨left, right⟩ := slots_lt_of_mem_product hrow ht
  exact ⟨isPosition_natCast.mpr left, isPosition_natCast.mpr right⟩

/-- A composition needs no derivatives beyond the order. -/
theorem derivative_of_mem_chainEntries {e : CompositionEntry}
    (he : e ∈ (complete p o).chainEntries.flatten) :
    0 ≤ e.derivative ∧ e.derivative ≤ o := by
  obtain ⟨row, hrow, t, ht, rfl⟩ := mem_flatten_map.mp he
  exact ⟨Int.natCast_nonneg _, Int.ofNat_le.mpr (factors_lt_of_mem_composition hrow ht).1⟩

theorem slots_of_mem_chainEntries {e : CompositionEntry}
    (he : e ∈ (complete p o).chainEntries.flatten) :
    ∀ i ∈ e.slots, 0 ≤ i ∧ i < (complete p o).size := by
  obtain ⟨row, hrow, t, ht, rfl⟩ := mem_flatten_map.mp he
  intro i hi
  obtain ⟨s, hs, rfl⟩ := List.mem_map.mp hi
  exact ⟨Int.natCast_nonneg s, Int.ofNat_lt.mpr ((factors_lt_of_mem_composition hrow ht).2 s hs)⟩

theorem derivatives_le_order :
    ∀ d ∈ (complete p o).calculus.composition.derivatives, 0 ≤ d ∧ d ≤ o := by
  intro d hd
  obtain ⟨e, he, rfl⟩ := List.mem_map.mp hd
  exact derivative_of_mem_chainEntries he

end Entries

end Tables

section Exact
variable {E : Type} [Arithmetic E] {lift : K → E} (exact : IsExact lift) {p o : Nat}
include exact

/-- **Products are computed from the flattened table.** -/
theorem IsExact.mul_complete {a b : List K} (ha : a.length = (complete p o).size)
    (hb : b.length = (complete p o).size) :
    Jet.mul (complete p o).calculus (a.map lift) (b.map lift) =
      .ok (((complete p o).mulExact a b).map lift) := by
  have kernel : (complete p o).calculus.product = .ofRows (complete p o).productEntries := rfl
  refine (exact.mul_eq_ok kernel (productEntries_ne_nil p o) (ne_nil_of_mem_productEntries p o)
    (fun e he => ha ▸ (slots_of_mem_productEntries he).1)
    fun e he => hb ▸ (slots_of_mem_productEntries he).2).trans (congrArg Except.ok ?_)
  rw [mulExact, productEntries, List.map_map, List.map_map]
  refine List.map_congr_left fun r _ => ?_
  rw [Function.comp_apply, Function.comp_apply, List.map_map]
  exact congrArg (fun xs => lift (List.sum xs))
    (List.map_congr_left fun t _ => ProductTerm.term_entry a b t)

/-- **Compositions are computed from the flattened table.** -/
theorem IsExact.compose_complete {g f : List K} (hg : g.length = (complete p o).size)
    (hf : o < f.length) :
    Jet.compose (complete p o).calculus .faithful (g.map lift) (f.map lift) =
      .ok (((complete p o).composeExact g f).map lift) := by
  have kernel : (complete p o).calculus.composition =
      .ofRows (complete p o).chainEntries g.length := by
    rw [hg]; rfl
  have derivatives : ∀ e ∈ (complete p o).chainEntries.flatten,
      IsPosition f.length e.derivative := by
    intro e he
    have bounds := derivative_of_mem_chainEntries he
    exact isPosition_of_nonneg (by omega)
  refine (exact.compose_eq_ok kernel (chainEntries_ne_nil p o)
    (ne_nil_of_mem_chainEntries p o) derivatives
    (fun e he => hg ▸ slots_of_mem_chainEntries he)
    (hg ▸ size_pos p o)).trans (congrArg Except.ok ?_)
  rw [composeExact, chainEntries, List.map_map, List.map_map]
  refine List.map_congr_left fun r _ => ?_
  rw [Function.comp_apply, Function.comp_apply, List.map_map]
  exact congrArg (fun xs => lift (List.sum xs))
    (List.map_congr_left fun t _ => ChainTerm.term_entry f g t)

end Exact

end JetAlgebra
