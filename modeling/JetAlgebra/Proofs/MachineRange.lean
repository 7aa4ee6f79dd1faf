import JetAlgebra.Proofs.TableLimits
import JetAlgebra.Proofs.KernelRows

/-!
# Kernels fit machine integers

Table construction looks at the number of slots and at the coefficients of the composition, and
never at those of the product.  It does not have to: every coefficient of the Leibniz rule that
is larger than `2` is at most some coefficient of the chain rule (`largest_product_le`).

For a pair `l + r = n` of different parts that is the coefficient of the splitting `{l, r}`,
which is the same number.  If `l = r`, that splitting has only half of it, because its parts
are equal.  Then one derivative is taken out of one half: the splitting `{l, l', e}` with
`l = l' + e` has parts enough to make up for it (`share_halves_le`), unless the half is a single
derivative, and that is where the `2` comes from.
-/
namespace JetAlgebra
open Exponent Splitting

namespace Splitting
variable {l r n : Exponent}

theorem share_singleton (s : Exponent) : share {s} = factorial s := by
  rw [← Multiset.cons_zero, share_cons, Multiset.count_zero, share_zero, Nat.zero_add, Nat.mul_one,
    Nat.mul_one]

/-- Different parts share what a pair of factors shares. -/
theorem share_pair (h : l ≠ r) : share {l, r} = factorial l * factorial r := by
  have new : Multiset.count l {r} = 0 := Multiset.count_eq_zero.mpr fun hm =>
    h (Multiset.mem_singleton.mp hm)
  rw [Multiset.insert_eq_cons, share_cons, new, share_singleton, Nat.zero_add, Nat.mul_one]

theorem isSplitting_pair (hl : l ≠ 0) (hr : r ≠ 0) : IsSplitting (l + r) {l, r} where
  zero_notMem h := by
    rw [Multiset.insert_eq_cons, Multiset.mem_cons, Multiset.mem_singleton] at h
    rcases h with h | h
    · exact hl h.symm
    · exact hr h.symm
  sum_eq := by rw [Multiset.insert_eq_cons, Multiset.sum_cons, Multiset.sum_singleton]

/-- An exponent and the rest of itself after a derivative along `j` is taken out. -/
theorem isSplitting_halves {j : Nat} (hl : l ≠ 0) :
    IsSplitting (l + unit j + (l + unit j)) {l + unit j, l, unit j} where
  zero_notMem h := by
    rw [Multiset.insert_eq_cons, Multiset.insert_eq_cons, Multiset.mem_cons, Multiset.mem_cons,
      Multiset.mem_singleton] at h
    rcases h with h | h | h
    · exact hl (add_eq_zero.mp h.symm).1
    · exact hl h.symm
    · exact unit_ne_zero j h.symm
  sum_eq := by
    rw [Multiset.insert_eq_cons, Multiset.insert_eq_cons, Multiset.sum_cons, Multiset.sum_cons,
      Multiset.sum_singleton]

/-- **Taking a derivative out of one half** loses nothing. -/
theorem share_halves_le {j : Nat} (hl : l ≠ 0) :
    share {l + unit j, l, unit j} ≤ factorial (l + unit j) * factorial (l + unit j) := by
  -- The larger half is no other part, and the smaller one is another part only if it is `e`.
  have larger : Multiset.count (l + unit j) {l, unit j} = 0 := by
    rw [Multiset.count_eq_zero, Multiset.insert_eq_cons, Multiset.mem_cons,
      Multiset.mem_singleton, not_or]
    exact ⟨fun h => unit_ne_zero j (add_eq_left.mp h), fun h => hl (add_eq_right.mp h)⟩
  have smaller : Multiset.count l {unit j} ≤ l j := by
    by_cases he : l = unit j
    · rw [he, Multiset.count_singleton_self, unit_self]
    · rw [Multiset.count_eq_zero.mpr fun h => he (Multiset.mem_singleton.mp h)]
      exact Nat.zero_le _
  calc share {l + unit j, l, unit j}
      = factorial (l + unit j) * (factorial l * (Multiset.count l {unit j} + 1)) := by
        rw [Multiset.insert_eq_cons, share_cons, larger, Multiset.insert_eq_cons, share_cons,
          share_singleton, factorial_unit]
        ring
    _ ≤ factorial (l + unit j) * (factorial l * (l j + 1)) := by gcongr
    _ = factorial (l + unit j) * factorial (l + unit j) := by rw [← factorial_add_unit]

/-- **Every pair of factors has a splitting that shares no more**, unless the coefficient of the
pair is at most `2`. -/
theorem exists_share_le {c : Nat} (hx : l + r = n)
    (hc : c * (factorial l * factorial r) = factorial n) :
    c ≤ 2 ∨ ∃ S, IsSplitting n S ∧ share S ≤ factorial l * factorial r := by
  subst hx
  have one : ∀ s, c * factorial s = factorial s → c ≤ 2 := fun s h =>
    (Nat.eq_of_mul_eq_mul_right (factorial_pos s) (h.trans (Nat.one_mul _).symm)).trans_le
      (Nat.le_succ 1)
  rcases eq_or_ne l 0 with rfl | hl
  · rw [factorial_zero, Nat.one_mul, zero_add] at hc
    exact Or.inl (one r hc)
  rcases eq_or_ne r 0 with rfl | hr
  · rw [factorial_zero, Nat.mul_one, add_zero] at hc
    exact Or.inl (one l hc)
  rcases ne_or_eq l r with hne | rfl
  · exact Or.inr ⟨{l, r}, isSplitting_pair hl hr, (share_pair hne).le⟩
  obtain ⟨j, hj⟩ := Finsupp.ne_iff.mp hl
  obtain ⟨l, rfl⟩ := exists_add_unit (Nat.pos_of_ne_zero hj)
  rcases eq_or_ne l 0 with rfl | hl
  · -- Both factors are the first derivative along `j`.
    rw [zero_add, factorial_add_unit, factorial_unit, unit_self] at hc
    exact Or.inl (by omega)
  · exact Or.inr ⟨_, isSplitting_halves hl, share_halves_le hl⟩

end Splitting

namespace Tables
variable {p o : Nat}

/-- **The largest coefficient of a product** is at most `2` or the largest of a composition. -/
theorem largest_product_le (p o : Nat) : Weighted.largest (complete p o).product ≤
    max 2 (Weighted.largest (complete p o).composition) := by
  refine Weighted.largest_le_iff.mpr fun row hrow t ht => ?_
  obtain ⟨n, hn, hr⟩ := isLeibnizRow_of_mem hrow
  obtain ⟨x, hx, -, hc⟩ := hr.coefficient_of_mem ht
  rcases exists_share_le hx hc with h | ⟨S, hS, hle⟩
  · exact h.trans (le_max_left _ _)
  · obtain ⟨row', hrow', hr'⟩ := isChainRow_composition hn
    obtain ⟨t', ht', -, hc'⟩ := hr'.exists_mem (factorial_pos n).ne' hS
    have bounded : t'.coefficient ≤ Weighted.largest (complete p o).composition :=
      Weighted.largest_le_iff.mp le_rfl row' (List.mem_of_getElem? hrow') t' ht'
    -- The product of coefficient and share is `n!` in both rows.
    have larger : t.coefficient * share S ≤ t'.coefficient * share S := by
      rw [hc', ← hc]
      exact Nat.mul_le_mul_left _ hle
    exact (Nat.le_of_mul_le_mul_right larger (share_pos S)).trans
      (bounded.trans (le_max_right _ _))

theorem derivative_lt_size {row : List ChainTerm} (hrow : row ∈ (complete p o).composition)
    {t : ChainTerm} (ht : t ∈ row) : t.key.derivative < (complete p o).size := by
  obtain ⟨n, hn, hr⟩ := isChainRow_of_mem hrow
  obtain ⟨S, hS, hk⟩ := hr.keys t ht
  rw [hk]
  show S.card < _
  have card := card_le_degree hS
  rcases Nat.eq_zero_or_pos p with rfl | hp
  · -- Without parameters there are no derivatives.
    obtain rfl := hn.eq_zero_of_point
    rw [isSplitting_zero.mp hS, Multiset.card_zero]
    exact size_pos 0 o
  · have single : (complete 1 o).size = o + 1 := by
      rw [size_complete, Nat.add_comm, Nat.choose_succ_self_right]
    have larger : (complete 1 o).size ≤ (complete p o).size := size_mono hp le_rfl
    have := hn.order
    omega

end Tables

/-! ## Terms as lists -/

/-- A term of a product as a list of integers. -/
def ProductTerm.toInts (t : ProductTerm) : List Int := [t.coefficient, t.key.left, t.key.right]

/-- A term of a composition as a list of integers. -/
def ChainTerm.toInts (t : ChainTerm) : List Int :=
  t.coefficient :: t.key.derivative :: t.key.slots.map Int.ofNat

theorem ProductTerm.forall_toInts {P : Int → Prop} {t : ProductTerm} :
    (∀ n ∈ t.toInts, P n) ↔ P t.coefficient ∧ P t.key.left ∧ P t.key.right := by
  rw [toInts, List.forall_mem_cons, List.forall_mem_cons, List.forall_mem_singleton]

theorem ChainTerm.forall_toInts {P : Int → Prop} {t : ChainTerm} :
    (∀ n ∈ t.toInts, P n) ↔ P t.coefficient ∧ P t.key.derivative ∧ ∀ s ∈ t.key.slots, P s := by
  rw [toInts, List.forall_mem_cons, List.forall_mem_cons, List.forall_mem_map]
  exact Iff.rfl

/-- Indices and coefficients that are not negative and that kernels accept. -/
def IsMachineIndex (n : Int) : Prop := 0 ≤ n ∧ n ≤ Tables.machineIndexMax

theorem isMachineIndex_of_le {m n : Nat} (h : m ≤ n) (hn : (n : Int) ≤ Tables.machineIndexMax) :
    IsMachineIndex m :=
  ⟨Int.natCast_nonneg m, (Int.ofNat_le.mpr h).trans hn⟩

theorem IsMachineIndex.fits {n : Int} (h : IsMachineIndex n) : fitsMachineIndex n = true := by
  obtain ⟨low, high⟩ := h
  rw [fitsMachineIndex, Bool.and_eq_true, decide_eq_true_eq, decide_eq_true_eq]
  refine ⟨?_, high⟩
  have : (0 : Int) ≤ Tables.machineIndexMax := low.trans high
  omega

namespace ProductKernel

/-- **Rows of a product with machine integers are laid end to end** as they are. -/
theorem ofLists?_eq_ok {rows : List (List ProductTerm)}
    (h : ∀ row ∈ rows, ∀ t ∈ row, ∀ n ∈ t.toInts, IsMachineIndex n) :
    ofLists? (rows.map (List.map ProductTerm.toInts)) = .ok (ofTable rows) := by
  have entries : (rows.map (List.map ProductTerm.entry)).map (List.map ProductEntry.toInts) =
      rows.map (List.map ProductTerm.toInts) := by
    rw [List.map_map]
    exact List.map_congr_left fun row _ => List.map_map
  rw [← entries]
  refine ofLists?_map_toInts fun e he => ?_
  obtain ⟨row, hrow, t, ht, rfl⟩ := mem_flatten_map.mp he
  exact fun n hn => (h row hrow t ht n hn).fits

end ProductKernel

namespace CompositionKernel

/-- **Rows of a composition with machine integers are laid end to end** as they are, and padded. -/
theorem ofLists?_eq_ok {rows : List (List ChainTerm)} {size : Nat} (hn : rows.flatten ≠ [])
    (h : ∀ row ∈ rows, ∀ t ∈ row, ∀ n ∈ t.toInts, IsMachineIndex n) (hs : IsMachineIndex size) :
    ofLists? (rows.map (List.map ChainTerm.toInts)) size = .ok (ofTable rows size) := by
  have entries : (rows.map (List.map ChainTerm.entry)).map (List.map CompositionEntry.toInts) =
      rows.map (List.map ChainTerm.toInts) := by
    rw [List.map_map]
    exact List.map_congr_left fun row _ => List.map_map
  rw [← entries]
  refine ofLists?_map_toInts ?_ (fun e he => ?_) hs.fits
  · rw [← List.map_flatten, ne_eq, List.map_eq_nil_iff]
    exact hn
  · obtain ⟨row, hrow, t, ht, rfl⟩ := mem_flatten_map.mp he
    exact fun n hn => (h row hrow t ht n hn).fits

end CompositionKernel

namespace Tables

/-- **What the kernels of tables may rely on.**  No check during construction looks at the
coefficients of the product, and none looks at a single slot. -/
structure FitsMachine (t : Tables) : Prop where
  /-- The coefficients that are not looked at are bounded by those that are. -/
  largest : Weighted.largest t.product ≤ max 2 (Weighted.largest t.composition)
  /-- Coefficients and slots of a product. -/
  product : ∀ row ∈ t.product, ∀ term ∈ row, ∀ n ∈ term.toInts, IsMachineIndex n
  /-- Coefficients, derivatives and slots of a composition. -/
  composition : ∀ row ∈ t.composition, ∀ term ∈ row, ∀ n ∈ term.toInts, IsMachineIndex n
  /-- The place of the unit that pads the slots. -/
  padding : IsMachineIndex t.compositionKernel.padding
  /-- The padded slots. -/
  slots : ∀ slots ∈ t.compositionKernel.slots, ∀ s ∈ slots, IsMachineIndex s
  /-- No entry is refused when the product table is flattened. -/
  productKernel : ProductKernel.ofLists? (t.product.map (List.map ProductTerm.toInts)) =
    .ok t.productKernel
  /-- No entry is refused when the composition table is flattened. -/
  compositionKernel : CompositionKernel.ofLists? (t.composition.map (List.map ChainTerm.toInts))
    t.size = .ok t.compositionKernel

section Within
variable {p o : Nat} {limits : BuildLimits} (hm : limits.indexMax = machineIndexMax)
  (hw : (complete p o).Within limits)
include hm hw

theorem size_le_machine : ((complete p o).size : Int) ≤ machineIndexMax :=
  hm ▸ (within_complete_iff.mp hw).1

theorem largest_le_machine :
    ((max 2 (Weighted.largest (complete p o).composition) : Nat) : Int) ≤ machineIndexMax := by
  have largest := hm ▸ hw.coefficients
  have two : (2 : Int) ≤ machineIndexMax := by decide
  omega

theorem isMachineIndex_product : ∀ row ∈ (complete p o).product, ∀ t ∈ row, ∀ n ∈ t.toInts,
    IsMachineIndex n := by
  intro row hrow t ht
  obtain ⟨left, right⟩ := slots_lt_of_mem_product hrow ht
  have coefficient := Weighted.largest_le_iff.mp (largest_product_le p o) row hrow t ht
  have size := size_le_machine hm hw
  exact ProductTerm.forall_toInts.mpr
    ⟨isMachineIndex_of_le coefficient (largest_le_machine hm hw),
      isMachineIndex_of_le left.le size, isMachineIndex_of_le right.le size⟩

theorem isMachineIndex_composition : ∀ row ∈ (complete p o).composition, ∀ t ∈ row,
    ∀ n ∈ t.toInts, IsMachineIndex n := by
  intro row hrow t ht
  have coefficient := Weighted.largest_le_iff.mp le_rfl row hrow t ht
  have slots := (factors_lt_of_mem_composition hrow ht).2
  have size := size_le_machine hm hw
  exact ChainTerm.forall_toInts.mpr
    ⟨isMachineIndex_of_le coefficient (hm ▸ hw.coefficients),
      isMachineIndex_of_le (derivative_lt_size hrow ht).le size,
      fun s hs => isMachineIndex_of_le (slots s hs).le size⟩

/-- Slots stay in range when they are padded. -/
theorem isMachineIndex_slots : ∀ slots ∈ (complete p o).compositionKernel.slots, ∀ s ∈ slots,
    IsMachineIndex s := by
  intro slots hslots s hs
  obtain ⟨unpadded, hu, rfl⟩ := List.mem_map.mp hslots
  obtain ⟨e, he, rfl⟩ := List.mem_map.mp hu
  obtain ⟨row, hrow, t, ht, rfl⟩ := mem_flatten_map.mp he
  rcases CompositionKernel.mem_pad hs with hs | rfl
  · obtain ⟨i, hi, rfl⟩ := List.mem_map.mp hs
    exact (ChainTerm.forall_toInts.mp (isMachineIndex_composition hm hw row hrow t ht)).2.2 i hi
  · exact isMachineIndex_of_le le_rfl (size_le_machine hm hw)

end Within

theorem flatten_composition_ne_nil (p o : Nat) : (complete p o).composition.flatten ≠ [] := by
  have rows : 0 < (complete p o).composition.length :=
    length_composition p o ▸ size_pos p o
  obtain ⟨row, hrow⟩ := List.exists_mem_of_length_pos rows
  exact fun h => ne_nil_of_mem_composition p o row hrow (List.flatten_eq_nil_iff.mp h row hrow)

/-- **No entry of a kernel leaves the machine integers** if the tables were built with that
limit, although the coefficients of the product were never looked at. -/
theorem fitsMachine_of_built {limits : BuildLimits} {p o : Nat} {value derivative t : Tables}
    (hm : limits.indexMax = machineIndexMax) (hv : p ≠ 0 → Built (p - 1) o value)
    (hd : o ≠ 0 → Built p (o - 1) derivative) (h : build? limits p o value derivative = .ok t) :
    t.FitsMachine := by
  rw [build?_congr (fun hp => (hv hp).eq_complete) fun ho => (hd ho).eq_complete] at h
  obtain ⟨rfl, hw⟩ := build?_complete_eq_ok_iff.mp h
  have product := isMachineIndex_product hm hw
  have composition := isMachineIndex_composition hm hw
  have padding : IsMachineIndex (complete p o).size :=
    isMachineIndex_of_le le_rfl (size_le_machine hm hw)
  exact {
    largest := largest_product_le p o
    product := product
    composition := composition
    padding := padding
    slots := isMachineIndex_slots hm hw
    productKernel := ProductKernel.ofLists?_eq_ok product
    compositionKernel := CompositionKernel.ofLists?_eq_ok (flatten_composition_ne_nil p o)
      composition padding }

/-- The tables of two parameters up to order two, whose product has the coefficient `2`. -/
theorem fitsMachine_two_two :
    build? ⟨machineIndexMax, 100⟩ 2 2 (complete 1 2) (complete 2 1) = .ok (complete 2 2) ∧
      (complete 2 2).FitsMachine :=
  have h : build? ⟨machineIndexMax, 100⟩ 2 2 (complete 1 2) (complete 2 1) = .ok (complete 2 2) :=
    by decide
  ⟨h, fitsMachine_of_built rfl (fun _ => built_complete 1 2) (fun _ => built_complete 2 1) h⟩

end Tables

end JetAlgebra
