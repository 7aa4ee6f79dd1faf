import JetAlgebra.Proofs.Locating

/-!
# Slots of one layout in another

`convertSlot?` takes the orders that a slot holds, cuts or pads them to the parameters of another
layout, and walks to the slot that holds them there.  The walk refuses orders with too large a
sum, and says so (`Sizes.locate?_eq_exceeds`); all others it finds (`Sizes.locate?_eq_slotOf`).

Orders are kept by a layout with more parameters and a higher order, so a slot comes back from
there (`resize_resize`), and no two slots become one.  The table of lower slots is built by a
recursion of its own, and yet it lists where the slots of a jet with one order less are converted
to, in increasing order: `Tables.ConvertsTo.lower`.
-/
namespace JetAlgebra
open Orders

/-! ## The walk refuses what is not there -/

namespace Sizes
variable (s : Sizes)

/-- What the walk has left and what it has passed make up the order, so that it stays inside
the sizes until the sum is too large. -/
theorem descend_eq_exceeds {o : Nat} (all : List Int) (ns : List Nat) (total m : Nat)
    (hm : total + m = o) (hs : o < total + ns.sum)
    (hr : ∀ i, i < ns.length → o < (s.getD i []).length) :
    s.descend o all (ns.map Int.ofNat) total m = .error (.exceeds all o) := by
  induction ns generalizing total m with
  | nil => rw [List.sum_nil] at hs; omega
  | cons n ns ih =>
    rw [List.sum_cons] at hs
    rw [List.map_cons, descend]
    by_cases here : o < total + n
    · have exceeds : (o : Int) < (total : Int) + Int.ofNat n := by simp; omega
      rw [if_pos exceeds]
      rfl
    · have allowed : ¬ (o : Int) < (total : Int) + Int.ofNat n := by simp; omega
      have left : (m : Int) - max (Int.ofNat n) 0 = ((m - n : Nat) : Int) := by simp; omega
      have skipped : skippedIn? (s.getD ns.length []) n m = .ok (s.skipped ns.length n m) :=
        skippedIn?_eq_skipped s n m (by omega)
          (Nat.lt_of_le_of_lt (by omega) (hr ns.length (by simp)))
      have below := ih (total + n) (m - n) (by omega) (by omega) fun i hi =>
        hr i (Nat.lt_succ_of_lt hi)
      simp only [if_neg allowed, List.length_map, left]
      refine bind_eq_error_iff.mpr (.inr ⟨_, skipped, bind_eq_error_iff.mpr (.inl ?_)⟩)
      exact_mod_cast below

/-- **The walk refuses orders with too large a sum.** -/
theorem locate?_eq_exceeds {p o : Nat} {n : Orders} (hl : n.length = p) (hs : o < n.sum)
    (hr : ∀ i, i < p → o < (s.getD i []).length) :
    s.locate? p o (n.map Int.ofNat) = .error (.exceeds (n.map Int.ofNat) o) := by
  subst hl
  rw [locate?, if_neg (by simp), List.take_of_length_le (by simp), ← List.map_reverse]
  exact descend_eq_exceeds s _ n.reverse 0 o (Nat.zero_add o) (by simpa using hs)
    (by simpa using hr)

end Sizes

/-! ## Orders for other parameters -/

namespace Orders

theorem length_resize (p : Nat) (n : Orders) : (n.resize p).length = p := by
  rw [resize, List.length_append, List.length_take, List.length_replicate]
  omega

/-- Orders for more parameters are padded. -/
theorem resize_of_le {p : Nat} {n : Orders} (h : n.length ≤ p) :
    n.resize p = n ++ List.replicate (p - n.length) 0 := by
  rw [resize, List.take_of_length_le h]

theorem sum_resize {p : Nat} {n : Orders} (h : n.length ≤ p) : (n.resize p).sum = n.sum := by
  rw [resize_of_le h, List.sum_append, List.sum_replicate, smul_zero, add_zero]

/-- **Padded orders are cut again.** -/
theorem resize_resize {p : Nat} {n : Orders} (h : n.length ≤ p) :
    (n.resize p).resize n.length = n := by
  rw [resize_of_le h, resize, List.take_left, List.length_append, Nat.sub_add_eq, Nat.sub_self,
    Nat.zero_sub, List.replicate_zero, List.append_nil]

end Orders

/-! ## Conversion -/

theorem convertSlot?_eq_locate? {source : List Orders} {i : Nat} {n : Orders}
    (h : source[i]? = some n) (p : Nat) (o : Int) (sizes : Sizes) :
    convertSlot? source i p o sizes = sizes.locate? p o ((n.resize p).map Int.ofNat) := by
  rw [convertSlot?, entryAt?_natCast, h]

namespace Tables
variable {p o q k : Nat}

theorem exists_orders_of_slot {i : Nat} (hi : i < (complete p o).size) :
    ∃ n, (complete p o).derivatives[i]? = some n :=
  ⟨_, List.getElem?_eq_getElem (length_derivatives p o ▸ hi)⟩

theorem lt_length_sizes {i : Nat} (hi : i < p) :
    o < ((complete p o).sizes.getD i []).length := by
  rw [sizes_complete, Sizes.length_binomials_row (Nat.le_of_lt hi)]
  exact Nat.lt_succ_self o

section Convert
variable {i : Nat} {n : Orders} (h : (complete p o).derivatives[i]? = some n)
include h

/-- **A slot goes to the slot of its orders.** -/
theorem convertSlot?_eq_ok (hs : (n.resize q).sum ≤ k) :
    convertSlot? (complete p o).derivatives i q k (complete q k).sizes =
      .ok ((complete q k).slotOf (n.resize q)) := by
  rw [convertSlot?_eq_locate? h, slotOf, order_complete]
  exact Sizes.locate?_eq_slotOf _ (length_resize q n) hs fun i => lt_length_sizes

theorem convertSlot?_eq_exceeds (hs : k < (n.resize q).sum) :
    convertSlot? (complete p o).derivatives i q k (complete q k).sizes =
      .error (.exceeds ((n.resize q).map Int.ofNat) k) := by
  rw [convertSlot?_eq_locate? h]
  exact Sizes.locate?_eq_exceeds _ (length_resize q n) hs fun i => lt_length_sizes

/-- **A layout with more parameters and a higher order has a slot for the orders**, which is
converted back. -/
theorem exists_convertSlot? (hp : p ≤ q) (ho : o ≤ k) : ∃ j,
    convertSlot? (complete p o).derivatives i q k (complete q k).sizes = .ok j ∧
    (complete q k).derivatives[j]? = some (n.resize q) ∧
    convertSlot? (complete q k).derivatives j p o (complete p o).sizes = .ok i := by
  obtain ⟨rfl, sum⟩ := mem_of_getElem? h
  have padded : (n.resize q).sum ≤ k := (sum_resize hp).trans_le (sum.trans ho)
  have there := getElem?_slotOf (length_resize q n) padded
  refine ⟨_, convertSlot?_eq_ok h padded, there, ?_⟩
  rw [convertSlot?_eq_ok there (by rwa [resize_resize hp]), resize_resize hp, slotOf_of_getElem? h]

end Convert

/-! ## The lower slots -/

/-- Larger orders are in later slots. -/
theorem slotOf_lt_slotOf {m n : Orders} (hm : m.length = p) (hms : m.sum ≤ o) (hn : n.length = p)
    (hns : n.sum ≤ o) (h : m.reverse < n.reverse) :
    (complete p o).slotOf m < (complete p o).slotOf n := by
  obtain ⟨hi, atm⟩ := List.getElem?_eq_some_iff.mp (getElem?_slotOf hm hms)
  obtain ⟨hj, atn⟩ := List.getElem?_eq_some_iff.mp (getElem?_slotOf hn hns)
  refine Nat.lt_of_not_le fun le => ?_
  rcases Nat.eq_or_lt_of_le le with same | before
  · obtain rfl := slotOf_injective hn hns hm hms same
    exact List.lt_irrefl _ h
  · have larger := List.pairwise_iff_getElem.mp (pairwise_derivatives_complete p o) _ _ hj hi before
    rw [atm, atn] at larger
    exact List.lt_asymm h larger

theorem pairwise_lower (p o : Nat) : (complete p (o + 1)).lower.Pairwise (· < ·) := by
  rw [lower_complete, List.pairwise_map]
  refine (pairwise_derivatives_complete p o).imp_of_mem fun hm hn h => ?_
  obtain ⟨hm, hms⟩ := mem_derivatives_complete.mp hm
  obtain ⟨hn, hns⟩ := mem_derivatives_complete.mp hn
  exact slotOf_lt_slotOf hm (Nat.le_succ_of_le hms) hn (Nat.le_succ_of_le hns) h

/-- **The lower slots** hold the orders with a smaller sum. -/
theorem mem_lower_iff {j : Nat} : j ∈ (complete p (o + 1)).lower ↔
    ∃ n, (complete p (o + 1)).derivatives[j]? = some n ∧ n.sum ≤ o := by
  rw [lower_complete, List.mem_map]
  constructor
  · rintro ⟨n, hn, rfl⟩
    obtain ⟨hl, hs⟩ := mem_derivatives_complete.mp hn
    exact ⟨n, getElem?_slotOf hl (Nat.le_succ_of_le hs), hs⟩
  · rintro ⟨n, hn, hs⟩
    exact ⟨n, mem_derivatives_complete.mpr ⟨(mem_of_getElem? hn).1, hs⟩, slotOf_of_getElem? hn⟩

/-- A slot of the jet with one order less is converted to its lower slot. -/
theorem exists_lower {i : Nat} (hi : i < (complete p o).size) : ∃ j,
    (complete p (o + 1)).lower[i]? = some j ∧
    convertSlot? (complete p o).derivatives i p (o + 1 : Nat) (complete p (o + 1)).sizes =
      .ok j := by
  obtain ⟨n, hn⟩ := exists_orders_of_slot hi
  obtain ⟨hl, hs⟩ := mem_of_getElem? hn
  have same : n.resize p = n := by
    rw [resize_of_le hl.le, hl, Nat.sub_self, List.replicate_zero, List.append_nil]
  refine ⟨(complete p (o + 1)).slotOf n, ?_, ?_⟩
  · rw [lower_complete, List.getElem?_map, hn, Option.map_some]
  · rw [convertSlot?_eq_ok hn (by rw [same]; exact Nat.le_succ_of_le hs), same]

/-! ## What callers may rely on -/

/-- **Conversion keeps orders**, between the layouts of two signatures. -/
structure ConvertsTo (source target : Tables) : Prop where
  /-- Orders that are there are found, in the only slot that holds them. -/
  found : ∀ (i : Nat) (n : Orders), source.derivatives[i]? = some n →
    (n.resize target.parameters).sum ≤ target.order → ∃ j < target.size,
      convertSlot? source.derivatives i target.parameters target.order target.sizes = .ok j ∧
      ∀ l, target.derivatives[l]? = some (n.resize target.parameters) ↔ l = j
  /-- All others are refused for their sum. -/
  refused : ∀ (i : Nat) (n : Orders), source.derivatives[i]? = some n →
    target.order < (n.resize target.parameters).sum →
      convertSlot? source.derivatives i target.parameters target.order target.sizes =
        .error (.exceeds ((n.resize target.parameters).map Int.ofNat) target.order)
  /-- With no fewer parameters and no lower order, slots do not become one ... -/
  injective : source.parameters ≤ target.parameters → source.order ≤ target.order →
    ∀ i < source.size, ∀ l < source.size,
      convertSlot? source.derivatives i target.parameters target.order target.sizes =
        convertSlot? source.derivatives l target.parameters target.order target.sizes → i = l
  /-- ... and come back. -/
  inverse : source.parameters ≤ target.parameters → source.order ≤ target.order →
    ∀ i < source.size, ∃ j,
      convertSlot? source.derivatives i target.parameters target.order target.sizes = .ok j ∧
      convertSlot? target.derivatives j source.parameters source.order source.sizes = .ok i
  /-- With one order more, the lower slots are those that the slots are converted to. -/
  lower : target.parameters = source.parameters → target.order = source.order + 1 →
    target.lower.length = target.sizes.count target.parameters source.order ∧
    (∀ i < target.lower.length, ∃ j, target.lower[i]? = some j ∧
      convertSlot? source.derivatives i target.parameters target.order target.sizes = .ok j) ∧
    target.lower.Pairwise (· < ·) ∧
    ∀ j, j ∈ target.lower ↔ ∃ n, target.derivatives[j]? = some n ∧ n.sum ≤ source.order

theorem length_lower (p o : Nat) : (complete p (o + 1)).lower.length = (complete p o).size := by
  rw [lower_complete, List.length_map, length_derivatives]

/-- **Conversion keeps orders** between any two signatures. -/
theorem convertsTo_of_built {source target : Tables} (hs : Built p o source)
    (ht : Built q k target) : source.ConvertsTo target := by
  obtain rfl := hs.eq_complete
  obtain rfl := ht.eq_complete
  constructor <;> simp only [parameters_complete, order_complete]
  case found =>
    intro i n h sum
    have length := length_resize q n
    exact ⟨_, slotOf_lt length sum, convertSlot?_eq_ok h sum, fun l =>
      ⟨fun hl => (slotOf_of_getElem? hl).symm, fun hl => hl ▸ getElem?_slotOf length sum⟩⟩
  case refused =>
    intro i n h sum
    exact convertSlot?_eq_exceeds h sum
  case injective =>
    intro hp ho i hi l hl same
    obtain ⟨n, hn⟩ := exists_orders_of_slot hi
    obtain ⟨m, hm⟩ := exists_orders_of_slot hl
    obtain ⟨j, found, -, back⟩ := exists_convertSlot? hn hp ho
    obtain ⟨j', found', -, back'⟩ := exists_convertSlot? hm hp ho
    obtain rfl := Except.ok.inj (found.symm.trans (same.trans found'))
    exact Except.ok.inj (back.symm.trans back')
  case inverse =>
    intro hp ho i hi
    obtain ⟨n, hn⟩ := exists_orders_of_slot hi
    obtain ⟨j, found, -, back⟩ := exists_convertSlot? hn hp ho
    exact ⟨j, found, back⟩
  case lower =>
    rintro rfl rfl
    refine ⟨?_, fun i hi => exists_lower (length_lower q o ▸ hi), pairwise_lower q o,
      fun j => mem_lower_iff⟩
    rw [length_lower, sizes_complete, Sizes.count_binomials (Nat.le_refl q) (Nat.le_succ o),
      size_complete]

/-- From order one to order two, and to a layout with a parameter less. -/
theorem convertsTo_two_two : Built 2 1 (complete 2 1) ∧ Built 2 2 (complete 2 2) ∧
    Built 1 1 (complete 1 1) ∧ (complete 2 1).ConvertsTo (complete 2 2) ∧
    (complete 2 2).ConvertsTo (complete 1 1) :=
  ⟨built_complete 2 1, built_complete 2 2, built_complete 1 1,
    convertsTo_of_built (built_complete 2 1) (built_complete 2 2),
    convertsTo_of_built (built_complete 2 2) (built_complete 1 1)⟩

end Tables

end JetAlgebra
