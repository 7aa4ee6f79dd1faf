import Mathlib
import JetAlgebra.Tables

/-!
# The layout of the complete tables

`Tables.complete` is a double recursion: a signature is built from the one with a
parameter less and the one with an order less.  This module reads the layout off that
recursion, once and in closed form:

* `Tables.sizes_complete`: the sizes are binomial coefficients;
* `Tables.mem_derivatives_complete`, `Tables.pairwise_derivatives_complete`: the slots hold
  all orders with a bounded sum, in increasing order with the last parameter first;
* `Tables.getElem?_slotOf`, `Tables.slotOf_of_getElem?`: the walk `Sizes.slotOf` and the list
  of orders are inverse to each other;
* `Tables.lower_complete`: the slots of the `(p, o - 1)` jet are where their orders are.

`Tables.grid_induction` is the recursion as an induction principle.  The two rule tables are
read off it as well.
-/
namespace JetAlgebra

namespace Sizes

/-- The sizes for `p` parameters and the orders up to `o`. -/
def binomialRow (p o : Nat) : List Nat := (List.range (o + 1)).map fun j => (p + j).choose j

/-- The sizes as they should be: a `(p, o)` jet has `p + o` over `o` slots. -/
def binomials (p o : Nat) : Sizes := (List.range (p + 1)).map (binomialRow · o)

theorem runningSums_choose (p o k : Nat) :
    runningSums ((p + 1 + k).choose k) ((List.range' (k + 1) o).map fun j => (p + j).choose j) =
      (List.range' k (o + 1)).map fun j => (p + 1 + j).choose j := by
  induction o generalizing k with
  | zero => simp [runningSums]
  | succ o ih =>
    have pascal : (p + 1 + k).choose k + (p + (k + 1)).choose (k + 1) =
        (p + 1 + (k + 1)).choose (k + 1) := by
      rw [show p + 1 + (k + 1) = (p + 1 + k) + 1 from by omega, Nat.choose_succ_succ,
        show p + (k + 1) = p + 1 + k from by omega]
    rw [List.range'_succ, List.map_cons, runningSums, pascal, ih (k + 1),
      List.range'_succ (s := k), List.map_cons]

theorem nextRow_binomialRow (p o : Nat) : nextRow (binomialRow p o) = binomialRow (p + 1) o := by
  have h := runningSums_choose p o 0
  rw [Nat.choose_zero_right] at h
  rw [nextRow, binomialRow, List.range_eq_range', List.range'_succ, List.map_cons, List.tail_cons,
    h, binomialRow, List.range_eq_range']

theorem binomials_succ (p o : Nat) :
    binomials (p + 1) o = binomials p o ++ [binomialRow (p + 1) o] := by
  rw [binomials, List.range_succ, List.map_append, List.map_singleton, binomials]

theorem extend_binomials (p o : Nat) : (binomials p o).extend = binomials (p + 1) o := by
  have last : (binomials p o).getLastD [] = binomialRow p o := by
    rw [binomials, List.range_succ, List.map_append, List.map_singleton, List.getLastD_concat]
  rw [extend, last, nextRow_binomialRow, binomials_succ]

theorem constant_eq_binomials (o : Nat) : constant o = binomials 0 o := by
  simp [constant, binomials, binomialRow, List.map_const']

theorem count_binomials {p o i j : Nat} (hi : i ≤ p) (hj : j ≤ o) :
    (binomials p o).count i j = (i + j).choose j := by
  simp [count, binomials, binomialRow, List.getD_eq_getElem?_getD, Nat.lt_succ_of_le hi,
    Nat.lt_succ_of_le hj]

theorem last_binomials (p o : Nat) :
    ((binomials p o).getLastD []).getLastD 0 = (p + o).choose o := by
  rw [binomials, List.range_succ, List.map_append, List.map_singleton, List.getLastD_concat,
    binomialRow, List.range_succ, List.map_append, List.map_singleton, List.getLastD_concat]

/-! ### The walk, one parameter at a time -/

variable (s : Sizes)

theorem slotOf_concat (o : Nat) (m : Orders) (d : Nat) :
    s.slotOf o (m ++ [d]) = s.skipped m.length d o + s.slotOf (o - d) m := by
  rw [slotOf, List.reverse_concat, slotOfReversed, List.length_reverse, slotOf]

/-- Without a derivative along the last parameter nothing is skipped for it. -/
theorem slotOf_concat_zero (o : Nat) (m : Orders) : s.slotOf o (m ++ [0]) = s.slotOf o m := by
  rw [slotOf_concat, skipped, Nat.zero_add, Nat.sub_zero]

/-- One more derivative along the last parameter skips the value part. -/
theorem slotOf_concat_succ (o : Nat) (m : Orders) (d : Nat) :
    s.slotOf (o + 1) (m ++ [d + 1]) = s.count m.length (o + 1) + s.slotOf o (m ++ [d]) := by
  rw [slotOf_concat, skipped, slotOf_concat, Nat.add_sub_cancel, Nat.add_sub_add_right,
    Nat.add_assoc]

theorem skipped_congr {s t : Sizes} {i m : Nat} (h : ∀ j, j ≤ m → s.count i j = t.count i j)
    (d : Nat) : s.skipped i d m = t.skipped i d m := by
  induction d generalizing m with
  | zero => rfl
  | succ d ih =>
    rw [skipped, skipped, h m (Nat.le_refl m), ih fun j hj => h j (by omega)]

/-- The walk reads the sizes of fewer parameters, and of no higher order. -/
theorem slotOf_congr {s t : Sizes} {o : Nat} {n : Orders}
    (h : ∀ i, i < n.length → ∀ j, j ≤ o → s.count i j = t.count i j) :
    s.slotOf o n = t.slotOf o n := by
  induction n using List.reverseRecOn generalizing o with
  | nil => rfl
  | append_singleton m d ih =>
    have hm : m.length < (m ++ [d]).length := by simp
    rw [slotOf_concat, slotOf_concat, skipped_congr (h m.length hm) d,
      ih fun i hi j hj => h i (by omega) j (by omega)]

end Sizes

namespace Orders

@[simp] theorem raiseLast_concat (m : Orders) (d : Nat) : raiseLast (m ++ [d]) = m ++ [d + 1] := by
  rw [raiseLast, List.dropLast_concat, List.getLastD_concat]

/-- Orders for one more parameter are orders for the others and one for the last. -/
theorem exists_concat {p : Nat} {n : Orders} (h : n.length = p + 1) :
    ∃ (m : Orders) (d : Nat), m.length = p ∧ n = m ++ [d] := by
  have hn : n ≠ [] := List.ne_nil_of_length_eq_add_one h
  refine ⟨n.dropLast, n.getLast hn, ?_, (List.dropLast_concat_getLast hn).symm⟩
  rw [List.length_dropLast, h, Nat.add_sub_cancel]

theorem mem_join {value derivative : List Orders} {n : Orders} :
    n ∈ join value derivative ↔
      (∃ m ∈ value, m ++ [0] = n) ∨ ∃ m ∈ derivative, raiseLast m = n := by
  rw [join, List.mem_append, List.mem_map, List.mem_map]

theorem length_join (value derivative : List Orders) :
    (join value derivative).length = value.length + derivative.length := by
  rw [join, List.length_append, List.length_map, List.length_map]

theorem getElem?_join_left {value derivative : List Orders} {i : Nat} {m : Orders}
    (h : value[i]? = some m) : (join value derivative)[i]? = some (m ++ [0]) := by
  have hi : i < value.length := (List.getElem?_eq_some_iff.mp h).1
  rw [join, List.getElem?_append_left (by simpa using hi), List.getElem?_map, h, Option.map_some]

theorem getElem?_join_right {value derivative : List Orders} {i : Nat} {m : Orders}
    (h : derivative[i]? = some m) :
    (join value derivative)[value.length + i]? = some (raiseLast m) := by
  rw [join, List.getElem?_append_right (by simp), List.length_map, Nat.add_sub_cancel_left,
    List.getElem?_map, h, Option.map_some]

end Orders

namespace Tables
open Sizes Orders

/-- **The recursion of the tables as an induction**: a signature with one parameter or one
order less comes first, and those with a single slot start it. -/
theorem grid_induction {motive : Nat → Nat → Prop} (point : ∀ o, motive 0 o)
    (edge : ∀ p, motive (p + 1) 0)
    (cell : ∀ p o, motive p (o + 1) → motive (p + 1) o → motive (p + 1) (o + 1)) :
    ∀ p o, motive p o
  | 0, o => point o
  | p + 1, 0 => edge p
  | p + 1, o + 1 =>
    cell p o (grid_induction point edge cell p (o + 1)) (grid_induction point edge cell (p + 1) o)

@[simp] theorem parameters_complete (p o : Nat) : (complete p o).parameters = p := by
  cases p with
  | zero => rfl
  | succ p => cases o <;> rfl

@[simp] theorem order_complete (p o : Nat) : (complete p o).order = o := by
  cases p with
  | zero => rfl
  | succ p => cases o <;> rfl

/-- **The sizes are binomial coefficients.** -/
theorem sizes_complete (p o : Nat) : (complete p o).sizes = binomials p o := by
  induction p, o using grid_induction with
  | point o => exact constant_eq_binomials o
  | edge p =>
    induction p with
    | zero => rw [← extend_binomials, ← constant_eq_binomials]; rfl
    | succ p ih => rw [← extend_binomials, ← ih]; rfl
  | cell p o hv _ => rw [← extend_binomials, ← hv]; rfl

theorem size_complete (p o : Nat) : (complete p o).size = (p + o).choose o := by
  rw [size, sizes_complete, parameters_complete, order_complete,
    count_binomials (Nat.le_refl p) (Nat.le_refl o)]

/-- One order more adds the slots of the value part. -/
theorem size_succ_succ (p o : Nat) :
    (complete (p + 1) (o + 1)).size = (complete p (o + 1)).size + (complete (p + 1) o).size := by
  rw [size_complete, size_complete, size_complete,
    show p + 1 + (o + 1) = (p + 1 + o) + 1 from by omega, Nat.choose_succ_succ, Nat.add_comm,
    show p + 1 + o = p + (o + 1) from by omega]

theorem size_pos (p o : Nat) : 0 < (complete p o).size := by
  rw [size_complete]; exact Nat.choose_pos (by omega)

/-! ### The orders of the slots -/

theorem derivatives_zero (o : Nat) : (complete 0 o).derivatives = [[]] := rfl

theorem derivatives_succ_zero (p : Nat) :
    (complete (p + 1) 0).derivatives = [List.replicate (p + 1) 0] := rfl

theorem derivatives_succ_succ (p o : Nat) :
    (complete (p + 1) (o + 1)).derivatives =
      Orders.join (complete p (o + 1)).derivatives (complete (p + 1) o).derivatives := rfl

theorem length_derivatives (p o : Nat) :
    (complete p o).derivatives.length = (complete p o).size := by
  induction p, o using grid_induction with
  | point o => rw [size_complete, derivatives_zero]; simp
  | edge p => rw [size_complete, derivatives_succ_zero]; simp
  | cell p o hv hd => rw [derivatives_succ_succ, length_join, hv, hd, size_succ_succ]

/-- **The slots hold all orders of a bounded sum.** -/
theorem mem_derivatives_complete {p o : Nat} {n : Orders} :
    n ∈ (complete p o).derivatives ↔ n.length = p ∧ n.sum ≤ o := by
  induction p, o using grid_induction generalizing n with
  | point o =>
    rw [derivatives_zero, List.mem_singleton]
    constructor
    · rintro rfl; simp
    · exact fun h => List.length_eq_zero_iff.mp h.1
  | edge p =>
    rw [derivatives_succ_zero, List.mem_singleton, List.eq_replicate_iff, Nat.le_zero,
      List.sum_eq_zero_iff_forall_eq_nat]
  | cell p o hv hd =>
    -- The last order says which of the two parts it is in: it is zero in the value part.
    rw [derivatives_succ_succ, mem_join]
    constructor
    · rintro (⟨m, hm, rfl⟩ | ⟨m, hm, rfl⟩)
      · obtain ⟨hl, hs⟩ := hv.mp hm
        simpa [hl] using hs
      · obtain ⟨hl, hs⟩ := hd.mp hm
        obtain ⟨m, d, hm, rfl⟩ := exists_concat hl
        simp at hs ⊢
        omega
    · rintro ⟨hl, hs⟩
      obtain ⟨m, d, hm, rfl⟩ := exists_concat hl
      cases d with
      | zero => exact Or.inl ⟨m, hv.mpr ⟨hm, by simpa using hs⟩, rfl⟩
      | succ d =>
        refine Or.inr ⟨m ++ [d], hd.mpr ⟨by simpa using hm, ?_⟩, raiseLast_concat m d⟩
        simp at hs ⊢
        omega

/-- **The orders increase with the slots**, compared from the last parameter down. -/
theorem pairwise_derivatives_complete (p o : Nat) :
    (complete p o).derivatives.Pairwise fun m n => m.reverse < n.reverse := by
  induction p, o using grid_induction with
  | point o => exact List.pairwise_singleton _ _
  | edge p => exact List.pairwise_singleton _ _
  | cell p o hv hd =>
    rw [derivatives_succ_succ, Orders.join, List.pairwise_append, List.pairwise_map,
      List.pairwise_map]
    refine ⟨hv.imp fun h => by simpa using h, ?_, ?_⟩
    · refine hd.imp_of_mem fun {m n} hm hn h => ?_
      obtain ⟨m, a, _, rfl⟩ := exists_concat (mem_derivatives_complete.mp hm).1
      obtain ⟨n, b, _, rfl⟩ := exists_concat (mem_derivatives_complete.mp hn).1
      simpa [List.cons_lt_cons_iff] using h
    · intro m hm n hn
      obtain ⟨m', _, rfl⟩ := List.mem_map.mp hm
      obtain ⟨n', hn', rfl⟩ := List.mem_map.mp hn
      obtain ⟨n'', b, _, rfl⟩ := exists_concat (mem_derivatives_complete.mp hn').1
      simp [List.cons_lt_cons_iff]

theorem nodup_derivatives (p o : Nat) : (complete p o).derivatives.Nodup :=
  (pairwise_derivatives_complete p o).imp fun {m n} (h : m.reverse < n.reverse) he =>
    List.lt_irrefl n.reverse (he ▸ h)

/-! ### The slot of given orders -/

/-- The slot that holds the given orders. -/
def slotOf (t : Tables) (n : Orders) : Nat := t.sizes.slotOf t.order n

theorem slotOf_complete (p o : Nat) (n : Orders) :
    (complete p o).slotOf n = (binomials p o).slotOf o n := by
  rw [slotOf, sizes_complete, order_complete]

/-- Orders without a derivative along the last parameter are in the value part. -/
theorem slotOf_value {p o : Nat} {m : Orders} (hm : m.length = p) :
    (complete (p + 1) (o + 1)).slotOf (m ++ [0]) = (complete p (o + 1)).slotOf m := by
  rw [slotOf_complete, slotOf_complete, slotOf_concat_zero]
  refine slotOf_congr fun i hi j hj => ?_
  rw [count_binomials (by omega) hj, count_binomials (by omega) hj]

/-- Orders with a derivative along the last parameter are in the derivative part. -/
theorem slotOf_derivative {p o : Nat} {m : Orders} (hm : m.length = p) (d : Nat) :
    (complete (p + 1) (o + 1)).slotOf (m ++ [d + 1]) =
      (complete p (o + 1)).size + (complete (p + 1) o).slotOf (m ++ [d]) := by
  rw [slotOf_complete, slotOf_complete, slotOf_concat_succ, hm,
    count_binomials (by omega) (Nat.le_refl _), size_complete]
  refine congrArg (_ + ·) (slotOf_congr fun i hi j hj => ?_)
  rw [List.length_append, List.length_singleton] at hi
  rw [count_binomials (by omega) (by omega), count_binomials (by omega) hj]

/-- The value comes first. -/
theorem slotOf_zeros (p o q : Nat) : (complete p o).slotOf (List.replicate q 0) = 0 := by
  induction q with
  | zero => rfl
  | succ q ih =>
    rw [slotOf_complete] at ih ⊢
    rw [List.replicate_succ', slotOf_concat_zero, ih]

/-- **Orders are found in their slot.** -/
theorem getElem?_slotOf {p o : Nat} {n : Orders} (hl : n.length = p) (hs : n.sum ≤ o) :
    (complete p o).derivatives[(complete p o).slotOf n]? = some n := by
  induction p, o using grid_induction generalizing n with
  | point o => rw [List.length_eq_zero_iff.mp hl]; rfl
  | edge p =>
    have hn : n = List.replicate (p + 1) 0 := by
      rw [List.eq_replicate_iff]
      exact ⟨hl, List.sum_eq_zero_iff_forall_eq_nat.mp (Nat.le_zero.mp hs)⟩
    rw [hn, slotOf_zeros, derivatives_succ_zero, List.getElem?_cons_zero]
  | cell p o hv hd =>
    obtain ⟨m, d, hm, rfl⟩ := exists_concat hl
    rw [List.sum_append, List.sum_singleton] at hs
    cases d with
    | zero => rw [slotOf_value hm, derivatives_succ_succ, getElem?_join_left (hv hm (by omega))]
    | succ d =>
      have below : (m ++ [d]).sum ≤ o := by rw [List.sum_append, List.sum_singleton]; omega
      rw [slotOf_derivative hm, ← length_derivatives, derivatives_succ_succ,
        getElem?_join_right (hd (by simpa using hm) below), raiseLast_concat]

theorem slotOf_lt {p o : Nat} {n : Orders} (hl : n.length = p) (hs : n.sum ≤ o) :
    (complete p o).slotOf n < (complete p o).size := by
  rw [← length_derivatives]
  exact (List.getElem?_eq_some_iff.mp (getElem?_slotOf hl hs)).1

theorem mem_of_getElem? {p o i : Nat} {n : Orders}
    (h : (complete p o).derivatives[i]? = some n) : n.length = p ∧ n.sum ≤ o :=
  mem_derivatives_complete.mp (List.mem_of_getElem? h)

/-- **A slot is the one of its orders.** -/
theorem slotOf_of_getElem? {p o i : Nat} {n : Orders}
    (h : (complete p o).derivatives[i]? = some n) : (complete p o).slotOf n = i := by
  obtain ⟨hl, hs⟩ := mem_of_getElem? h
  have hi := (List.getElem?_eq_some_iff.mp h).1
  have same := h.trans (getElem?_slotOf hl hs).symm
  exact ((List.getElem?_inj hi (nodup_derivatives p o)).mp same).symm

theorem slotOf_injective {p o : Nat} {m n : Orders} (hm : m.length = p) (hms : m.sum ≤ o)
    (hn : n.length = p) (hns : n.sum ≤ o)
    (h : (complete p o).slotOf m = (complete p o).slotOf n) : m = n :=
  Option.some.inj ((getElem?_slotOf hm hms).symm.trans (h ▸ getElem?_slotOf hn hns))

/-! ### The slots of one order less -/

/-- **The lower slots are where the orders are**: slot `i` of the `(p, o)` jet goes to the slot
of the same orders in the `(p, o + 1)` jet. -/
theorem lower_complete (p o : Nat) :
    (complete p (o + 1)).lower = (complete p o).derivatives.map (complete p (o + 1)).slotOf := by
  induction p, o using grid_induction with
  | point o => rfl
  | edge p => rw [derivatives_succ_zero, List.map_singleton, slotOf_zeros]; rfl
  | cell p o hv hd =>
    have unfolded : (complete (p + 1) (o + 1 + 1)).lower =
        Lower.join (complete p (o + 1 + 1)).size (complete p (o + 1 + 1)).lower
          (complete (p + 1) (o + 1)).lower := rfl
    rw [unfolded, Lower.join, hv, hd, derivatives_succ_succ, Orders.join, List.map_append,
      List.map_map, List.map_map, List.map_map]
    refine congrArg₂ (· ++ ·) (List.map_congr_left fun m hm => ?_)
      (List.map_congr_left fun m hm => ?_)
    · exact (slotOf_value (mem_derivatives_complete.mp hm).1).symm
    · obtain ⟨m, d, hl, rfl⟩ := exists_concat (mem_derivatives_complete.mp hm).1
      rw [Function.comp_apply, Function.comp_apply, raiseLast_concat, slotOf_derivative hl]

end Tables

end JetAlgebra
