import JetAlgebra.Proofs.ChainRule
import JetAlgebra.Proofs.LeibnizRule
import JetAlgebra.Proofs.WrappedOperations

/-!
# How many slots jets have

A calculus is full (`Calculus.IsFull`) if its tables have a row for each slot, as those of every
signature do (`Tables.isFull`).  Then products, compositions and what is built from them have all
the slots of a jet, whatever the factors are; and where something goes slot by slot, the result
is as long as its operands.
-/
namespace JetAlgebra
open Arithmetic Scalar

section Lengths
variable {α : Type}

theorem length_of_zipEach {f : Scalar → Scalar → Except ArithmeticFault Scalar} :
    ∀ {as bs v : List Scalar}, zipEach f as bs = .ok v → v.length = min as.length bs.length
  | [], _, _, h => by cases h; simp
  | _ :: _, [], _, h => by cases h; rfl
  | a :: as, b :: bs, v, h => by
    obtain ⟨c, -, h⟩ := bind_eq_ok_iff.mp h
    obtain ⟨rest, hrest, h⟩ := bind_eq_ok_iff.mp h
    cases h
    rw [List.length_cons, length_of_zipEach hrest, List.length_cons, List.length_cons]
    omega

theorem length_of_zipEach_eq {f : Scalar → Scalar → Except ArithmeticFault Scalar}
    {as bs v : List Scalar} {n : Nat} (h : zipEach f as bs = .ok v) (ha : as.length = n)
    (hb : bs.length = n) : v.length = n := by
  rw [length_of_zipEach h, ha, hb, Nat.min_self]

theorem length_segments (starts : List Nat) (xs : List α) :
    (segments starts xs).length = starts.length := by
  induction starts with
  | nil => rfl
  | cons s starts ih =>
    cases starts with
    | nil => rfl
    | cons t rest => exact congrArg (· + 1) ih

theorem length_segmentStarts {rows : List (List α)} (h : rows ≠ []) :
    (segmentStarts rows).length = rows.length := by
  have sums : ∀ (ns : List Nat) (s : Nat), (Sizes.runningSums s ns).length = ns.length + 1 := by
    intro ns
    induction ns with
    | nil => exact fun _ => rfl
    | cons n ns ih => exact fun s => congrArg (· + 1) (ih _)
  have positive := List.length_pos_iff.mpr h
  rw [segmentStarts, sums, List.length_map, List.length_dropLast]
  omega

/-- **A calculus whose tables have a row for each slot.** -/
structure Calculus.IsFull (k : Calculus) : Prop where
  positive : 0 < k.size
  product : k.product.starts.length = k.size
  composition : k.composition.starts.length = k.size
  ofRows : ∃ rows padding, k.composition = .ofRows rows padding
  /-- The first term of a product is that of the values. -/
  value : ∃ coefficients left, k.product.coefficients = 1 :: coefficients ∧
    k.product.left = 0 :: left

/-- The value of a product is the product of the values. -/
theorem Tables.exists_product_eq (p o : Nat) :
    ∃ rows, (complete p o).product = [⟨1, 0, 0⟩] :: rows := by
  induction p, o using grid_induction with
  | point o => exact ⟨[], rfl⟩
  | edge p => exact ⟨[], rfl⟩
  | cell p o hv hd =>
    obtain ⟨rows, hrows⟩ := hv
    rw [product_succ_succ, ProductTerm.joinRows, hrows]
    exact ⟨_, rfl⟩

/-- The tables of a signature are full. -/
theorem Tables.isFull (p o : Nat) : (complete p o).calculus.IsFull := by
  have product : (complete p o).product ≠ [] := by
    rw [← List.length_pos_iff, length_product]
    exact size_pos p o
  have composition : (complete p o).composition ≠ [] := by
    rw [← List.length_pos_iff, length_composition]
    exact size_pos p o
  refine ⟨size_pos p o, ?_, ?_, ⟨_, _, composition_calculus _⟩, ?_⟩
  · show (segmentStarts ((complete p o).product.map _)).length = _
    rw [length_segmentStarts (by simpa using product), List.length_map, length_product]
    rfl
  · show (segmentStarts ((complete p o).composition.map _)).length = _
    rw [length_segmentStarts (by simpa using composition), List.length_map, length_composition]
    rfl
  · obtain ⟨rows, hrows⟩ := exists_product_eq p o
    show ∃ coefficients left, (ProductKernel.ofTable (complete p o).product).coefficients = _ ∧
      (ProductKernel.ofTable (complete p o).product).left = _
    rw [hrows]
    exact ⟨_, _, rfl, rfl⟩

variable {k : Calculus} (hk : k.IsFull) {a b g v : Jet Scalar}

theorem length_of_remainder (h : Jet.remainder a b = .ok v) (ha : a.length = k.size)
    (hb : b.length = k.size) : v.length = k.size := by
  obtain ⟨x, hx, h⟩ := bind_eq_ok_iff.mp h
  obtain ⟨y, -, h⟩ := bind_eq_ok_iff.mp h
  obtain ⟨r, -, h⟩ := bind_eq_ok_iff.mp h
  obtain ⟨n, -, h⟩ := bind_eq_ok_iff.mp h
  obtain ⟨multiples, hm, h⟩ := bind_eq_ok_iff.mp h
  obtain ⟨rest, hd, h⟩ := bind_eq_ok_iff.mp h
  have positive : a ≠ [] := by rintro rfl; cases hx
  have := List.length_pos_iff.mpr positive
  cases h
  rw [List.length_cons, length_of_zipEach hd, length_of_mapM hm, List.length_tail,
    List.length_tail]
  omega

theorem length_of_stored {s : Storage Scalar} {x : Except ArithmeticFault (Jet Scalar)}
    (h : Jet.stored s x = .ok v) (hx : ∀ u, x = .ok u → u.length = k.size) :
    v.length = k.size := by
  obtain ⟨u, hu, h⟩ := bind_eq_ok_iff.mp h
  exact (length_of_mapM h).trans (hx u hu)

include hk

theorem length_of_mul (h : Jet.mul k a b = .ok v) : v.length = k.size := by
  obtain ⟨terms, -, h⟩ := bind_eq_ok_iff.mp h
  rw [length_of_mapM h, length_segments, hk.product]

/-- A jet with an empty first slot has no products. -/
theorem value_of_mul (h : Jet.mul k a b = .ok v) : ∃ x, slot a 0 = .ok x ∧ x ≠ .unset := by
  obtain ⟨coefficients, left, hc, hl⟩ := hk.value
  obtain ⟨terms, ht, -⟩ := bind_eq_ok_iff.mp h
  rw [Jet.productTerms, hc, hl] at ht
  obtain ⟨lefts, hs, ht⟩ := bind_eq_ok_iff.mp ht
  obtain ⟨x, rest, hx, -, rfl⟩ := of_mapM_cons hs
  obtain ⟨scaled, hs, -⟩ := bind_eq_ok_iff.mp ht
  refine ⟨x, hx, ?_⟩
  rintro rfl
  cases hs

/-- A point with an angle has two coordinates. -/
theorem values_of_angle {s : Storage Scalar} (h : Jet.angle k s a b = .ok v) :
    (∃ y, slot a 0 = .ok y ∧ y ≠ .unset) ∧ ∃ x, slot b 0 = .ok x ∧ x ≠ .unset := by
  obtain ⟨r, hr, -⟩ := bind_eq_ok_iff.mp h
  obtain ⟨x2, hx, hr⟩ := bind_eq_ok_iff.mp hr
  obtain ⟨y2, hy, -⟩ := bind_eq_ok_iff.mp hr
  obtain ⟨x2, hx, -⟩ := bind_eq_ok_iff.mp hx
  obtain ⟨y2, hy, -⟩ := bind_eq_ok_iff.mp hy
  exact ⟨value_of_mul hk hy, value_of_mul hk hx⟩

theorem length_of_composeFrom {s : Storage Scalar} {leading : Except ArithmeticFault (List Scalar)}
    (h : Jet.composeFrom k s g leading = .ok v) : v.length = k.size := by
  obtain ⟨x, -, h⟩ := bind_eq_ok_iff.mp h
  obtain ⟨one, -, h⟩ := bind_eq_ok_iff.mp h
  obtain ⟨one, -, h⟩ := bind_eq_ok_iff.mp h
  obtain ⟨factors, -, h⟩ := bind_eq_ok_iff.mp h
  obtain ⟨terms, -, h⟩ := bind_eq_ok_iff.mp h
  rw [length_of_mapM h, length_segments, hk.composition]

theorem length_of_follow {s : Storage Scalar} {r : Recipe Scalar} (h : Jet.follow k s g r = .ok v) :
    v.length = k.size := by
  have positive := hk.positive
  cases r with
  | constant c =>
    obtain ⟨x, -, h⟩ := bind_eq_ok_iff.mp h
    obtain ⟨z, -, h⟩ := bind_eq_ok_iff.mp h
    cases h
    rw [List.length_cons, List.length_replicate]
    omega
  | compose f =>
    obtain ⟨f', -, h⟩ := bind_eq_ok_iff.mp h
    exact length_of_composeFrom hk h

theorem length_of_through {s : Storage Scalar}
    {f : Scalar → Nat → Except ArithmeticFault (List Scalar)} (h : Jet.through k s g f = .ok v) :
    v.length = k.size := by
  obtain ⟨x, -, h⟩ := bind_eq_ok_iff.mp h
  obtain ⟨l, -, h⟩ := bind_eq_ok_iff.mp h
  exact length_of_follow hk h

theorem length_of_angle {s : Storage Scalar} (h : Jet.angle k s a b = .ok v) :
    v.length = k.size := by
  have positive := hk.positive
  have arc : ∀ {t u : Jet Scalar}, Jet.stored s (Jet.through k s t Outer.atan) = .ok u →
      u.length = k.size := fun hu => length_of_stored hu fun _ h => length_of_through hk h
  obtain ⟨r, -, h⟩ := bind_eq_ok_iff.mp h
  obtain ⟨x, -, h⟩ := bind_eq_ok_iff.mp h
  obtain ⟨x, -, h⟩ := bind_eq_ok_iff.mp h
  split at h
  · obtain ⟨far, -, h⟩ := bind_eq_ok_iff.mp h
    obtain ⟨t, -, h⟩ := bind_eq_ok_iff.mp h
    obtain ⟨u, hu, h⟩ := bind_eq_ok_iff.mp h
    exact (length_of_mapM h).trans (arc hu)
  · obtain ⟨far, -, h⟩ := bind_eq_ok_iff.mp h
    obtain ⟨t, -, h⟩ := bind_eq_ok_iff.mp h
    obtain ⟨u, hu, h⟩ := bind_eq_ok_iff.mp h
    obtain ⟨y, -, h⟩ := bind_eq_ok_iff.mp h
    obtain ⟨y, -, h⟩ := bind_eq_ok_iff.mp h
    obtain ⟨d, hd, h⟩ := bind_eq_ok_iff.mp h
    obtain ⟨m, -, h⟩ := bind_eq_ok_iff.mp h
    obtain ⟨n, -, h⟩ := bind_eq_ok_iff.mp h
    cases h
    rw [List.length_cons, length_of_mapM hd, List.length_tail, arc hu]
    omega

end Lengths

end JetAlgebra
