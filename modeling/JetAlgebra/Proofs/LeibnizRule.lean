import JetAlgebra.Proofs.Construction
import JetAlgebra.Proofs.Exponent
import JetAlgebra.Proofs.Weights

/-!
# The product table is the Leibniz rule

The row of an exponent `n` expands `n!` over the pairs `l + r = n`, and the share of a pair is
`l! r!`; so the coefficient is a product of binomial coefficients.  One step of the table
differentiates a row along the last parameter (`IsLeibnizRow.differentiate`): a pair of
`n + 1` is reached from at most two pairs of `n`, and the two weights are the two summands of

  `n! (r + l) = n! (n + 1)`

at the last parameter.  Everything else is bookkeeping of slots, which `Exponent.place` does.
-/
namespace JetAlgebra

open Tables Exponent
open Finset.HasAntidiagonal (antidiagonal mem_antidiagonal)

/-- **The row of the exponent `n`** in the product table of a `(p, o)` jet. -/
def IsLeibnizRow (p o : Nat) (n : Exponent) (row : List ProductTerm) : Prop :=
  Weighted.Expands row (fun x : Exponent × Exponent => x.1 + x.2 = n)
    (fun x => ⟨place p o x.1, place p o x.2⟩) (fun x => factorial x.1 * factorial x.2) (factorial n)

namespace IsLeibnizRow

/-- A jet that is a single slot multiplies its values. -/
theorem single (p o : Nat) : IsLeibnizRow p o 0 [⟨1, 0, 0⟩] where
  nodup := List.nodup_singleton _
  keys t ht := by
    obtain rfl := List.mem_singleton.mp ht
    exact ⟨(0, 0), add_zero 0, by rw [place_zero]⟩
  weight := by
    rintro ⟨l, r⟩ hx
    obtain ⟨rfl, rfl⟩ := add_eq_zero.mp hx
    simp

/-- A row of the value part is a row of the whole table. -/
theorem value {p o : Nat} {n : Exponent} {row : List ProductTerm} (hn : Fits p (o + 1) n)
    (h : IsLeibnizRow p (o + 1) n row) : IsLeibnizRow (p + 1) (o + 1) n row := by
  refine Weighted.Expands.congr h fun x hx => ?_
  obtain ⟨hl, hr⟩ := hn.of_add_eq hx
  rw [place_value hl, place_value hr]

variable {p o : Nat} {n : Exponent} {row : List ProductTerm}

/-- The slots of a pair tell which pair it is. -/
theorem places_injective (hn : Fits p o n) {x y : Exponent × Exponent} (hx : x.1 + x.2 = n)
    (hy : y.1 + y.2 = n)
    (h : SlotPair.mk (place p o x.1) (place p o x.2) = ⟨place p o y.1, place p o y.2⟩) : x = y := by
  obtain ⟨left, right⟩ := SlotPair.mk.inj h
  exact Prod.ext (place_injective (hn.of_add_eq hx).1 (hn.of_add_eq hy).1 left)
    (place_injective (hn.of_add_eq hx).2 (hn.of_add_eq hy).2 right)

/-- The factors are slots of the jet. -/
theorem slots_lt (hn : Fits p o n) (h : IsLeibnizRow p o n row) {t : ProductTerm} (ht : t ∈ row) :
    t.key.left < (complete p o).size ∧ t.key.right < (complete p o).size := by
  obtain ⟨x, hx, hk⟩ := h.keys t ht
  rw [hk]
  exact ⟨place_lt (hn.of_add_eq hx).1, place_lt (hn.of_add_eq hx).2⟩

/-- The slots of a term, before and after it is differentiated. -/
theorem slots (hn : Fits (p + 1) o n) (h : IsLeibnizRow (p + 1) o n row) {t : ProductTerm}
    (ht : t ∈ row) : ∃ l r, l + r = n ∧ t.key = ⟨place (p + 1) o l, place (p + 1) o r⟩ ∧
      (complete (p + 1) (o + 1)).lower.getD t.key.left 0 = place (p + 1) (o + 1) l ∧
      (complete (p + 1) (o + 1)).lower.getD t.key.right 0 = place (p + 1) (o + 1) r ∧
      (complete p (o + 1)).size + t.key.left = place (p + 1) (o + 1) (l + unit p) ∧
      (complete p (o + 1)).size + t.key.right = place (p + 1) (o + 1) (r + unit p) := by
  obtain ⟨⟨l, r⟩, hx, hk⟩ := h.keys t ht
  obtain ⟨hl, hr⟩ := hn.of_add_eq hx
  refine ⟨l, r, hx, hk, ?_⟩
  rw [hk]
  exact ⟨getD_lower_place hl, getD_lower_place hr, (place_raise l).symm, (place_raise r).symm⟩

/-- What the terms bring to the pair `(u, v)` when each goes to the slots `kept` and `raised`. -/
def broughtTo (p o : Nat) (row : List ProductTerm) (kept raised : ProductTerm → Nat)
    (u v : Exponent) : Nat :=
  (row.map fun t => if kept t = place p o u ∧ raised t = place p o v then t.coefficient else 0).sum

/-- A pair gets something from the terms whose right factor is differentiated, and from those
whose left factor is. -/
theorem weight_differentiate (row : List ProductTerm) (lower : List Nat) (shift : Nat)
    (l r : Exponent) :
    Weighted.weight (row.flatMap (ProductTerm.differentiate lower shift))
        ⟨place p o l, place p o r⟩ =
      broughtTo p o row (fun t => lower.getD t.key.left 0) (fun t => shift + t.key.right) l r +
      broughtTo p o row (fun t => lower.getD t.key.right 0) (fun t => shift + t.key.left) r l := by
  rw [Weighted.weight_flatMap, broughtTo, broughtTo, ← List.sum_map_add]
  refine congrArg List.sum (List.map_congr_left fun t _ => ?_)
  rw [ProductTerm.differentiate, Weighted.weight_cons, Weighted.weight_cons, Weighted.weight_nil,
    Nat.add_zero]
  simp only [SlotPair.mk.injEq, and_comm (a := shift + t.key.left = _)]

/-- **One half of a differentiated row.**  The terms are at `key u v`, and they go to the slots
of `u` and of `v` with one derivative more.  The pair `(u, v)` is brought as much as `v` has
derivatives along the last parameter. -/
theorem broughtTo_mul_share (hn : Fits (p + 1) o n) (key : Exponent → Exponent → SlotPair)
    (kept raised : ProductTerm → Nat)
    (hw : ∀ u v, u + v = n →
      Weighted.weight row (key u v) * (factorial u * factorial v) = factorial n)
    (hi : ∀ u v u' v', u + v = n → u' + v' = n → key u v = key u' v' → u = u' ∧ v = v')
    (hk : ∀ t ∈ row, ∃ u v, u + v = n ∧ t.key = key u v ∧ kept t = place (p + 1) (o + 1) u ∧
      raised t = place (p + 1) (o + 1) (v + unit p))
    {u v : Exponent} (hx : u + v = n + unit p) :
    broughtTo (p + 1) (o + 1) row kept raised u v * (factorial u * factorial v) =
      factorial n * v p := by
  obtain ⟨hu, hv⟩ := hn.raise.of_add_eq hx
  rcases Nat.eq_zero_or_pos (v p) with hp | hp
  · -- No term gets to `v` by a derivative along the last parameter.
    rw [hp, Nat.mul_zero, broughtTo, List.sum_eq_zero, Nat.zero_mul]
    intro c hc
    obtain ⟨t, ht, rfl⟩ := List.mem_map.mp hc
    obtain ⟨u', v', hx', -, -, hraised⟩ := hk t ht
    refine if_neg fun hs => ?_
    have := place_injective (hn.of_add_eq hx').2.raise hv (hraised.symm.trans hs.2)
    rw [← this, Finsupp.add_apply, unit_self] at hp
    omega
  · obtain ⟨v, rfl⟩ := exists_add_unit hp
    have hx₀ : u + v = n := add_right_cancel (hx ▸ add_assoc u v _)
    have only : ∀ t ∈ row, (kept t = place (p + 1) (o + 1) u ∧
        raised t = place (p + 1) (o + 1) (v + unit p)) ↔ t.key = key u v := by
      intro t ht
      obtain ⟨u', v', hx', hkey, hkept, hraised⟩ := hk t ht
      rw [hkept, hraised, hkey]
      constructor
      · rintro ⟨h₁, h₂⟩
        obtain ⟨hu', hv'⟩ := hn.of_add_eq hx'
        rw [place_injective hu'.lift hu h₁, add_right_cancel (place_injective hv'.raise hv h₂)]
      · intro he
        obtain ⟨rfl, rfl⟩ := hi u' v' u v hx' hx₀ he
        exact ⟨rfl, rfl⟩
    have weights : broughtTo (p + 1) (o + 1) row kept raised u (v + unit p) =
        Weighted.weight row (key u v) :=
      congrArg List.sum (List.map_congr_left fun t ht => if_congr (only t ht) rfl rfl)
    rw [weights, factorial_add_unit, Finsupp.add_apply, unit_self, ← hw u v hx₀]
    ring

/-- **Differentiating a row of the Leibniz rule** gives the row with one derivative more. -/
theorem differentiate (hn : Fits (p + 1) o n) (h : IsLeibnizRow (p + 1) o n row) :
    IsLeibnizRow (p + 1) (o + 1) (n + unit p)
      (Weighted.combine (row.flatMap (ProductTerm.differentiate (complete (p + 1) (o + 1)).lower
        (complete p (o + 1)).size))) := by
  refine Weighted.expands_combine ?_ ?_
  · intro t ht
    obtain ⟨s, hs, ht⟩ := List.mem_flatMap.mp ht
    obtain ⟨l, r, hx, -, hl, hr, hl', hr'⟩ := slots hn h hs
    rw [ProductTerm.differentiate, List.mem_pair, hl, hr, hl', hr'] at ht
    rcases ht with rfl | rfl
    · exact ⟨(l, r + unit p), by rw [← add_assoc, hx], rfl⟩
    · exact ⟨(l + unit p, r), by rw [add_right_comm, hx], rfl⟩
  · rintro ⟨l, r⟩ (hx : l + r = n + unit p)
    have right := broughtTo_mul_share hn (fun u v => ⟨place (p + 1) o u, place (p + 1) o v⟩)
      (fun t => (complete (p + 1) (o + 1)).lower.getD t.key.left 0)
      (fun t => (complete p (o + 1)).size + t.key.right)
      (fun u v hs => h.weight (u, v) hs)
      (fun u v u' v' hs hs' he => Prod.mk.inj
        (places_injective hn (x := (u, v)) (y := (u', v')) hs hs' he))
      (fun t ht => by
        obtain ⟨l, r, hs, hk, hl, -, -, hr⟩ := slots hn h ht; exact ⟨l, r, hs, hk, hl, hr⟩) hx
    have left := broughtTo_mul_share hn (fun u v => ⟨place (p + 1) o v, place (p + 1) o u⟩)
      (fun t => (complete (p + 1) (o + 1)).lower.getD t.key.right 0)
      (fun t => (complete p (o + 1)).size + t.key.left)
      (fun u v hs => by rw [Nat.mul_comm (factorial u)]; exact h.weight (v, u) (add_comm u v ▸ hs))
      (fun u v u' v' hs hs' he => (Prod.mk.inj (places_injective hn (x := (v, u)) (y := (v', u'))
        (add_comm u v ▸ hs) (add_comm u' v' ▸ hs') he)).symm)
      (fun t ht => by
        obtain ⟨l, r, hs, hk, -, hr, hl, -⟩ := slots hn h ht
        exact ⟨r, l, add_comm l r ▸ hs, hk, hr, hl⟩) (add_comm l r ▸ hx)
    -- Both halves together have one derivative more than `n` along the last parameter.
    have last : l p + r p = n p + 1 := by
      rw [← Finsupp.add_apply, hx, Finsupp.add_apply, unit_self]
    rw [weight_differentiate, Nat.add_mul, right, Nat.mul_comm (factorial l), left,
      ← Nat.mul_add, Nat.add_comm, last, factorial_add_unit]

end IsLeibnizRow

namespace Tables

theorem product_succ_succ (p o : Nat) :
    (complete (p + 1) (o + 1)).product =
      ProductTerm.joinRows (complete (p + 1) (o + 1)).lower (complete p (o + 1)).product
        (complete (p + 1) o).product := rfl

theorem length_product (p o : Nat) : (complete p o).product.length = (complete p o).size := by
  induction p, o using grid_induction with
  | point o => rw [size_complete, Nat.zero_add, Nat.choose_self]; rfl
  | edge p => rw [size_complete, Nat.choose_zero_right]; rfl
  | cell p o hv hd =>
    rw [product_succ_succ, ProductTerm.joinRows, List.length_append, List.length_map, hv, hd,
      size_succ_succ]

/-- **Every row of the product table is a row of the Leibniz rule.** -/
theorem isLeibnizRow_product {p o : Nat} {n : Exponent} (hn : Fits p o n) :
    ∃ row, (complete p o).product[place p o n]? = some row ∧ IsLeibnizRow p o n row := by
  induction p, o using grid_induction generalizing n with
  | point o =>
    obtain rfl := hn.eq_zero_of_point
    exact ⟨_, by rw [place_zero]; rfl, IsLeibnizRow.single 0 o⟩
  | edge p =>
    obtain rfl := hn.eq_zero_of_edge
    exact ⟨_, by rw [place_zero]; rfl, IsLeibnizRow.single (p + 1) 0⟩
  | cell p o hv hd =>
    rw [product_succ_succ, ProductTerm.joinRows]
    -- A slot of the value part keeps its row, and one of the derivative part differentiates it.
    rcases hn.cases with hv' | ⟨n, hd', rfl⟩
    · obtain ⟨row, hrow, h⟩ := hv hv'
      refine ⟨row, ?_, h.value hv'⟩
      rw [place_value hv',
        List.getElem?_append_left (length_product p (o + 1) ▸ place_lt hv'), hrow]
    · obtain ⟨row, hrow, h⟩ := hd hd'
      refine ⟨_, ?_, h.differentiate hd'⟩
      rw [place_raise, ← length_product, List.getElem?_append_right (Nat.le_add_right ..),
        Nat.add_sub_cancel_left, List.getElem?_map, hrow, Option.map_some]

theorem isLeibnizRow_of_mem {p o : Nat} {row : List ProductTerm}
    (h : row ∈ (complete p o).product) : ∃ n, Fits p o n ∧ IsLeibnizRow p o n row := by
  obtain ⟨i, hi, rfl⟩ := List.mem_iff_getElem.mp h
  obtain ⟨n, hn, rfl⟩ := exists_place (length_product p o ▸ hi)
  obtain ⟨row, hrow, hr⟩ := isLeibnizRow_product hn
  rw [List.getElem?_eq_getElem hi] at hrow
  exact ⟨n, hn, Option.some.inj hrow ▸ hr⟩

end Tables

/-! ## The rows in terms of orders -/

namespace Orders
variable {l n : Orders}

/-- The orders that are left, added to those that were taken. -/
theorem exponent_add_sub (h : List.Forall₂ (· ≤ ·) l n) :
    l.exponent + Orders.exponent (List.zipWith (· - ·) n l) = n.exponent := by
  ext j
  rw [Finsupp.add_apply, exponent_apply, exponent_apply, exponent_apply]
  induction h generalizing j with
  | nil => rfl
  | cons hab _ ih =>
    cases j with
    | zero => simpa using Nat.add_sub_cancel' hab
    | succ j => simpa using ih j

/-- The product of the binomial coefficients is a quotient of factorials. -/
theorem prod_choose_mul (h : List.Forall₂ (· ≤ ·) l n) :
    (List.zipWith Nat.choose n l).prod * (factorial l.exponent *
      factorial (Orders.exponent (List.zipWith (· - ·) n l))) = factorial n.exponent := by
  rw [factorial_exponent, factorial_exponent, factorial_exponent]
  induction h with
  | nil => rfl
  | @cons a b l n hab _ ih =>
    simp only [List.zipWith_cons_cons, List.map_cons, List.prod_cons]
    rw [← ih, ← Nat.choose_mul_factorial_mul_factorial hab]
    ring

theorem forall₂_tuple (p : Nat) (l r : Exponent) :
    List.Forall₂ (· ≤ ·) (tuple p l) (tuple p (l + r)) := by
  rw [tuple, tuple, List.forall₂_map_left_iff, List.forall₂_map_right_iff, List.forall₂_same]
  exact fun j _ => Nat.le_add_right _ _

theorem zipWith_sub_tuple (p : Nat) (l r : Exponent) :
    List.zipWith (· - ·) (tuple p (l + r)) (tuple p l) = tuple p r := by
  rw [tuple, tuple, List.zipWith_map, List.zipWith_self, tuple]
  exact List.map_congr_left fun j _ => Nat.add_sub_cancel_left ..

theorem card_antidiagonal (n : Orders) :
    (antidiagonal n.exponent).card = (n.map (· + 1)).prod := by
  have below : (antidiagonal n.exponent).card = (Finset.Iic n.exponent).card := by
    refine Finset.card_nbij' Prod.fst (fun l => (l, n.exponent - l)) ?_ ?_ ?_ ?_
    · intro x hx
      rw [Finset.mem_coe, mem_antidiagonal] at hx
      simpa using hx ▸ le_self_add
    · intro l hl
      simpa using add_tsub_cancel_of_le (Finset.mem_Iic.mp hl)
    · intro x hx
      rw [Finset.mem_coe, mem_antidiagonal] at hx
      simp [← hx]
    · exact fun _ _ => rfl
  rw [below, Finsupp.card_Iic, prod_map_orders n (f := (· + 1)) rfl]
  exact Finset.prod_congr rfl fun j _ => Nat.card_Iic _

end Orders

/-- **The Leibniz rule for one slot.**  In tables `t`, a row of product terms for the slot
with orders `n`: each tuple below `n` is the left factor of exactly one term, whose right
factor has what is left of `n`, and whose coefficient is a product of binomials. -/
structure Tables.IsProductRow (t : Tables) (n : Orders) (row : List ProductTerm) : Prop where
  /-- No term is there twice. -/
  nodup : row.Nodup
  /-- Each tuple below `n` has one term. -/
  existsUnique : ∀ l : Orders, List.Forall₂ (· ≤ ·) l n →
    ∃! term, term ∈ row ∧ t.derivatives[term.key.left]? = some l
  /-- Each term belongs to a tuple below `n`. -/
  terms : ∀ term ∈ row, ∃ l : Orders, List.Forall₂ (· ≤ ·) l n ∧
    t.derivatives[term.key.left]? = some l ∧
    t.derivatives[term.key.right]? = some (List.zipWith (· - ·) n l) ∧
    term.coefficient = (List.zipWith Nat.choose n l).prod
  /-- There is a term for each way to choose an order below each order. -/
  length : row.length = (n.map (· + 1)).prod
  /-- The factors are slots of the jet. -/
  slots : ∀ term ∈ row, term.key.left < t.size ∧ term.key.right < t.size

namespace Tables
open Orders

section Row
variable {o : Nat} {n : Orders} {row : List ProductTerm} (hn : Fits n.length o n.exponent)
  (h : IsLeibnizRow n.length o n.exponent row)
include hn h

/-- Each term belongs to a tuple below `n`. -/
theorem exists_orders_of_mem {term : ProductTerm} (ht : term ∈ row) :
    ∃ l : Orders, List.Forall₂ (· ≤ ·) l n ∧
      (complete n.length o).derivatives[term.key.left]? = some l ∧
      (complete n.length o).derivatives[term.key.right]? = some (List.zipWith (· - ·) n l) ∧
      term.coefficient = (List.zipWith Nat.choose n l).prod := by
  obtain ⟨⟨l, r⟩, hx, hk, hc⟩ := h.coefficient_of_mem ht
  obtain ⟨hl, hr⟩ := hn.of_add_eq hx
  have hn' : n = tuple n.length (l + r) := by rw [hx, tuple_exponent]
  have below : List.Forall₂ (· ≤ ·) (tuple n.length l) n := by
    conv => rhs; rw [hn']
    exact forall₂_tuple _ l r
  have rest : List.zipWith (· - ·) n (tuple n.length l) = tuple n.length r := by
    conv => lhs; arg 2; rw [hn']
    exact zipWith_sub_tuple _ l r
  have binomials := prod_choose_mul below
  rw [rest, exponent_tuple hl.parameters, exponent_tuple hr.parameters, ← hc] at binomials
  refine ⟨tuple n.length l, below, ?_, ?_, ?_⟩
  · rw [hk]; exact getElem?_place hl
  · rw [hk, rest]; exact getElem?_place hr
  · exact Nat.eq_of_mul_eq_mul_right
      (Nat.mul_pos (factorial_pos l) (factorial_pos r)) binomials.symm

/-- Each tuple below `n` has one term: the left factor determines the right one and the
coefficient. -/
theorem existsUnique_of_forall₂ {l : Orders} (hl : List.Forall₂ (· ≤ ·) l n) :
    ∃! term, term ∈ row ∧ (complete n.length o).derivatives[term.key.left]? = some l := by
  have hsum := exponent_add_sub hl
  obtain ⟨term, ht, hk, -⟩ := h.exists_mem (factorial_pos n.exponent).ne'
    (x := (l.exponent, Orders.exponent (List.zipWith (· - ·) n l))) hsum
  have at_left : (complete n.length o).derivatives[term.key.left]? = some l := by
    rw [hk]
    refine (getElem?_place (hn.of_add_eq hsum).1).trans ?_
    rw [← hl.length_eq, tuple_exponent]
  refine ⟨term, ⟨ht, at_left⟩, ?_⟩
  rintro term' ⟨ht', hl'⟩
  obtain ⟨l₁, -, h₁, h₁', h₁''⟩ := exists_orders_of_mem hn h ht
  obtain ⟨l₂, -, h₂, h₂', h₂''⟩ := exists_orders_of_mem hn h ht'
  obtain rfl : l₁ = l := Option.some.inj (h₁.symm.trans at_left)
  obtain rfl : l₂ = l₁ := Option.some.inj (h₂.symm.trans hl')
  have left := (slotOf_of_getElem? h₂).symm.trans (slotOf_of_getElem? h₁)
  have right := (slotOf_of_getElem? h₂').symm.trans (slotOf_of_getElem? h₁')
  cases term; cases term'
  congr 1
  · exact h₂''.trans h₁''.symm
  · exact SlotPair.mk.injEq .. |>.mpr ⟨left, right⟩

theorem length_row : row.length = (n.map (· + 1)).prod := by
  rw [(h.perm (factorial_pos n.exponent).ne' (A := antidiagonal n.exponent)
    (fun x => mem_antidiagonal) ?_ ?_).length_eq, List.length_map, Finset.length_toList,
    card_antidiagonal]
  · exact fun x y hx hy he => IsLeibnizRow.places_injective hn hx hy he
  · exact fun x _ => Nat.mul_pos (factorial_pos x.1) (factorial_pos x.2)

end Row

theorem isProductRow_of_isLeibnizRow {p o : Nat} {n : Orders} (hn : Fits p o n.exponent)
    (hl : n.length = p) {row : List ProductTerm} (h : IsLeibnizRow p o n.exponent row) :
    (complete p o).IsProductRow n row := by
  subst hl
  exact ⟨h.nodup_row, fun l hl => existsUnique_of_forall₂ hn h hl,
    fun term ht => exists_orders_of_mem hn h ht, length_row hn h,
    fun term ht => IsLeibnizRow.slots_lt hn h ht⟩

/-- **The product table is the Leibniz rule**, in every table that is built: there is one row
for each slot, and it has the terms of the orders of the slot. -/
theorem isProductRow_of_built {p o : Nat} {t : Tables} (h : Built p o t) :
    t.product.length = t.size ∧
      ∀ (i : Nat) (n : Orders), t.derivatives[i]? = some n →
        ∃ row, t.product[i]? = some row ∧ t.IsProductRow n row := by
  obtain rfl := h.eq_complete
  refine ⟨length_product p o, fun i n hn => ?_⟩
  obtain ⟨hfit, rfl⟩ := place_of_getElem? hn
  obtain ⟨row, hrow, hr⟩ := isLeibnizRow_product hfit
  exact ⟨row, hrow, isProductRow_of_isLeibnizRow hfit (mem_of_getElem? hn).1 hr⟩

/-- The mixed derivative of a product of two functions of two parameters. -/
theorem isProductRow_mixed : Built 2 2 (complete 2 2) ∧
    (complete 2 2).IsProductRow [1, 1] [⟨1, 0, 4⟩, ⟨1, 3, 1⟩, ⟨1, 1, 3⟩, ⟨1, 4, 0⟩] := by
  refine ⟨built_complete 2 2, ?_⟩
  obtain ⟨row, hrow, h⟩ := (isProductRow_of_built (built_complete 2 2)).2 4 [1, 1] (by decide)
  have there : (complete 2 2).product[4]? =
      some [⟨1, 0, 4⟩, ⟨1, 3, 1⟩, ⟨1, 1, 3⟩, ⟨1, 4, 0⟩] := by decide
  exact Option.some.inj (hrow.symm.trans there) ▸ h

end Tables

end JetAlgebra
