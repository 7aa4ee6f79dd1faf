import Mathlib
import JetAlgebra.Tables.Weighted

/-!
# The weight of a key in a row

A row of a table is a formal sum, and `Weighted.weight` is the coefficient of a key in it:
the sum over all terms that have the key.  Merging terms keeps the weight of every key
(`weight_combine`), so what a row says can be computed on the terms before they are merged.

`Expands` is what both rule tables say about a row, for their own keys: the terms go with the
members of a set of indices, and each coefficient is a fixed total divided by a number that
belongs to the index.  The division is written as a product, so no remainder has to be
discussed.  `expands_combine` concludes it from the weights alone.
-/
namespace JetAlgebra.Weighted
variable {κ : Type} [DecidableEq κ]

/-- The coefficient of a key in a formal sum. -/
def weight (row : List (Weighted κ)) (k : κ) : Nat :=
  (row.map fun t => if t.key = k then t.coefficient else 0).sum

@[simp] theorem weight_nil (k : κ) : weight [] k = 0 := rfl

@[simp] theorem weight_cons (t : Weighted κ) (row : List (Weighted κ)) (k : κ) :
    weight (t :: row) k = (if t.key = k then t.coefficient else 0) + weight row k := rfl

theorem weight_append (row row' : List (Weighted κ)) (k : κ) :
    weight (row ++ row') k = weight row k + weight row' k := by
  rw [weight, List.map_append, List.sum_append, weight, weight]

theorem weight_flatMap (f : Weighted κ → List (Weighted κ)) (row : List (Weighted κ)) (k : κ) :
    weight (row.flatMap f) k = (row.map fun t => weight (f t) k).sum := by
  induction row with
  | nil => rfl
  | cons t row ih => rw [List.flatMap_cons, weight_append, ih, List.map_cons, List.sum_cons]

theorem weight_of_notMem {row : List (Weighted κ)} {k : κ} (h : k ∉ row.map key) :
    weight row k = 0 := by
  induction row with
  | nil => rfl
  | cons t row ih =>
    rw [List.map_cons, List.mem_cons, not_or] at h
    rw [weight_cons, if_neg fun he => h.1 he.symm, ih h.2]

theorem weight_of_mem {row : List (Weighted κ)} (hn : (row.map key).Nodup) {t : Weighted κ}
    (h : t ∈ row) : weight row t.key = t.coefficient := by
  induction row with
  | nil => cases h
  | cons u row ih =>
    rw [List.map_cons, List.nodup_cons] at hn
    rcases List.mem_cons.mp h with rfl | h
    · rw [weight_cons, if_pos rfl, weight_of_notMem hn.1, Nat.add_zero]
    · have other : u.key ≠ t.key := fun he => hn.1 (he ▸ List.mem_map_of_mem h)
      rw [weight_cons, if_neg other, ih hn.2 h, Nat.zero_add]

/-! ## Merging -/

theorem weight_absorb (row : List (Weighted κ)) (t : Weighted κ) (k : κ) :
    weight (absorb row t) k = weight row k + if t.key = k then t.coefficient else 0 := by
  induction row with
  | nil => rw [absorb, weight_cons, weight_nil, Nat.add_comm]
  | cons u row ih =>
    rw [absorb]
    by_cases hu : u.key = t.key
    · rw [if_pos hu, weight_cons, weight_cons, hu]
      by_cases hk : t.key = k
      · simp only [if_pos hk]; omega
      · simp only [if_neg hk]; omega
    · rw [if_neg hu, weight_cons, weight_cons, ih, Nat.add_assoc]

theorem weight_foldl_absorb (terms row : List (Weighted κ)) (k : κ) :
    weight (terms.foldl absorb row) k = weight row k + weight terms k := by
  induction terms generalizing row with
  | nil => rfl
  | cons t terms ih => rw [List.foldl_cons, ih, weight_absorb, weight_cons, Nat.add_assoc]

/-- **Merging keeps every weight.** -/
theorem weight_combine (terms : List (Weighted κ)) (k : κ) :
    weight (combine terms) k = weight terms k := by
  rw [combine, weight_foldl_absorb, weight_nil, Nat.zero_add]

theorem nodup_keys_combine (terms : List (Weighted κ)) : ((combine terms).map key).Nodup := by
  suffices fold : ∀ row : List (Weighted κ), (row.map key).Nodup →
      ((terms.foldl absorb row).map key).Nodup from fold [] List.nodup_nil
  induction terms with
  | nil => exact fun row hn => hn
  | cons t terms ih => exact fun row hn => ih _ (nodup_keys_absorb t hn)

theorem mem_keys_absorb (row : List (Weighted κ)) (t : Weighted κ) (k : κ) :
    k ∈ (absorb row t).map key ↔ k ∈ row.map key ∨ k = t.key := by
  induction row with
  | nil => simp [absorb]
  | cons u row ih =>
    rw [absorb]
    split
    · next hu => simp [hu, or_comm]
    · rw [List.map_cons, List.mem_cons, ih, List.map_cons, List.mem_cons, or_assoc]

theorem mem_keys_combine (terms : List (Weighted κ)) (k : κ) :
    k ∈ (combine terms).map key ↔ k ∈ terms.map key := by
  suffices fold : ∀ row : List (Weighted κ),
      k ∈ (terms.foldl absorb row).map key ↔ k ∈ row.map key ∨ k ∈ terms.map key by
    simpa [combine] using fold []
  induction terms with
  | nil => simp
  | cons t terms ih =>
    intro row
    rw [List.foldl_cons, ih, mem_keys_absorb, List.map_cons, List.mem_cons, or_assoc]

/-! ## Rows that expand a total -/

variable {ι : Type}

/-- **A row expands `total` over the indices in `P`**: its terms have different keys, these are
the places of indices, and the weight of the place of an index `x` is `total / share x`. -/
structure Expands (row : List (Weighted κ)) (P : ι → Prop) (place : ι → κ) (share : ι → Nat)
    (total : Nat) : Prop where
  nodup : (row.map key).Nodup
  keys : ∀ t ∈ row, ∃ x, P x ∧ t.key = place x
  weight : ∀ x, P x → weight row (place x) * share x = total

namespace Expands
variable {row : List (Weighted κ)} {P : ι → Prop} {place : ι → κ} {share : ι → Nat} {total : Nat}

theorem coefficient_of_mem (h : Expands row P place share total) {t : Weighted κ} (ht : t ∈ row) :
    ∃ x, P x ∧ t.key = place x ∧ t.coefficient * share x = total := by
  obtain ⟨x, hx, hk⟩ := h.keys t ht
  exact ⟨x, hx, hk, by rw [← h.weight x hx, ← hk, weight_of_mem h.nodup ht]⟩

theorem exists_mem (h : Expands row P place share total) (ht : total ≠ 0) {x : ι} (hx : P x) :
    ∃ t ∈ row, t.key = place x ∧ t.coefficient * share x = total := by
  have hw := h.weight x hx
  have mem : place x ∈ row.map key := Classical.byContradiction fun hn => ht (by
    rw [← hw, weight_of_notMem hn, Nat.zero_mul])
  obtain ⟨t, htr, hk⟩ := List.mem_map.mp mem
  exact ⟨t, htr, hk, by rw [← hw, ← hk, weight_of_mem h.nodup htr]⟩

theorem nodup_row (h : Expands row P place share total) : row.Nodup := h.nodup.of_map

/-- Only the places of the indices in `P` matter. -/
theorem congr (h : Expands row P place share total) {place' : ι → κ}
    (hp : ∀ x, P x → place x = place' x) : Expands row P place' share total where
  nodup := h.nodup
  keys t ht := by
    obtain ⟨x, hx, hk⟩ := h.keys t ht
    exact ⟨x, hx, hk.trans (hp x hx)⟩
  weight x hx := by rw [← hp x hx, h.weight x hx]

/-- **The terms go with the indices, one to one.** -/
theorem perm (h : Expands row P place share total) (ht : total ≠ 0) {A : Finset ι}
    (hA : ∀ x, x ∈ A ↔ P x) (hi : ∀ x y, P x → P y → place x = place y → x = y)
    (hs : ∀ x, P x → 0 < share x) :
    row.Perm (A.toList.map fun x => ⟨total / share x, place x⟩) := by
  have coefficient : ∀ {c x}, P x → (c * share x = total ↔ c = total / share x) := by
    intro c x hx
    constructor
    · rintro rfl; rw [Nat.mul_div_cancel _ (hs x hx)]
    · intro hc
      rw [hc, Nat.div_mul_cancel ⟨_, (Nat.mul_comm _ _).trans (h.weight x hx) |>.symm⟩]
  refine (List.perm_ext_iff_of_nodup h.nodup_row ?_).mpr fun t => ?_
  · refine (List.nodup_map_iff_inj_on A.nodup_toList).mpr fun x hx y hy he => ?_
    rw [Weighted.mk.injEq] at he
    exact hi x y ((hA x).mp (Finset.mem_toList.mp hx)) ((hA y).mp (Finset.mem_toList.mp hy)) he.2
  · simp only [List.mem_map, Finset.mem_toList, hA]
    constructor
    · intro htr
      obtain ⟨x, hx, hk, hc⟩ := h.coefficient_of_mem htr
      exact ⟨x, hx, by rw [← (coefficient hx).mp hc, ← hk]⟩
    · rintro ⟨x, hx, rfl⟩
      obtain ⟨t, htr, hk, hc⟩ := h.exists_mem ht hx
      rwa [← (coefficient hx).mp hc, ← hk]

/-- **A sum over the terms is a sum over the indices**, in any field in which the shares can be
divided by. -/
theorem sum_map (h : Expands row P place share total) (ht : total ≠ 0) {A : Finset ι}
    (hA : ∀ x, x ∈ A ↔ P x) (hi : ∀ x y, P x → P y → place x = place y → x = y)
    (hs : ∀ x, P x → 0 < share x) {K : Type} [Field K] [CharZero K] (v : κ → K) :
    (row.map fun t => (t.coefficient : K) * v t.key).sum =
      ∑ x ∈ A, (total : K) / share x * v (place x) := by
  rw [((h.perm ht hA hi hs).map fun t => (t.coefficient : K) * v t.key).sum_eq, List.map_map,
    ← Finset.sum_map_toList]
  refine congrArg List.sum (List.map_congr_left fun x hx => ?_)
  have hx := (hA x).mp (Finset.mem_toList.mp hx)
  have divides : share x ∣ total := ⟨_, (h.weight x hx).symm.trans (Nat.mul_comm _ _)⟩
  rw [Function.comp_apply, Nat.cast_div divides (Nat.cast_ne_zero.mpr (hs x hx).ne')]

end Expands

/-- **Terms expand a total as soon as their weights do.** -/
theorem expands_combine {terms : List (Weighted κ)} {P : ι → Prop} {place : ι → κ}
    {share : ι → Nat} {total : Nat} (hk : ∀ t ∈ terms, ∃ x, P x ∧ t.key = place x)
    (hw : ∀ x, P x → weight terms (place x) * share x = total) :
    Expands (combine terms) P place share total where
  nodup := nodup_keys_combine terms
  keys t ht := by
    have := (mem_keys_combine terms t.key).mp (List.mem_map_of_mem ht)
    obtain ⟨u, hu, he⟩ := List.mem_map.mp this
    obtain ⟨x, hx, hp⟩ := hk u hu
    exact ⟨x, hx, he.symm.trans hp⟩
  weight x hx := by rw [weight_combine, hw x hx]

end JetAlgebra.Weighted
