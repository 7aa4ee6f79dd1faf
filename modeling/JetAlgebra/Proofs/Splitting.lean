import JetAlgebra.Proofs.Exponent

/-!
# Splitting an exponent into parts

The derivatives of a composition are indexed by the ways to split an exponent into parts that
are not zero, where the order of the parts does not matter: `IsSplitting`.  The number of ways
in which distinct derivatives fall into such parts is `n!` over `Splitting.share`.

Differentiating once more either adds a part for the new derivative or adds it to one of the
parts (`Splitting.raises`).  Read backwards, each part of the result that has a derivative
along the last parameter comes from one splitting before (`Splitting.lowered`), in
`Splitting.ways` many ways, and `ways_mul_share` says that these ways are what the shares
need: their sum over all parts counts the derivatives along the last parameter
(`sum_order_mul_count`).
-/
namespace JetAlgebra
open Exponent

/-- **The parts of a splitting** are not zero, and together they are `n`. -/
structure IsSplitting (n : Exponent) (S : Multiset Exponent) : Prop where
  zero_notMem : 0 ∉ S
  sum_eq : S.sum = n

theorem IsSplitting.fits {p o : Nat} {n : Exponent} {S : Multiset Exponent} (hS : IsSplitting n S)
    (hn : Fits p o n) : ∀ s ∈ S, Fits p o s :=
  fun _ hs => hn.of_le (hS.sum_eq ▸ Multiset.le_sum_of_mem hs)

theorem isSplitting_zero {S : Multiset Exponent} : IsSplitting 0 S ↔ S = 0 := by
  constructor
  · intro h
    refine Multiset.eq_zero_of_forall_notMem fun s hs => h.zero_notMem ?_
    have : s ≤ 0 := h.sum_eq ▸ Multiset.le_sum_of_mem hs
    rwa [← nonpos_iff_eq_zero.mp this]
  · rintro rfl
    exact ⟨Multiset.notMem_zero 0, Multiset.sum_zero⟩

namespace Splitting

/-- The factorials of the parts, and those of the numbers of equal parts. -/
noncomputable def share (S : Multiset Exponent) : Nat :=
  (S.map factorial).prod * ∏ s ∈ S.toFinset, (S.count s).factorial

/-- All splittings with the derivative `e` added to `S`: as a new part, or to one part. -/
noncomputable def raises (e : Exponent) (S : Multiset Exponent) : Multiset (Multiset Exponent) :=
  (e ::ₘ S) ::ₘ S.map fun s => (s + e) ::ₘ S.erase s

/-- The splitting that becomes `T` when `e` is added and gives the part `x`. -/
noncomputable def lowered (e : Exponent) (T : Multiset Exponent) (x : Exponent) :
    Multiset Exponent :=
  if x = e then T.erase x else (x - e) ::ₘ T.erase x

/-- In how many ways it becomes `T`: as often as it has the part that is raised. -/
noncomputable def ways (e : Exponent) (T : Multiset Exponent) (x : Exponent) : Nat :=
  if x = e then 1 else T.count (x - e) + 1

/-! ## Shares -/

theorem prod_factorial_pos (S : Multiset Exponent) : 0 < (S.map factorial).prod := by
  refine Nat.pos_of_ne_zero fun h => ?_
  obtain ⟨s, _, hs⟩ := Multiset.mem_map.mp (Multiset.prod_eq_zero_iff.mp h)
  exact (factorial_pos s).ne' hs

theorem share_pos (S : Multiset Exponent) : 0 < share S :=
  Nat.mul_pos (prod_factorial_pos S) (Finset.prod_pos fun _ _ => Nat.factorial_pos _)

@[simp] theorem share_zero : share 0 = 1 := rfl

theorem share_cons (s : Exponent) (S : Multiset Exponent) :
    share (s ::ₘ S) = factorial s * (S.count s + 1) * share S := by
  have split : ∀ T : Multiset Exponent, T.toFinset ⊆ insert s S.toFinset →
      ∏ x ∈ T.toFinset, (T.count x).factorial =
        (T.count s).factorial * ∏ x ∈ (insert s S.toFinset).erase s, (T.count x).factorial := by
    intro T hT
    rw [Finset.mul_prod_erase _ (fun x => (T.count x).factorial) (Finset.mem_insert_self s _)]
    refine Finset.prod_subset hT fun x _ hx => ?_
    rw [Multiset.count_eq_zero_of_notMem fun hm => hx (Multiset.mem_toFinset.mpr hm),
      Nat.factorial_zero]
  have others : ∏ x ∈ (insert s S.toFinset).erase s, ((s ::ₘ S).count x).factorial =
      ∏ x ∈ (insert s S.toFinset).erase s, (S.count x).factorial :=
    Finset.prod_congr rfl fun x hx => by rw [Multiset.count_cons_of_ne (Finset.ne_of_mem_erase hx)]
  rw [share, share, split S (Finset.subset_insert _ _), split (s ::ₘ S) (by simp), others,
    Multiset.map_cons, Multiset.prod_cons, Multiset.count_cons_self, Nat.factorial_succ]
  ring

/-! ## One more derivative -/

/-- The part that is `e` itself can be new. -/
theorem sum_new_part (e : Exponent) (S T : Multiset Exponent) :
    (∑ x ∈ (T.toFinset.filter (e ≤ ·)).filter (· = e),
      if S = lowered e T x then ways e T x else 0) = if T = e ::ₘ S then 1 else 0 := by
  have alone : (T.toFinset.filter (e ≤ ·)).filter (· = e) = if e ∈ T then {e} else ∅ := by
    ext x
    split_ifs with h <;> simp only [Finset.mem_filter, Multiset.mem_toFinset,
      Finset.mem_singleton, Finset.notMem_empty, iff_false]
    · exact ⟨fun hx => hx.2, by rintro rfl; exact ⟨⟨h, le_refl _⟩, rfl⟩⟩
    · rintro ⟨⟨hx, _⟩, rfl⟩; exact h hx
  rw [alone]
  by_cases h : e ∈ T
  · rw [if_pos h, Finset.sum_singleton, lowered, ways, if_pos rfl, if_pos rfl]
    refine if_congr ⟨?_, ?_⟩ rfl rfl
    · rintro rfl; exact (Multiset.cons_erase h).symm
    · rintro rfl; exact (Multiset.erase_cons_head e S).symm
  · rw [if_neg h, Finset.sum_empty, if_neg]
    rintro rfl
    exact h (Multiset.mem_cons_self e S)

/-- Any other part was there before, and was raised. -/
theorem sum_raised_part {e : Exponent} (he : e ≠ 0) {S : Multiset Exponent} (hS : 0 ∉ S)
    (T : Multiset Exponent) :
    (∑ x ∈ (T.toFinset.filter (e ≤ ·)).filter (¬ · = e),
      if S = lowered e T x then ways e T x else 0) =
        (S.filter fun s => T = (s + e) ::ₘ S.erase s).card := by
  have other : ∀ s ∈ S, s + e ≠ e := fun s hs h => hS (add_eq_right.mp h ▸ hs)
  rw [← Multiset.toFinset_sum_count_eq, ← Finset.sum_filter]
  symm
  -- The part `x` of `T` and the part `x - e` of `S` belong together.
  refine Finset.sum_nbij' (· + e) (· - e) ?_ ?_ ?_ ?_ ?_
  · intro s hs
    obtain ⟨hs, hT⟩ := Multiset.mem_filter.mp (Multiset.mem_toFinset.mp hs)
    have hlow : lowered e T (s + e) = S := by
      rw [lowered, if_neg (other s hs), add_tsub_cancel_right, hT, Multiset.erase_cons_head,
        Multiset.cons_erase hs]
    simp only [Finset.mem_filter, Multiset.mem_toFinset]
    exact ⟨⟨⟨hT ▸ Multiset.mem_cons_self _ _, le_add_self⟩, other s hs⟩, hlow.symm⟩
  · intro x hx
    simp only [Finset.mem_filter, Multiset.mem_toFinset] at hx
    obtain ⟨⟨⟨hx, hex⟩, hne⟩, hlow⟩ := hx
    rw [lowered, if_neg hne] at hlow
    rw [Multiset.mem_toFinset, Multiset.mem_filter, hlow, Multiset.erase_cons_head,
      tsub_add_cancel_of_le hex, Multiset.cons_erase hx]
    exact ⟨Multiset.mem_cons_self _ _, rfl⟩
  · exact fun s _ => add_tsub_cancel_right s e
  · intro x hx
    simp only [Finset.mem_filter] at hx
    exact tsub_add_cancel_of_le hx.1.1.2
  · intro s hs
    obtain ⟨hs, hT⟩ := Multiset.mem_filter.mp (Multiset.mem_toFinset.mp hs)
    have hself : s ≠ s + e := fun h => he (left_eq_add.mp h)
    have hc : (S.filter fun s => T = (s + e) ::ₘ S.erase s).count s = S.count s :=
      Multiset.count_filter_of_pos hT
    rw [hc, ways, if_neg (other s hs), add_tsub_cancel_right, hT,
      Multiset.count_cons_of_ne hself, Multiset.count_erase_self]
    exact (Nat.sub_add_cancel (Multiset.count_pos.mpr hs)).symm

/-- **Where a splitting comes from.**  How often `T` is among the splittings that come from `S`
is a sum over the parts of `T`, of which each can be the one that was raised. -/
theorem count_raises {e : Exponent} (he : e ≠ 0) {S : Multiset Exponent} (hS : 0 ∉ S)
    (T : Multiset Exponent) :
    (raises e S).count T =
      ∑ x ∈ T.toFinset with e ≤ x, if S = lowered e T x then ways e T x else 0 := by
  rw [raises, Multiset.count_cons, Multiset.count_map, ← sum_new_part, ← sum_raised_part he hS,
    add_comm, Finset.sum_filter_add_sum_filter_not]

/-- **The ways and the shares.**  With the ways in which it is reached, the share of a splitting
grows by the derivatives along parameter `j` of all parts equal to the raised one. -/
theorem ways_mul_share {j : Nat} {T : Multiset Exponent} {x : Exponent} (hx : x ∈ T)
    (hj : unit j ≤ x) :
    ways (unit j) T x * share T = share (lowered (unit j) T x) * (x j * T.count x) := by
  obtain ⟨R, rfl⟩ := Multiset.exists_cons_of_mem hx
  obtain ⟨y, rfl⟩ := exists_add_unit (unit_le_iff.mp hj)
  rw [ways, lowered, share_cons, Multiset.erase_cons_head, Multiset.count_cons_self,
    factorial_add_unit, Finsupp.add_apply, unit_self, add_tsub_cancel_right]
  by_cases hy : y + unit j = unit j
  · -- The raised part is new, so no part became larger.
    obtain rfl : y = 0 := add_eq_right.mp hy
    rw [if_pos hy, if_pos hy, factorial_zero, Finsupp.zero_apply]
    ring
  · have hself : y ≠ y + unit j := fun h => unit_ne_zero j (left_eq_add.mp h)
    rw [if_neg hy, if_neg hy, share_cons, Multiset.count_cons_of_ne hself]
    ring

theorem isSplitting_lowered {e n : Exponent} {T : Multiset Exponent} (hT : IsSplitting (n + e) T)
    {x : Exponent} (hx : x ∈ T) (hex : e ≤ x) : IsSplitting n (lowered e T x) := by
  obtain ⟨R, rfl⟩ := Multiset.exists_cons_of_mem hx
  obtain ⟨y, rfl⟩ : ∃ y, x = y + e := ⟨x - e, (tsub_add_cancel_of_le hex).symm⟩
  have hsum : y + R.sum = n := by
    have h := hT.sum_eq
    rw [Multiset.sum_cons, add_right_comm] at h
    exact add_right_cancel h
  have hR : 0 ∉ R := fun h => hT.zero_notMem (Multiset.mem_cons_of_mem h)
  rw [lowered, Multiset.erase_cons_head, add_tsub_cancel_right]
  split_ifs with hy
  · obtain rfl : y = 0 := add_eq_right.mp hy
    exact ⟨hR, by rw [← hsum, zero_add]⟩
  · refine ⟨fun h => ?_, by rw [Multiset.sum_cons, hsum]⟩
    rcases Multiset.mem_cons.mp h with h | h
    · exact hy (by rw [← h, zero_add])
    · exact hR h

/-- The first of the parts is raised, or one of the others is. -/
theorem map_raise_cons (e s : Exponent) (S : Multiset Exponent) :
    (s ::ₘ S).map (fun t => (t + e) ::ₘ (s ::ₘ S).erase t) =
      ((s + e) ::ₘ S) ::ₘ (S.map fun t => (t + e) ::ₘ S.erase t).map (s ::ₘ ·) := by
  rw [Multiset.map_cons, Multiset.erase_cons_head, Multiset.map_map]
  refine congrArg _ (Multiset.map_congr rfl fun t ht => ?_)
  rw [Multiset.erase_cons_tail_of_mem ht, Multiset.cons_swap]
  rfl

theorem isSplitting_of_mem_raises {e n : Exponent} (he : e ≠ 0) {S T : Multiset Exponent}
    (hS : IsSplitting n S) (hT : T ∈ raises e S) : IsSplitting (n + e) T := by
  rcases Multiset.mem_cons.mp hT with rfl | hT
  · refine ⟨fun h => ?_, by rw [Multiset.sum_cons, hS.sum_eq, add_comm]⟩
    rcases Multiset.mem_cons.mp h with h | h
    · exact he h.symm
    · exact hS.zero_notMem h
  · obtain ⟨s, hs, rfl⟩ := Multiset.mem_map.mp hT
    refine ⟨fun h => ?_, ?_⟩
    · rcases Multiset.mem_cons.mp h with h | h
      · exact he (add_eq_zero.mp h.symm).2
      · exact hS.zero_notMem (Multiset.mem_of_mem_erase h)
    · rw [Multiset.sum_cons, add_right_comm, ← Multiset.sum_cons, Multiset.cons_erase hs, hS.sum_eq]

theorem exists_isSplitting (n : Exponent) : ∃ S, IsSplitting n S := by
  rcases eq_or_ne n 0 with rfl | hn
  · exact ⟨0, Multiset.notMem_zero 0, Multiset.sum_zero⟩
  · exact ⟨{n}, fun h => hn (Multiset.mem_singleton.mp h).symm, Multiset.sum_singleton n⟩

/-- There are no more parts than derivatives. -/
theorem card_le_degree {n : Exponent} {S : Multiset Exponent} (hS : IsSplitting n S) :
    S.card ≤ n.degree := by
  obtain ⟨hz, rfl⟩ := hS
  induction S using Multiset.induction_on with
  | empty => exact Nat.zero_le _
  | cons s S ih =>
    rw [Multiset.mem_cons, not_or] at hz
    have hs : s.degree ≠ 0 := fun h => hz.1 ((Finsupp.degree_eq_zero_iff s).mp h).symm
    rw [Multiset.card_cons, Multiset.sum_cons, map_add]
    have := ih hz.2
    omega

/-- The orders of all parts along one parameter. -/
theorem sum_order_mul_count (j : Nat) (T : Multiset Exponent) :
    ∑ x ∈ T.toFinset with unit j ≤ x, x j * T.count x = T.sum j := by
  have all : T.sum j = ∑ x ∈ T.toFinset, x j * T.count x := by
    rw [Finset.sum_multiset_count, Finsupp.finsetSum_apply]
    exact Finset.sum_congr rfl fun x _ => by rw [Finsupp.smul_apply, smul_eq_mul, Nat.mul_comm]
  rw [all]
  refine Finset.sum_subset (Finset.filter_subset _ _) fun x hx hn => ?_
  have : x j = 0 := Nat.eq_zero_of_not_pos fun h =>
    hn (Finset.mem_filter.mpr ⟨hx, unit_le_iff.mpr h⟩)
  rw [this, Nat.zero_mul]

/-! ## All splittings -/

/-- **Orderings and shares.**  Of the orderings of all parts, those of equal parts among
themselves do not count. -/
theorem countPerms_mul_share (S : Multiset Exponent) :
    S.countPerms * share S = S.card.factorial * (S.map factorial).prod := by
  have orderings : (∏ s ∈ S.toFinset, (S.count s).factorial) * S.countPerms = S.card.factorial := by
    rw [← Multiset.toFinset_sum_count_eq S]
    exact Nat.multinomial_spec S.toFinset fun s => S.count s
  rw [← orderings, share]
  ring

/-- The multisets of `k` exponents of a `(p, o)` jet that are not zero. -/
noncomputable def partLists (p o k : Nat) : Finset (Multiset Exponent) :=
  (((box p o).erase 0).sym k).image Sym.toMultiset

theorem mem_partLists {p o k : Nat} {S : Multiset Exponent} :
    S ∈ partLists p o k ↔ S.card = k ∧ ∀ s ∈ S, s ≠ 0 ∧ Fits p o s := by
  rw [partLists, Finset.mem_image]
  constructor
  · rintro ⟨m, hm, rfl⟩
    refine ⟨m.2, fun s hs => ?_⟩
    obtain ⟨hz, hb⟩ := Finset.mem_erase.mp (Finset.mem_sym_iff.mp hm s hs)
    exact ⟨hz, mem_box.mp hb⟩
  · rintro ⟨rfl, hS⟩
    refine ⟨⟨S, rfl⟩, Finset.mem_sym_iff.mpr fun s hs => ?_, rfl⟩
    exact Finset.mem_erase.mpr ⟨(hS s hs).1, mem_box.mpr (hS s hs).2⟩

/-- The splittings of an exponent of a `(p, o)` jet. -/
noncomputable def splittings (p o : Nat) (n : Exponent) : Finset (Multiset Exponent) :=
  (Finset.range (o + 1)).biUnion fun k => (partLists p o k).filter fun S => S.sum = n

theorem mem_splittings {p o : Nat} {n : Exponent} (hn : Fits p o n) {S : Multiset Exponent} :
    S ∈ splittings p o n ↔ IsSplitting n S := by
  simp only [splittings, Finset.mem_biUnion, Finset.mem_range, Finset.mem_filter, mem_partLists]
  constructor
  · rintro ⟨k, -, ⟨-, hS⟩, hsum⟩
    exact ⟨fun hz => (hS 0 hz).1 rfl, hsum⟩
  · intro hS
    have card := Nat.le_trans (card_le_degree hS) hn.order
    exact ⟨S.card, Nat.lt_succ_of_le card, ⟨rfl, fun s hs =>
      ⟨fun hz => hS.zero_notMem (hz ▸ hs), hS.fits hn s hs⟩⟩, hS.sum_eq⟩

/-- A sum over all splittings goes over the numbers of parts. -/
theorem sum_splittings {M : Type} [AddCommMonoid M] (p o : Nat) (n : Exponent)
    (v : Multiset Exponent → M) : ∑ S ∈ splittings p o n, v S =
      ∑ k ∈ Finset.range (o + 1), ∑ S ∈ (partLists p o k).filter fun S => S.sum = n, v S := by
  refine Finset.sum_biUnion fun k _ l _ hkl => Finset.disjoint_left.mpr fun S hk hl => hkl ?_
  exact (mem_partLists.mp (Finset.mem_filter.mp hk).1).1.symm.trans
    (mem_partLists.mp (Finset.mem_filter.mp hl).1).1

end Splitting

end JetAlgebra
