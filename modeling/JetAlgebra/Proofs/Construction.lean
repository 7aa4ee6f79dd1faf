import JetAlgebra.Proofs.Layout
import JetAlgebra.Proofs.Outcome

/-!
# Tables that are built are the complete ones

`Tables.build?` starts from whatever tables it is given for the two neighbours, and it may
refuse.  `Tables.Built` are the tables that come out when it is only given tables that it
built itself, each time under limits of its own.  They are `Tables.complete`
(`Tables.Built.eq_complete`), so limits decide whether there are tables but not which; and
every signature has limits that are wide enough (`Tables.built_complete`).
-/
namespace JetAlgebra

namespace ChainTerm

theorem termCount_cons (row : List ChainTerm) (rows : List (List ChainTerm)) :
    termCount (row :: rows) = row.length + termCount rows := rfl

theorem termCount_append (rows rows' : List (List ChainTerm)) :
    termCount (rows ++ rows') = termCount rows + termCount rows' := by
  induction rows with
  | nil => exact (Nat.zero_add _).symm
  | cons row rows ih => rw [List.cons_append, termCount_cons, ih, termCount_cons, Nat.add_assoc]

/-- **Counting does not change the rows.**  They are built exactly if all of them together,
with the terms that were there before, stay within the limit. -/
theorem extendRows?_eq_ok_iff {limit : Nat} {r : Renumbering} {count : Nat}
    {rows built : List (List ChainTerm)} :
    extendRows? limit r count rows = .ok built ↔
      built = rows.map (differentiateRow r) ∧ count + termCount built ≤ limit := by
  induction rows generalizing count built with
  | nil =>
    rw [extendRows?, List.map_nil]
    by_cases hc : limit < count
    · rw [if_pos hc]
      exact ⟨fun h => (nomatch h), fun ⟨hb, h⟩ => by subst hb; simp [termCount] at h; omega⟩
    · rw [if_neg hc]
      constructor
      · intro h; cases h; exact ⟨rfl, by simp [termCount]; omega⟩
      · rintro ⟨rfl, _⟩; rfl
  | cons row rows ih =>
    rw [extendRows?, List.map_cons]
    by_cases hc : limit < count
    · rw [if_pos hc]
      exact ⟨fun h => (nomatch h), fun ⟨_, h⟩ => by omega⟩
    · rw [if_neg hc]
      constructor
      · intro h
        obtain ⟨rest, hr, h⟩ := bind_eq_ok_iff.mp h
        obtain ⟨rfl, hle⟩ := ih.mp hr
        cases h
        exact ⟨rfl, by rw [termCount_cons]; omega⟩
      · rintro ⟨rfl, hle⟩
        rw [termCount_cons] at hle
        exact bind_eq_ok (ih.mpr ⟨rfl, by omega⟩) rfl

end ChainTerm

namespace Tables
open ChainTerm

/-- The composition rows are those of `join`, if there are not too many terms. -/
theorem compositionRows?_eq_ok_iff {limit p o : Nat} {value derivative : Tables}
    {rows : List (List ChainTerm)} :
    compositionRows? limit p o value derivative = .ok rows ↔
      rows = (join p o value derivative).composition ∧ termCount rows ≤ limit := by
  rw [compositionRows?]
  constructor
  · intro h
    split at h
    · next new hn =>
      obtain ⟨rfl, hle⟩ := extendRows?_eq_ok_iff.mp hn
      cases h
      exact ⟨rfl, by rw [termCount_append]; exact hle⟩
    · cases h
  · rintro ⟨rfl, hle⟩
    have fits := Nat.le_trans (Nat.le_of_eq (termCount_append ..).symm) hle
    have hn := extendRows?_eq_ok_iff.mpr ⟨rfl, fits⟩
    simp only [hn]
    rfl

/-- **Tables that are built from tables that are built.**  A signature without parameters
needs no value part, and one of order `0` no derivative part. -/
inductive Built : Nat → Nat → Tables → Prop where
  | step {limits : BuildLimits} {p o : Nat} {value derivative t : Tables}
      (hv : p ≠ 0 → Built (p - 1) o value) (hd : o ≠ 0 → Built p (o - 1) derivative)
      (h : build? limits p o value derivative = .ok t) : Built p o t

/-- The last check does not change the tables. -/
theorem build?_eq_ok_iff {limits : BuildLimits} {p o : Nat} {value derivative t : Tables} :
    build? limits p o value derivative = .ok t ↔
      assemble? limits value derivative p o = .ok t ∧
        (Weighted.largest t.composition : Int) ≤ limits.indexMax := by
  rw [build?]
  constructor
  · intro h
    obtain ⟨t', ha, h⟩ := bind_eq_ok_iff.mp h
    simp only at h
    split at h
    · cases h
    · next hl => cases h; exact ⟨ha, Int.not_lt.mp hl⟩
  · rintro ⟨ha, hl⟩
    refine bind_eq_ok ha ?_
    simp only [if_neg (Int.not_lt.mpr hl)]
    rfl

/-- A jet of order `0` is a single slot, if that is not too much. -/
theorem assemble?_edge_eq_ok_iff {limits : BuildLimits} {p : Nat} {value derivative t : Tables} :
    assemble? limits value derivative (p + 1) 0 = .ok t ↔
      (value.sizesAbove.count (p + 1) 0 : Int) ≤ limits.indexMax ∧
        t = single (p + 1) 0 value.sizesAbove := by
  rw [assemble?]
  by_cases hn : limits.indexMax < (value.sizesAbove.count (p + 1) 0 : Int)
  · simp only [if_pos hn]
    exact ⟨fun h => (nomatch h), fun ⟨h, _⟩ => absurd hn (Int.not_lt.mpr h)⟩
  · simp only [if_neg hn]
    constructor
    · intro h; cases h; exact ⟨Int.not_lt.mp hn, rfl⟩
    · rintro ⟨_, rfl⟩; rfl

/-- Apart from the limits, assembling joins the neighbours. -/
theorem assemble?_cell_eq_ok_iff {limits : BuildLimits} {p o : Nat}
    {value derivative t : Tables} :
    assemble? limits value derivative (p + 1) (o + 1) = .ok t ↔
      (value.sizesAbove.count (p + 1) (o + 1) : Int) ≤ limits.indexMax ∧
        t = join p o value derivative ∧ termCount t.composition ≤ limits.maxTerms := by
  rw [assemble?]
  by_cases hn : limits.indexMax < (value.sizesAbove.count (p + 1) (o + 1) : Int)
  · simp only [if_pos hn]
    exact ⟨fun h => (nomatch h), fun ⟨h, _⟩ => absurd hn (Int.not_lt.mpr h)⟩
  · simp only [if_neg hn]
    constructor
    · intro h
      obtain ⟨rows, hr, h⟩ := bind_eq_ok_iff.mp h
      obtain ⟨rfl, hle⟩ := compositionRows?_eq_ok_iff.mp hr
      cases h
      exact ⟨Int.not_lt.mp hn, rfl, hle⟩
    · rintro ⟨_, rfl, hle⟩
      exact bind_eq_ok (compositionRows?_eq_ok_iff.mpr ⟨rfl, hle⟩) rfl

/-- **The limits do not change the tables.** -/
theorem Built.eq_complete {p o : Nat} {t : Tables} (h : Built p o t) : t = complete p o := by
  -- The neighbours have the same tables by induction, whatever limits they were built under.
  induction h with
  | @step limits p o value derivative t _ _ h hv hd =>
    have ha := (build?_eq_ok_iff.mp h).1
    cases p with
    | zero => cases ha; rfl
    | succ p =>
      obtain rfl := hv (Nat.succ_ne_zero p)
      cases o with
      | zero =>
        obtain ⟨_, rfl⟩ := assemble?_edge_eq_ok_iff.mp ha
        rfl
      | succ o =>
        obtain rfl := hd (Nat.succ_ne_zero o)
        obtain ⟨_, rfl, _⟩ := assemble?_cell_eq_ok_iff.mp ha
        rfl

/-- Limits within which given tables can be built. -/
def wideLimits (t : Tables) : BuildLimits where
  indexMax := max t.size (Weighted.largest t.composition)
  maxTerms := termCount t.composition

/-- The slots that are counted before the tables are put together. -/
theorem count_sizesAbove (p o : Nat) :
    (complete p o).sizesAbove.count (p + 1) o = (complete (p + 1) o).size := by
  rw [size, sizesAbove, sizes_complete, sizes_complete, Sizes.extend_binomials,
    parameters_complete, order_complete]

theorem build?_wideLimits (p o : Nat) :
    build? (wideLimits (complete p o)) p o (complete (p - 1) o) (complete p (o - 1)) =
      .ok (complete p o) := by
  refine build?_eq_ok_iff.mpr ⟨?_, Int.le_max_right _ _⟩
  cases p with
  | zero => rfl
  | succ p =>
    have fits : ((complete p o).sizesAbove.count (p + 1) o : Int) ≤
        (wideLimits (complete (p + 1) o)).indexMax := count_sizesAbove p o ▸ Int.le_max_left _ _
    cases o with
    | zero => exact assemble?_edge_eq_ok_iff.mpr ⟨fits, rfl⟩
    | succ o => exact assemble?_cell_eq_ok_iff.mpr ⟨fits, rfl, Nat.le_refl _⟩

/-- **Every signature has tables that are built.** -/
theorem built_complete : ∀ p o, Built p o (complete p o)
  | 0, 0 => .step (fun h => absurd rfl h) (fun h => absurd rfl h) (build?_wideLimits 0 0)
  | 0, o + 1 =>
    .step (fun h => absurd rfl h) (fun _ => built_complete 0 o) (build?_wideLimits 0 (o + 1))
  | p + 1, 0 =>
    .step (fun _ => built_complete p 0) (fun h => absurd rfl h) (build?_wideLimits (p + 1) 0)
  | p + 1, o + 1 =>
    .step (fun _ => built_complete p (o + 1)) (fun _ => built_complete (p + 1) o)
      (build?_wideLimits (p + 1) (o + 1))

end Tables

end JetAlgebra
