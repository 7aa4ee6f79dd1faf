import JetAlgebra.Proofs.TableLimits
import JetAlgebra.Registry

/-!
# Filling a grid of compiled rules

A grid is `Sound` if it is rectangular, its filled cells are downward closed, and every filled
cell holds the complete tables of its place.  `Fills p o g rest` says how far the rectangle up
to `(p, o)` is filled when the cells `rest` are still to be looked at.  Diagonals come in
increasing order, so both neighbours of the next cell are there (`Fills.neighbours`), and what
is built from them are the complete tables, whatever the limits.

`Filling.fillCell_cases` is all that looking at a cell can do.  From it follow the steps of
interleaved lookups and, by induction, what a whole `Filling.fill` does (`Filling.fill_spec`).
-/
namespace JetAlgebra
open Tables

namespace Grid
variable {g g' : Grid} {p o q k rows columns : Nat}

/-! ## Cells -/

/-- A grid of so many rows with so many cells each. -/
structure Rectangular (g : Grid) (rows columns : Nat) : Prop where
  rows : g.length = rows
  columns : ∀ row ∈ g, row.length = columns

theorem cell?_eq_some_iff {r : Rules} :
    g.cell? p o = some r ↔ ∃ row, g[p]? = some row ∧ row[o]? = some (some r) := by
  rw [cell?, Option.join_eq_some_iff, Option.bind_eq_some_iff]

theorem cell?_of_getElem? {row : List (Option Rules)} (h : g[p]? = some row) :
    g.cell? p o = row[o]?.join := by
  rw [cell?, h, Option.bind_some]

theorem Rectangular.lt_of_cell? (h : g.Rectangular rows columns) {r : Rules}
    (hr : g.cell? p o = some r) : p < rows ∧ o < columns := by
  obtain ⟨row, hp, ho⟩ := cell?_eq_some_iff.mp hr
  obtain ⟨hlt, rfl⟩ := List.getElem?_eq_some_iff.mp hp
  rw [← h.rows, ← h.columns _ (List.getElem_mem hlt)]
  exact ⟨hlt, (List.getElem?_eq_some_iff.mp ho).1⟩

theorem Rectangular.set (h : g.Rectangular rows columns) (p o : Nat) (r : Rules) :
    (g.set p o r).Rectangular rows columns := by
  refine ⟨(List.length_modify ..).trans h.rows, fun row hrow => ?_⟩
  obtain ⟨i, hi, rfl⟩ := List.mem_iff_getElem.mp hrow
  simp only [Grid.set, List.getElem_modify]
  split
  · rw [List.length_set, h.columns _ (List.getElem_mem _)]
  · exact h.columns _ (List.getElem_mem _)

/-- **Setting a cell** changes no other cell. -/
theorem Rectangular.cell?_set (h : g.Rectangular rows columns) (hp : p < rows) (ho : o < columns)
    (r : Rules) (q k : Nat) :
    (g.set p o r).cell? q k = if q = p ∧ k = o then some r else g.cell? q k := by
  by_cases hq : q = p
  · subst hq
    have hlt : q < g.length := h.rows ▸ hp
    have hcol : (g[q]).length = columns := h.columns _ (List.getElem_mem hlt)
    have row : (g.set q o r)[q]? = some ((g[q]).set o (some r)) := by
      rw [Grid.set, List.getElem?_modify, List.getElem?_eq_getElem hlt]
      exact congrArg some (if_pos rfl)
    rw [cell?_of_getElem? row, cell?_of_getElem? (List.getElem?_eq_getElem hlt),
      List.getElem?_set, hcol]
    by_cases hk : k = o
    · rw [if_pos hk.symm, if_pos ho, if_pos ⟨rfl, hk⟩, Option.join_some]
    · rw [if_neg (Ne.symm hk), if_neg fun h => hk h.2]
  · have row : (g.set p o r)[q]? = g[q]? := by
      rw [Grid.set, List.getElem?_modify]
      simp only [if_neg (Ne.symm hq)]
      exact Option.map_id'
    rw [if_neg fun h => hq h.1, cell?, cell?, row]

theorem rectangular_enlarge (g : Grid) (p o : Nat) : (g.enlarge p o).Rectangular
    (max p (g.length - 1) + 1) (max o ((g.headD []).length - 1) + 1) := by
  refine ⟨(List.length_map _).trans List.length_range, fun row hrow => ?_⟩
  obtain ⟨q, -, rfl⟩ := List.mem_map.mp hrow
  rw [List.length_map, List.length_range]

/-- **A larger grid has the same cells.** -/
theorem Rectangular.cell?_enlarge (h : g.Rectangular rows columns) (p o q k : Nat) :
    (g.enlarge p o).cell? q k = g.cell? q k := by
  have inside : ∀ r, g.cell? q k = some r →
      q < max p (g.length - 1) + 1 ∧ k < max o ((g.headD []).length - 1) + 1 := by
    intro r hr
    obtain ⟨hq, hk⟩ := h.lt_of_cell? hr
    have rows : g.length = rows := h.rows
    have columns : (g.headD []).length = columns := by
      cases g with
      | nil => exact absurd hq (by rw [← rows]; exact Nat.not_lt_zero q)
      | cons row g => exact h.columns row List.mem_cons_self
    omega
  refine Option.ext fun r => ?_
  constructor
  · intro hr
    obtain ⟨hq, hk⟩ := (rectangular_enlarge g p o).lt_of_cell? hr
    have row : (g.enlarge p o)[q]? = some ((List.range (max o ((g.headD []).length - 1) + 1)).map
        fun k => g.cell? q k) := by
      rw [enlarge, List.getElem?_map, List.getElem?_range hq, Option.map_some]
    rwa [cell?_of_getElem? row, List.getElem?_map, List.getElem?_range hk, Option.map_some,
      Option.join_some] at hr
  · intro hr
    obtain ⟨hq, hk⟩ := inside r hr
    refine cell?_eq_some_iff.mpr ⟨(List.range (max o ((g.headD []).length - 1) + 1)).map
      fun k => g.cell? q k, ?_, ?_⟩
    · rw [enlarge, List.getElem?_map, List.getElem?_range hq, Option.map_some]
    · rw [List.getElem?_map, List.getElem?_range hk, Option.map_some, hr]

/-! ## Diagonals -/

theorem mem_diagonals : (q, k) ∈ diagonals p o ↔ q ≤ p ∧ k ≤ o := by
  simp only [diagonals, List.mem_flatMap, List.mem_map, List.mem_filter, List.mem_range,
    decide_eq_true_eq, Prod.mk.injEq]
  constructor
  · rintro ⟨d, hd, k, ⟨hk, hp⟩, rfl, rfl⟩
    omega
  · rintro ⟨hq, hk⟩
    exact ⟨q + k, by omega, k, by omega, by omega, rfl⟩

/-- **Diagonals come in increasing order.** -/
theorem pairwise_diagonals (p o : Nat) :
    (diagonals p o).Pairwise fun a b => a.1 + a.2 ≤ b.1 + b.2 := by
  have diagonal : ∀ {d : Nat} {c : Nat × Nat}, c ∈ ((List.range (min o d + 1)).filter
      fun k => d ≤ p + k).map (fun k => (d - k, k)) → c.1 + c.2 = d := by
    intro d c hc
    obtain ⟨k, hk, rfl⟩ := List.mem_map.mp hc
    have := List.mem_range.mp (List.mem_filter.mp hk).1
    simp only
    omega
  refine List.pairwise_flatMap.mpr ⟨fun d _ => ?_, ?_⟩
  · exact List.pairwise_of_forall_mem_list fun a ha b hb => by rw [diagonal ha, diagonal hb]
  · refine List.pairwise_lt_range.imp fun {d e} hde a ha b hb => ?_
    rw [diagonal ha, diagonal hb]
    exact Nat.le_of_lt hde

example : diagonals 1 2 = [(0, 0), (1, 0), (0, 1), (1, 1), (0, 2), (1, 2)] := by decide

/-! ## Sound grids -/

/-- **Grids that can be published.** -/
structure Sound (g : Grid) : Prop where
  rectangular : ∃ rows columns, g.Rectangular rows columns
  downward : ∀ {p o q k}, q ≤ p → k ≤ o → (g.cell? p o).isSome → (g.cell? q k).isSome
  canonical : ∀ {p o r}, g.cell? p o = some r → r.tables = complete p o

theorem sound_nil : Sound [] where
  rectangular := ⟨0, 0, rfl, fun _ h => absurd h List.not_mem_nil⟩
  downward _ _ h := absurd h Bool.false_ne_true
  canonical h := absurd h (Option.some_ne_none _).symm

/-- The filled cells of a grid stay as they are. -/
def Keeps (g g' : Grid) : Prop := ∀ ⦃p o r⦄, g.cell? p o = some r → g'.cell? p o = some r

theorem Keeps.refl (g : Grid) : Keeps g g := fun _ _ _ h => h

theorem Keeps.trans {g₁ g₂ g₃ : Grid} (h : Keeps g₁ g₂) (h' : Keeps g₂ g₃) : Keeps g₁ g₃ :=
  fun _ _ _ hr => h' (h hr)

theorem Keeps.isSome (h : Keeps g g') (hr : (g.cell? p o).isSome) : (g'.cell? p o).isSome := by
  obtain ⟨r, hr⟩ := Option.isSome_iff_exists.mp hr
  exact Option.isSome_iff_exists.mpr ⟨r, h hr⟩

/-! ## Grids on the way -/

/-- **How far the rectangle up to `(p, o)` is filled** when the cells `rest` are still to be
looked at. -/
structure Fills (p o : Nat) (g : Grid) (rest : List (Nat × Nat)) : Prop where
  sound : g.Sound
  reaches : ∃ rows columns, g.Rectangular rows columns ∧ p < rows ∧ o < columns
  suffix : rest <:+ diagonals p o
  filled : ∀ {q k}, q ≤ p → k ≤ o → (q, k) ∉ rest → (g.cell? q k).isSome

namespace Fills
variable {rest : List (Nat × Nat)}

/-- **It starts from an enlarged grid**, which keeps the cells. -/
theorem start (h : g.Sound) (p o : Nat) :
    Fills p o (g.enlarge p o) (diagonals p o) ∧ Keeps g (g.enlarge p o) := by
  obtain ⟨rows, columns, shape⟩ := h.rectangular
  have cells := shape.cell?_enlarge p o
  refine ⟨⟨⟨⟨_, _, rectangular_enlarge g p o⟩, ?_, ?_⟩, ?_, List.suffix_rfl, ?_⟩,
    fun q k r hr => (cells q k).trans hr⟩
  · intro p o q k hq hk hs
    rw [cells] at hs ⊢
    exact h.downward hq hk hs
  · intro q k r hr
    rw [cells] at hr
    exact h.canonical hr
  · exact ⟨_, _, rectangular_enlarge g p o, by omega, by omega⟩
  · exact fun hq hk hn => absurd (mem_diagonals.mpr ⟨hq, hk⟩) hn

variable (h : Fills p o g ((q, k) :: rest))
include h

theorem le : q ≤ p ∧ k ≤ o := mem_diagonals.mp (h.suffix.subset List.mem_cons_self)

/-- A cell of a smaller diagonal is filled. -/
theorem isSome_of_lt {q' k' : Nat} (hq : q' ≤ p) (hk : k' ≤ o) (hd : q' + k' < q + k) :
    (g.cell? q' k').isSome := by
  refine h.filled hq hk fun hmem => ?_
  -- All that is left is on this diagonal or on a larger one.
  have order := (pairwise_diagonals p o).sublist h.suffix.sublist
  rcases List.mem_cons.mp hmem with he | hmem
  · rw [Prod.mk.injEq] at he
    omega
  · have := (List.pairwise_cons.mp order).1 _ hmem
    simp only at this
    omega

/-- **Both neighbours of the next cell are there**, with their complete tables. -/
theorem neighbours :
    (q ≠ 0 → ∃ r, g.cell? (q - 1) k = some r ∧ r.tables = complete (q - 1) k) ∧
      (k ≠ 0 → ∃ r, g.cell? q (k - 1) = some r ∧ r.tables = complete q (k - 1)) := by
  obtain ⟨hq, hk⟩ := h.le
  constructor
  · intro hne
    have there : (g.cell? (q - 1) k).isSome := h.isSome_of_lt (by omega) hk (by omega)
    obtain ⟨r, hr⟩ := Option.isSome_iff_exists.mp there
    exact ⟨r, hr, h.sound.canonical hr⟩
  · intro hne
    have there : (g.cell? q (k - 1)).isSome := h.isSome_of_lt hq (by omega) (by omega)
    obtain ⟨r, hr⟩ := Option.isSome_iff_exists.mp there
    exact ⟨r, hr, h.sound.canonical hr⟩

/-- A cell that is filled already is passed. -/
theorem skip (hs : (g.cell? q k).isSome) : Fills p o g rest where
  sound := h.sound
  reaches := h.reaches
  suffix := (List.suffix_cons _ _).trans h.suffix
  filled {q' k'} hq hk hn := by
    by_cases he : (q', k') = (q, k)
    · obtain ⟨rfl, rfl⟩ := Prod.mk.inj he
      exact hs
    · exact h.filled hq hk fun hmem => (List.mem_cons.mp hmem).elim he hn

/-- The grid with the next cell filled. -/
theorem cell?_set (r : Rules) (q' k' : Nat) :
    (g.set q k r).cell? q' k' = if q' = q ∧ k' = k then some r else g.cell? q' k' := by
  obtain ⟨rows, columns, shape, hp, ho⟩ := h.reaches
  obtain ⟨hq, hk⟩ := h.le
  exact shape.cell?_set (by omega) (by omega) r q' k'

theorem keeps_set (hn : g.cell? q k = none) (r : Rules) : Keeps g (g.set q k r) := by
  intro q' k' r' hr'
  rw [h.cell?_set, if_neg, hr']
  rintro ⟨rfl, rfl⟩
  exact Option.some_ne_none _ (hr'.symm.trans hn)

/-- **A cell that is filled with its complete tables** is one less to look at. -/
theorem set (hn : g.cell? q k = none) {r : Rules} (hr : r.tables = complete q k) :
    Fills p o (g.set q k r) rest := by
  obtain ⟨rows, columns, shape, hp, ho⟩ := h.reaches
  obtain ⟨hq, hk⟩ := h.le
  have kept := h.keeps_set hn r
  have there : ((g.set q k r).cell? q k).isSome := by
    rw [h.cell?_set, if_pos ⟨rfl, rfl⟩]
    rfl
  refine ⟨⟨⟨rows, columns, shape.set q k r⟩, ?_, ?_⟩, ⟨rows, columns, shape.set q k r, hp, ho⟩,
    (List.suffix_cons _ _).trans h.suffix, ?_⟩
  · intro p' o' q' k' hq' hk' hs
    by_cases he : p' = q ∧ o' = k
    · obtain ⟨rfl, rfl⟩ := he
      -- Below the new cell everything is on a smaller diagonal.
      by_cases he' : q' = p' ∧ k' = o'
      · obtain ⟨rfl, rfl⟩ := he'
        exact there
      · exact kept.isSome (h.isSome_of_lt (by omega) (by omega) (by omega))
    · rw [h.cell?_set, if_neg he] at hs
      exact kept.isSome (h.sound.downward hq' hk' hs)
  · intro q' k' r' hr'
    rw [h.cell?_set] at hr'
    split at hr'
    · next he =>
      obtain ⟨rfl, rfl⟩ := he
      rw [← Option.some.inj hr', hr]
    · exact h.sound.canonical hr'
  · intro q' k' hq' hk' hn'
    by_cases he : (q', k') = (q, k)
    · obtain ⟨rfl, rfl⟩ := Prod.mk.inj he
      exact there
    · exact kept.isSome (h.filled hq' hk' fun hmem => (List.mem_cons.mp hmem).elim he hn')

end Fills

/-- **In the end the signature is there**, with its complete tables, and no default is taken for
it. -/
theorem Fills.exists_rules (h : Fills p o g []) : ∃ r, g.cell? p o = some r ∧
    (g.cell? p o).getD default = r ∧ r.tables = complete p o := by
  obtain ⟨r, hr⟩ := Option.isSome_iff_exists.mp (h.filled le_rfl le_rfl List.not_mem_nil)
  exact ⟨r, hr, by rw [hr, Option.getD_some], h.sound.canonical hr⟩

end Grid

/-! ## What looking at a cell does -/

namespace Filling
open Grid
variable {limits : BuildLimits} {f f' : Filling} {fault : Option BuildFault} {p o q k : Nat}
  {rest : List (Nat × Nat)}

/-- The next cell is built from complete tables. -/
theorem buildCell_eq (h : Fills p o f.grid ((q, k) :: rest)) :
    f.buildCell limits q k = build? limits q k (complete (q - 1) k) (complete q (k - 1)) := by
  obtain ⟨value, derivative⟩ := h.neighbours
  refine build?_congr (fun hq => ?_) fun hk => ?_
  · obtain ⟨r, hr, ht⟩ := value hq
    simp only [hr, Option.map_some, Option.getD_some, ht]
  · obtain ⟨r, hr, ht⟩ := derivative hk
    simp only [hr, Option.map_some, Option.getD_some, ht]

/-- **All that looking at a cell can do**: pass it, fill it, or refuse. -/
theorem fillCell_cases (h : Fills p o f.grid ((q, k) :: rest))
    (hf : f.fillCell limits q k = (f', fault)) :
    (fault = none ∧ (f.grid.cell? q k).isSome ∧ f' = f) ∨
    (fault = none ∧ f.grid.cell? q k = none ∧ (complete q k).Within limits ∧
      f' = ⟨f.grid.set q k ⟨f.nextSerial, complete q k⟩, f.nextSerial + 1,
        f.events ++ [.compiled q k (complete q k).size]⟩) ∨
    (∃ reason, fault = some reason ∧ f.grid.cell? q k = none ∧ ¬ (complete q k).Within limits ∧
      f' = { f with events := f.events ++ reason.event?.toList }) := by
  rw [fillCell] at hf
  split at hf
  · next r hr =>
    cases hf
    exact Or.inl ⟨rfl, by rw [hr]; rfl, rfl⟩
  · next hn =>
    rw [buildCell_eq h] at hf
    rcases build?_complete_cases limits q k with ⟨refused, reason, failed⟩ | ⟨fits, built⟩
    · rw [failed] at hf
      cases hf
      exact Or.inr (Or.inr ⟨reason, rfl, hn, refused, rfl⟩)
    · rw [built] at hf
      cases hf
      exact Or.inr (Or.inl ⟨rfl, hn, fits, rfl⟩)

/-- **Filling cells in turn** keeps the cells that were there and fills the others, unless one
of them does not fit. -/
theorem fill_spec (h : Fills p o f.grid rest) (hf : f.fill limits rest = (f', fault)) :
    Keeps f.grid f'.grid ∧ f.nextSerial ≤ f'.nextSerial ∧
      (fault = none → Fills p o f'.grid []) ∧
      (fault = none ↔ ∀ c ∈ rest, f.grid.cell? c.1 c.2 = none →
        (complete c.1 c.2).Within limits) := by
  induction rest generalizing f with
  | nil =>
    cases hf
    exact ⟨Keeps.refl _, le_rfl, fun _ => h, by simp⟩
  | cons c rest ih =>
    obtain ⟨q, k⟩ := c
    rw [fill] at hf
    rcases hc : f.fillCell limits q k with ⟨f₁, fault₁⟩
    rw [hc] at hf
    rcases fillCell_cases h hc with ⟨rfl, there, rfl⟩ | ⟨rfl, hn, fits, rfl⟩ |
      ⟨reason, rfl, hn, refused, rfl⟩
    · obtain ⟨kept, serial, filled, fits⟩ := ih (h.skip there) hf
      refine ⟨kept, serial, filled, fits.trans ?_⟩
      rw [List.forall_mem_cons, and_iff_right fun hn => ?_]
      rw [hn] at there
      cases there
    · obtain ⟨kept, serial, filled, fits'⟩ := ih (h.set hn rfl) hf
      have before := h.keeps_set hn ⟨f.nextSerial, complete q k⟩
      refine ⟨before.trans kept, Nat.le_of_succ_le serial, filled, fits'.trans ?_⟩
      rw [List.forall_mem_cons, and_iff_right fun _ => fits]
      refine forall₂_congr fun c _ => ?_
      rw [h.cell?_set]
      split
      · next he =>
        simp only [he.1, he.2, hn, forall_const, reduceCtorEq, false_implies, fits]
      · rfl
    · cases hf
      refine ⟨Keeps.refl _, le_rfl, fun h => absurd h (Option.some_ne_none _), ?_⟩
      exact ⟨fun h => absurd h (Option.some_ne_none _),
        fun all => absurd (all _ List.mem_cons_self hn) refused⟩

end Filling

end JetAlgebra
