import JetAlgebra.Proofs.ExactJets

/-!
# Kernels have the rows they were made of

Callers hand in rows of terms that are lists of integers, and a kernel has one array for each
component.  If all entries are machine integers, flattening refuses nothing
(`ofLists?_map_toInts`).  If there is a row and no row is empty, cutting the arrays at the starts
gives the rows back (`rows_ofRows`), each slot list with nothing but padding behind it.

So what is computed from the arrays is what the rows say: `ProductKernel.Keeps` and
`CompositionKernel.Keeps`.
-/
namespace JetAlgebra
open Arithmetic Tables

/-! ## Starts -/

/-- Starts are between the first one and the end of all rows before the last. -/
theorem bounds_of_mem_runningSums {s n : Nat} {ns : List Nat} (h : n ∈ Sizes.runningSums s ns) :
    s ≤ n ∧ n ≤ s + ns.sum := by
  induction ns generalizing s with
  | nil =>
    obtain rfl := List.mem_singleton.mp h
    exact ⟨Nat.le_refl n, Nat.le_add_right n _⟩
  | cons m ns ih =>
    rw [List.sum_cons]
    rcases List.mem_cons.mp h with rfl | h
    · exact ⟨Nat.le_refl n, Nat.le_add_right n _⟩
    · have bounds := ih h
      omega

theorem pairwise_runningSums (s : Nat) {ns : List Nat} (h : ∀ n ∈ ns, 0 < n) :
    (Sizes.runningSums s ns).Pairwise (· < ·) := by
  induction ns generalizing s with
  | nil => exact List.pairwise_singleton _ s
  | cons m ns ih =>
    refine List.pairwise_cons.mpr ⟨fun n hn => ?_,
      ih (s + m) fun k hk => h k (List.mem_cons_of_mem m hk)⟩
    have positive := h m List.mem_cons_self
    have above := (bounds_of_mem_runningSums hn).1
    omega

/-- **No segment is empty**: each start is before the next one, and the last one before the end. -/
structure SegmentsAreFull (starts : List Nat) (n : Nat) : Prop where
  increasing : starts.Pairwise (· < ·)
  inside : ∀ s ∈ starts, s < n

theorem segmentsAreFull_of_ne_nil {α : Type} {rows : List (List α)} (hn : rows ≠ [])
    (hr : ∀ row ∈ rows, row ≠ []) : SegmentsAreFull (segmentStarts rows) rows.flatten.length where
  increasing := pairwise_runningSums 0 fun n hn => by
    obtain ⟨row, hrow, rfl⟩ := List.mem_map.mp hn
    exact List.length_pos_iff.mpr (hr row (List.mem_of_mem_dropLast hrow))
  inside s hs := by
    have last := List.length_pos_iff.mpr (hr _ (List.getLast_mem hn))
    have whole : rows.flatten.length =
        (rows.dropLast.map List.length).sum + (rows.getLast hn).length := by
      conv => lhs; rw [← List.dropLast_append_getLast hn]
      rw [List.flatten_append, List.length_append, List.length_flatten, List.flatten_singleton]
    have bound := (bounds_of_mem_runningSums hs).2
    omega

/-! ## Terms as lists -/

/-- A term of a product as a list of integers. -/
def ProductEntry.toInts (e : ProductEntry) : List Int := [e.coefficient, e.left, e.right]

/-- A term of a composition as a list of integers. -/
def CompositionEntry.toInts (e : CompositionEntry) : List Int :=
  e.coefficient :: e.derivative :: e.slots

/-- **Rows of machine integers**: there are some, and none is empty. -/
structure AreRows {α : Type} (toInts : α → List Int) (rows : List (List α)) : Prop where
  rows_ne_nil : rows ≠ []
  row_ne_nil : ∀ row ∈ rows, row ≠ []
  fits : ∀ row ∈ rows, ∀ e ∈ row, ∀ n ∈ toInts e, fitsMachineIndex n = true

namespace AreRows
variable {α : Type} {toInts : α → List Int} {rows : List (List α)} (h : AreRows toInts rows)
include h

theorem flatten_ne_nil : rows.flatten ≠ [] := by
  obtain ⟨row, hrow⟩ := List.exists_mem_of_ne_nil rows h.rows_ne_nil
  exact fun empty => h.row_ne_nil row hrow (List.flatten_eq_nil_iff.mp empty row hrow)

theorem fits_of_mem {e : α} (he : e ∈ rows.flatten) :
    ∀ n ∈ toInts e, fitsMachineIndex n = true := by
  obtain ⟨row, hrow, he⟩ := List.mem_flatten.mp he
  exact h.fits row hrow e he

end AreRows

theorem column?_map {α : Type} (toInts : α → List Int) (i : Nat) {terms : List α} {f : α → Int}
    (hf : ∀ t ∈ terms, (toInts t)[i]? = some (f t))
    (hm : ∀ t ∈ terms, ∀ n ∈ toInts t, fitsMachineIndex n = true) :
    column? i (terms.map toInts) = .ok (terms.map f) := by
  rw [column?]
  refine bind_eq_ok ?_ (if_pos ?_)
  · rw [List.mapM_map]
    exact mapM_eq_ok fun t ht => by rw [Function.comp_apply, hf t ht]
  · rw [List.all_eq_true]
    intro n hn
    obtain ⟨t, ht, rfl⟩ := List.mem_map.mp hn
    exact hm t ht _ (List.mem_of_getElem? (hf t ht))

/-! ## Products -/

namespace ProductKernel

/-- The terms of a kernel, cut at its starts. -/
def rows (k : ProductKernel) : List (List ProductEntry) :=
  segments k.starts (List.zipWith (fun c factors => ⟨c, factors.1, factors.2⟩) k.coefficients
    (k.left.zip k.right))

/-- **Rows of machine integers are laid end to end** as they are. -/
theorem ofLists?_map_toInts {rows : List (List ProductEntry)}
    (h : ∀ e ∈ rows.flatten, ∀ n ∈ e.toInts, fitsMachineIndex n = true) :
    ofLists? (rows.map (List.map ProductEntry.toInts)) = .ok (ofRows rows) := by
  have coefficients := column?_map ProductEntry.toInts 0 (fun _ _ => rfl) h
  have left := column?_map ProductEntry.toInts 1 (fun _ _ => rfl) h
  have right := column?_map ProductEntry.toInts 2 (fun _ _ => rfl) h
  rw [ofLists?, ← List.map_flatten, segmentStarts_map]
  exact bind_eq_ok coefficients (bind_eq_ok left (bind_eq_ok right rfl))

/-- **Cutting at the starts gives the rows back.** -/
theorem rows_ofRows {rows : List (List ProductEntry)} (hn : rows ≠ [])
    (hr : ∀ row ∈ rows, row ≠ []) : (ofRows rows).rows = rows := by
  have terms : List.zipWith (fun c factors => (⟨c, factors.1, factors.2⟩ : ProductEntry))
      (rows.flatten.map (·.coefficient))
      ((rows.flatten.map (·.left)).zip (rows.flatten.map (·.right))) = rows.flatten := by
    rw [List.zip_map', List.zipWith_map, List.zipWith_self]
    exact List.map_id' _
  rw [ProductKernel.rows]
  show segments (segmentStarts rows) _ = rows
  rw [ofRows, terms, segments_flatten hn hr]

/-- **The kernel has these rows**, and products are computed from them. -/
structure Keeps (k : ProductKernel) (rows : List (List ProductEntry)) : Prop where
  /-- Cut at its starts, it gives them back. -/
  cut : k.rows = rows
  /-- Every segment has a term. -/
  full : SegmentsAreFull k.starts k.coefficients.length
  /-- Slot `i` of a product is the sum of `c * a[l] * b[r]` over row `i`. -/
  mul : ∀ {K E : Type} [CommRing K] [Arithmetic E] {lift : K → E}, IsExact lift →
    ∀ {a b : List K}, (∀ e ∈ rows.flatten, IsPosition a.length e.left) →
      (∀ e ∈ rows.flatten, IsPosition b.length e.right) → ∀ {c : Calculus}, c.product = k →
        Jet.mul c (a.map lift) (b.map lift) =
          .ok (rows.map fun row => lift (row.map (ProductEntry.term a b)).sum)

theorem keeps_ofRows {rows : List (List ProductEntry)} (hn : rows ≠ [])
    (hr : ∀ row ∈ rows, row ≠ []) : (ofRows rows).Keeps rows where
  cut := rows_ofRows hn hr
  full := by
    have full := segmentsAreFull_of_ne_nil hn hr
    rwa [← List.length_map (·.coefficient)] at full
  mul exact _ _ ha hb _ hk := exact.mul_eq_ok hk hn hr ha hb

end ProductKernel

/-! ## Compositions -/

/-- The term with `padding` behind its slots, up to width `w`. -/
def CompositionEntry.padded (w : Nat) (padding : Int) (e : CompositionEntry) : CompositionEntry :=
  { e with slots := e.slots ++ List.replicate (w - e.slots.length) padding }

namespace CompositionKernel

/-- The terms of a kernel, cut at its starts. -/
def rows (k : CompositionKernel) : List (List CompositionEntry) :=
  segments k.starts (List.zipWith (fun c factors => ⟨c, factors.1, factors.2⟩) k.coefficients
    (k.derivatives.zip k.slots))

theorem slotList?_toInts {w : Nat} {padding : Int} {e : CompositionEntry}
    (h : ∀ n ∈ e.toInts, fitsMachineIndex n = true) :
    slotList? w padding e.toInts = .ok (pad w padding e.slots) := by
  have long : ¬ (e.toInts.length < 2 ∧ 2 < e.toInts.length + w) := fun h => by
    simp [CompositionEntry.toInts] at h
  rw [slotList?, if_neg long]
  exact if_pos (List.all_eq_true.mpr fun n hn => h n (List.mem_of_mem_drop hn))

/-- **Rows of machine integers are laid end to end** as they are, and padded. -/
theorem ofLists?_map_toInts {rows : List (List CompositionEntry)} {padding : Int}
    (hn : rows.flatten ≠ []) (h : ∀ e ∈ rows.flatten, ∀ n ∈ e.toInts, fitsMachineIndex n = true)
    (hp : fitsMachineIndex padding = true) :
    ofLists? (rows.map (List.map CompositionEntry.toInts)) padding = .ok (ofRows rows padding) := by
  have coefficients := column?_map CompositionEntry.toInts 0 (fun _ _ => rfl) h
  have derivatives := column?_map CompositionEntry.toInts 1 (fun _ _ => rfl) h
  have wide : (rows.flatten.map CompositionEntry.toInts).foldl (fun w t => max w (t.length - 2)) 1 =
      width rows := by
    rw [width, List.foldl_map]
    rfl
  have slots : (rows.flatten.map CompositionEntry.toInts).mapM (slotList? (width rows) padding) =
      .ok (rows.flatten.map fun e => pad (width rows) padding e.slots) := by
    rw [List.mapM_map]
    exact mapM_eq_ok fun e he => slotList?_toInts (h e he)
  have some_term : (rows.flatten.map CompositionEntry.toInts).isEmpty = false := by
    rw [List.isEmpty_eq_false_iff, ne_eq, List.map_eq_nil_iff]
    exact hn
  simp only [ofLists?, ← List.map_flatten, segmentStarts_map, some_term, hp, wide]
  refine bind_eq_ok slots (bind_eq_ok coefficients (bind_eq_ok derivatives ?_))
  rw [ofRows, padAll, List.map_map]
  rfl

/-- **Cutting at the starts gives the rows back**, with padding behind the slots. -/
theorem rows_ofRows {rows : List (List CompositionEntry)} (hn : rows ≠ [])
    (hr : ∀ row ∈ rows, row ≠ []) (padding : Int) :
    (ofRows rows padding).rows = rows.map (List.map (·.padded (width rows) padding)) := by
  have terms : List.zipWith (fun c factors => (⟨c, factors.1, factors.2⟩ : CompositionEntry))
      (rows.flatten.map (·.coefficient)) ((rows.flatten.map (·.derivative)).zip
        (padAll (width rows) padding (rows.flatten.map (·.slots)))) =
      rows.flatten.map (·.padded (width rows) padding) := by
    rw [padAll, List.map_map, List.zip_map', List.zipWith_map, List.zipWith_self]
    rfl
  rw [CompositionKernel.rows]
  show segments (segmentStarts rows) _ = _
  rw [ofRows, terms, segments_flatten_map hn hr]

/-- **The kernel has these rows**, and compositions are computed from them. -/
structure Keeps (k : CompositionKernel) (rows : List (List CompositionEntry)) (padding : Int) :
    Prop where
  padding_eq : k.padding = padding
  /-- Cut at its starts, it gives them back, each slot list with nothing but padding behind it. -/
  cut : ∃ w, (∀ e ∈ rows.flatten, e.slots.length ≤ w) ∧
    k.rows = rows.map (List.map (·.padded w padding))
  /-- Every segment has a term. -/
  full : SegmentsAreFull k.starts k.coefficients.length
  /-- The sum of `c * f[k] * g[s] * ...` over each row, whatever `g` is, as long as the padding
  points at a one. -/
  sum : ∀ {K E : Type} [CommRing K] [Arithmetic E] {lift : K → E}, IsExact lift →
    ∀ {f g : List K}, (∀ e ∈ rows.flatten, IsPosition f.length e.derivative) →
      (∀ e ∈ rows.flatten, ∀ i ∈ e.slots, IsPosition g.length i) →
        IsPosition g.length padding → entryAt g padding = 1 →
          (Jet.chainTerms k (f.map lift) (g.map lift) >>= Jet.sumSegments k.starts) =
            .ok (rows.map fun row => lift (row.map (CompositionEntry.term f g)).sum)
  /-- So slot `i` of a composition is the sum over row `i`, of a jet with a one behind its slots. -/
  compose : ∀ {K E : Type} [CommRing K] [Arithmetic E] {lift : K → E}, IsExact lift →
    ∀ {f g : List K}, (∀ e ∈ rows.flatten, IsPosition f.length e.derivative) →
      (∀ e ∈ rows.flatten, ∀ i ∈ e.slots, IsPosition (g.length + 1) i) → 0 < g.length →
        padding = g.length → ∀ {c : Calculus}, c.composition = k →
          Jet.compose c .faithful (g.map lift) (f.map lift) =
            .ok (rows.map fun row => lift (row.map (CompositionEntry.term f (g ++ [1]))).sum)

theorem keeps_ofRows {rows : List (List CompositionEntry)} (hn : rows ≠ [])
    (hr : ∀ row ∈ rows, row ≠ []) (padding : Int) : (ofRows rows padding).Keeps rows padding where
  padding_eq := rfl
  cut := ⟨width rows, fun _ => length_le_width, rows_ofRows hn hr padding⟩
  full := by
    have full := segmentsAreFull_of_ne_nil hn hr
    rwa [← List.length_map (·.coefficient)] at full
  sum exact _ _ hf hg hp h1 := exact.sumChainTerms_eq_ok hn hr hf hg hp h1
  compose exact _ _ hf hg h0 hp _ hk := exact.compose_extended_eq_ok (hp ▸ hk) hn hr hf hg h0

end CompositionKernel

/-! ## What callers may rely on -/

/-- **The kernels of tables have the rows of the tables**, each with a term, and all entries are
slots and derivatives that the operands have. -/
structure Tables.KeepsRows (t : Tables) : Prop where
  product_ne_nil : ∀ row ∈ t.product, row ≠ []
  composition_ne_nil : ∀ row ∈ t.composition, row ≠ []
  product : t.productKernel.Keeps t.productEntries
  composition : t.compositionKernel.Keeps t.chainEntries t.size
  factors : ∀ e ∈ t.productEntries.flatten, IsPosition t.size e.left ∧ IsPosition t.size e.right
  derivatives : ∀ e ∈ t.chainEntries.flatten, 0 ≤ e.derivative ∧ e.derivative ≤ t.order
  slots : ∀ e ∈ t.chainEntries.flatten, ∀ i ∈ e.slots, 0 ≤ i ∧ i < t.size

theorem Tables.keepsRows_of_built {p o : Nat} {t : Tables} (h : Built p o t) : t.KeepsRows := by
  obtain rfl := h.eq_complete
  exact {
    product_ne_nil := ne_nil_of_mem_product p o
    composition_ne_nil := ne_nil_of_mem_composition p o
    product := ProductKernel.keeps_ofRows (productEntries_ne_nil p o)
      (ne_nil_of_mem_productEntries p o)
    composition := CompositionKernel.keeps_ofRows (chainEntries_ne_nil p o)
      (ne_nil_of_mem_chainEntries p o) _
    factors := fun _ => slots_of_mem_productEntries
    derivatives := fun _ he => (order_complete p o).symm ▸ derivative_of_mem_chainEntries he
    slots := fun _ => slots_of_mem_chainEntries }

/-- **Flattening loses nothing**: rows of machine integers have a kernel, it keeps them, and so do
the kernels of all tables that are built. -/
theorem kernels_keep_rows :
    (∀ rows : List (List ProductEntry), AreRows ProductEntry.toInts rows →
      ∃ k, ProductKernel.ofLists? (rows.map (List.map ProductEntry.toInts)) = .ok k ∧
        k.Keeps rows) ∧
    (∀ (rows : List (List CompositionEntry)) (padding : Int),
      AreRows CompositionEntry.toInts rows → fitsMachineIndex padding = true →
        ∃ k, CompositionKernel.ofLists? (rows.map (List.map CompositionEntry.toInts)) padding =
          .ok k ∧ k.Keeps rows padding) ∧
    ∀ {p o : Nat} {t : Tables}, Built p o t → t.KeepsRows := by
  refine ⟨fun rows h => ?_, fun rows padding h hp => ?_, Tables.keepsRows_of_built⟩
  · exact ⟨_, ProductKernel.ofLists?_map_toInts fun e he => h.fits_of_mem he,
      ProductKernel.keeps_ofRows h.rows_ne_nil h.row_ne_nil⟩
  · exact ⟨_, CompositionKernel.ofLists?_map_toInts h.flatten_ne_nil
      (fun e he => h.fits_of_mem he) hp,
      CompositionKernel.keeps_ofRows h.rows_ne_nil h.row_ne_nil padding⟩

/-- Two rows of a product, one of them with the last slot of a factor. -/
def unevenProduct : List (List ProductEntry) := [[⟨1, 0, 0⟩], [⟨3, 0, 1⟩, ⟨-2, -1, 0⟩]]

/-- Two rows of a composition, whose terms have no slot, one and two. -/
def unevenComposition : List (List CompositionEntry) :=
  [[⟨1, 0, []⟩], [⟨2, 1, [1]⟩, ⟨3, 2, [1, 0]⟩]]

theorem areRows_uneven : AreRows ProductEntry.toInts unevenProduct ∧
    AreRows CompositionEntry.toInts unevenComposition :=
  ⟨⟨by decide, by decide, by decide⟩, ⟨by decide, by decide, by decide⟩⟩

/-- Rows of different lengths, with terms of different widths, and what they make of some
rationals. -/
theorem kernels_keep_uneven_rows : Built 2 2 (complete 2 2) ∧ (complete 2 2).KeepsRows ∧
    AreRows ProductEntry.toInts unevenProduct ∧
    (∃ k, ProductKernel.ofLists? (unevenProduct.map (List.map ProductEntry.toInts)) = .ok k ∧
      k.rows = unevenProduct ∧ ∀ c : Calculus, c.product = k →
        Jet.mul c ([2, 5].map Scalar.rat) ([7, 11].map Scalar.rat) =
          .ok ([14, -4].map Scalar.rat)) ∧
    AreRows CompositionEntry.toInts unevenComposition ∧ fitsMachineIndex 2 = true ∧
    ∃ k, CompositionKernel.ofLists? (unevenComposition.map (List.map CompositionEntry.toInts)) 2 =
        .ok k ∧ k.rows = [[⟨1, 0, [2, 2]⟩], [⟨2, 1, [1, 2]⟩, ⟨3, 2, [1, 0]⟩]] ∧
      (Jet.chainTerms k ([2, 3, 5].map Scalar.rat) ([7, 11, 1].map Scalar.rat) >>=
        Jet.sumSegments k.starts) = .ok ([2, 1221].map Scalar.rat) := by
  obtain ⟨products, compositions, tables⟩ := kernels_keep_rows
  obtain ⟨product, composition⟩ := areRows_uneven
  have fits : fitsMachineIndex 2 = true := by decide
  refine ⟨built_complete 2 2, tables (built_complete 2 2), product, ?_, composition, fits, ?_⟩
  · have sums : (unevenProduct.map fun row =>
        (row.map (ProductEntry.term [2, 5] [7, 11])).sum) = [(14 : Rat), -4] := by decide +kernel
    obtain ⟨k, flat, keeps⟩ := products _ product
    refine ⟨k, flat, keeps.cut, fun c hc => ?_⟩
    rw [keeps.mul Scalar.isExact_rat (by decide) (by decide) hc, ← sums, List.map_map]
    rfl
  · have sums : (unevenComposition.map fun row =>
        (row.map (CompositionEntry.term [2, 3, 5] [7, 11, 1])).sum) = [(2 : Rat), 1221] := by
      decide +kernel
    obtain ⟨k, flat, keeps⟩ := compositions _ 2 composition fits
    have padded := CompositionKernel.ofLists?_map_toInts composition.flatten_ne_nil
      (fun e he => composition.fits_of_mem he) fits
    obtain rfl := Except.ok.inj (padded.symm.trans flat)
    refine ⟨_, flat, by decide, ?_⟩
    rw [keeps.sum Scalar.isExact_rat (by decide) (by decide) (by decide) (by decide +kernel),
      ← sums, List.map_map]
    rfl

end JetAlgebra
