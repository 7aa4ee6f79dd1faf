import Mathlib
import JetAlgebra.Jet.Basic
import JetAlgebra.Scalar
import JetAlgebra.Proofs.Flattening
import JetAlgebra.Proofs.Outcome

/-!
# Products and compositions are sums over rows

On exact numbers no step of `Jet.mul` or `Jet.compose` fails, and slot `i` of the result is the
sum of the terms of row `i`, as if the table had never been flattened: `mul_eq_ok`,
`compose_eq_ok`.

Which numbers are exact is left open.  `IsExact lift` says that the numbers `lift x` compute
like the elements `x` of a commutative ring; rational scalars do (`Scalar.isExact_rat`).  Entries
of a kernel may be any positions that the operands have (`IsPosition`), also from the end.
-/
namespace JetAlgebra
open Arithmetic
open CompositionKernel (pad width mem_pad length_pad)

/-- **Exact numbers**: sums and products of the numbers `lift x` are those of a ring. -/
structure IsExact {K E : Type} [CommRing K] [Arithmetic E] (lift : K → E) : Prop where
  add : ∀ x y, Arithmetic.add (lift x) (lift y) = .ok (lift (x + y))
  mul : ∀ x y, Arithmetic.mul (lift x) (lift y) = .ok (lift (x * y))
  scale : ∀ (n : Int) x, Arithmetic.scale n (lift x) = .ok (lift (n * x))
  oneLike : ∀ x, Arithmetic.oneLike (lift x) = .ok (lift 1)

theorem Scalar.isExact_rat : IsExact Scalar.rat where
  add _ _ := rfl
  mul _ _ := rfl
  scale _ _ := rfl
  oneLike _ := congrArg (fun q => Except.ok (Scalar.rat q)) Int.cast_one

/-! ## Entries at integer positions -/

/-- A position in a list of `n` entries; a negative one counts from the end. -/
def IsPosition (n : Nat) (i : Int) : Prop := -n ≤ i ∧ i < n

instance (n : Nat) (i : Int) : Decidable (IsPosition n i) := inferInstanceAs (Decidable (_ ∧ _))

theorem isPosition_natCast {n i : Nat} : IsPosition n i ↔ i < n := by
  rw [IsPosition]
  omega

theorem isPosition_of_nonneg {n : Nat} {i : Int} (h : 0 ≤ i ∧ i < n) : IsPosition n i :=
  ⟨by omega, h.2⟩

/-- The entry at an integer position, or zero where there is none. -/
def entryAt {K : Type} [Zero K] (xs : List K) (i : Int) : K := (entryAt? xs i).getD 0

section EntryAt
variable {K : Type} [Zero K] {xs : List K} {i : Int}

theorem entryAt_natCast (xs : List K) (n : Nat) : entryAt xs n = xs.getD n 0 := by
  rw [entryAt, entryAt?_natCast, List.getD_eq_getElem?_getD]

theorem entryAt?_eq_some (h : IsPosition xs.length i) : entryAt? xs i = some (entryAt xs i) := by
  obtain ⟨x, hx⟩ : ∃ x, entryAt? xs i = some x := by
    rw [entryAt?]
    obtain ⟨low, high⟩ := h
    split
    · exact ⟨_, List.getElem?_eq_getElem (by omega)⟩
    · rw [if_pos (by omega)]
      exact ⟨_, List.getElem?_eq_getElem (by omega)⟩
  rw [entryAt, hx, Option.getD_some]

end EntryAt

/-- The term of a product. -/
def ProductEntry.term {K : Type} [CommRing K] (a b : List K) (e : ProductEntry) : K :=
  e.coefficient * entryAt a e.left * entryAt b e.right

/-- The term of a composition. -/
def CompositionEntry.term {K : Type} [CommRing K] (f g : List K) (e : CompositionEntry) : K :=
  e.coefficient * entryAt f e.derivative * (e.slots.map (entryAt g)).prod

/-- **Faithful storage** keeps every number. -/
theorem Storage.mapM_store {E : Type} (vs : List E) :
    vs.mapM (Storage.faithful (E := E)).store = .ok vs :=
  (mapM_eq_ok fun _ _ => rfl).trans (congrArg Except.ok (List.map_id' vs))

section Lookup
variable {E : Type}

/-- Entries that are found are found in a longer list as well. -/
theorem gather_append {xs : List E} (ys : List E) {positions : List Int}
    (h : ∀ i ∈ positions, 0 ≤ i ∧ i < xs.length) :
    gather (xs ++ ys) positions = gather xs positions := by
  induction positions with
  | nil => rfl
  | cons i is ih =>
    have here := slot_append (h i List.mem_cons_self) ys
    have later := ih fun j hj => h j (List.mem_cons_of_mem i hj)
    rw [gather] at later ⊢
    rw [gather, List.mapM_cons, List.mapM_cons, here, later]
    rfl

/-- **A composition looks at no derivatives but those of its kernel.** -/
theorem Jet.compose_append [Arithmetic E] {k : Calculus} {f : List E}
    (h : ∀ d ∈ k.composition.derivatives, 0 ≤ d ∧ d < f.length) (s : Storage E) (g : Jet E)
    (rest : List E) : Jet.compose k s g (f ++ rest) = Jet.compose k s g f := by
  simp only [Jet.compose, Jet.leadingFactors, gather_append rest h]

end Lookup

section Exact
variable {K E α : Type} [CommRing K] {lift : K → E}

theorem slot_map_entryAt {xs : List K} {i : Int} (h : IsPosition xs.length i) :
    slot (xs.map lift) i = .ok (lift (entryAt xs i)) := by
  rw [slot, entryAt?_map, entryAt?_eq_some h]
  rfl

theorem slot_map {xs : List K} {i : Nat} (h : i < xs.length) :
    slot (xs.map lift) i = .ok (lift (xs.getD i 0)) := by
  rw [slot_map_entryAt (isPosition_natCast.mpr h), entryAt_natCast]

theorem Jet.value_map [Arithmetic E] {g : List K} (h : 0 < g.length) :
    Jet.value .faithful (g.map lift) = .ok (lift (g.getD 0 0)) :=
  bind_eq_ok (slot_map (i := 0) h) rfl

theorem gather_map {xs : List K} {l : List α} {i : α → Int}
    (h : ∀ e ∈ l, IsPosition xs.length (i e)) :
    gather (xs.map lift) (l.map i) = .ok (l.map fun e => lift (entryAt xs (i e))) := by
  rw [gather, List.mapM_map]
  exact mapM_eq_ok fun e he => slot_map_entryAt (h e he)

/-- Padding that points at a one does not change a product. -/
theorem prod_map_pad {g : List K} {padding : Int} (h : entryAt g padding = 1) (w : Nat)
    (slots : List Int) : ((pad w padding slots).map (entryAt g)).prod =
      (slots.map (entryAt g)).prod := by
  rw [pad, List.map_append, List.prod_append, List.map_replicate, h, List.prod_replicate, one_pow,
    mul_one]

namespace IsExact
variable [Arithmetic E] (exact : IsExact lift)
include exact

theorem scaleEach_map (l : List α) (c : α → Int) (x : α → K) :
    scaleEach (l.map c) (l.map fun e => lift (x e)) = .ok (l.map fun e => lift (c e * x e)) := by
  induction l with
  | nil => rfl
  | cons e l ih =>
    rw [List.map_cons, List.map_cons, scaleEach, exact.scale, ih]
    rfl

theorem zipEach_mul_map (l : List α) (x y : α → K) :
    zipEach Arithmetic.mul (l.map fun e => lift (x e)) (l.map fun e => lift (y e)) =
      .ok (l.map fun e => lift (x e * y e)) := by
  induction l with
  | nil => rfl
  | cons e l ih =>
    rw [List.map_cons, List.map_cons, zipEach, exact.mul, ih]
    rfl

theorem foldlM_add (x : K) (xs : List K) :
    (xs.map lift).foldlM Arithmetic.add (lift x) = .ok (lift (x + xs.sum)) := by
  induction xs generalizing x with
  | nil => rw [List.sum_nil, add_zero]; rfl
  | cons y xs ih =>
    rw [List.map_cons, List.foldlM_cons, exact.add, List.sum_cons, ← add_assoc]
    exact ih (x + y)

theorem sum_map {xs : List K} (h : xs ≠ []) : Arithmetic.sum (xs.map lift) = .ok (lift xs.sum) := by
  cases xs with
  | nil => exact absurd rfl h
  | cons x xs => exact exact.foldlM_add x xs

/-- Summing the segments sums the rows. -/
theorem sumSegments_flatten {rows : List (List α)} (hn : rows ≠ []) (hr : ∀ row ∈ rows, row ≠ [])
    (x : α → K) : Jet.sumSegments (segmentStarts rows) (rows.flatten.map fun e => lift (x e)) =
      .ok (rows.map fun row => lift (row.map x).sum) := by
  rw [Jet.sumSegments, segments_flatten_map hn hr, List.mapM_map]
  refine mapM_eq_ok fun row hm => ?_
  have terms : row.map x ≠ [] := by simpa using hr row hm
  rw [← exact.sum_map terms, List.map_map]
  rfl

/-- **A product is a sum over the rows** of its kernel. -/
theorem mul_eq_ok {k : Calculus} {rows : List (List ProductEntry)} (hk : k.product = .ofRows rows)
    (hn : rows ≠ []) (hr : ∀ row ∈ rows, row ≠ []) {a b : List K}
    (ha : ∀ e ∈ rows.flatten, IsPosition a.length e.left)
    (hb : ∀ e ∈ rows.flatten, IsPosition b.length e.right) :
    Jet.mul k (a.map lift) (b.map lift) =
      .ok (rows.map fun row => lift (row.map (ProductEntry.term a b)).sum) := by
  have terms : Jet.productTerms k.product (a.map lift) (b.map lift) =
      .ok (rows.flatten.map fun e => lift (ProductEntry.term a b e)) := by
    rw [hk]
    exact bind_eq_ok (gather_map ha) <| bind_eq_ok (exact.scaleEach_map _ _ _) <|
      bind_eq_ok (gather_map hb) (exact.zipEach_mul_map _ _ _)
  refine bind_eq_ok terms ?_
  rw [hk]
  exact exact.sumSegments_flatten hn hr _

/-- Terms are multiplied by the slots listed for each, as many as the lists are wide. -/
theorem mulColumns_map {g : List K} {w : Nat} {l : List α} {s : α → List Int} (x : α → K)
    (hw : ∀ e ∈ l, (s e).length = w) (hs : ∀ e ∈ l, ∀ i ∈ s e, IsPosition g.length i) :
    Jet.mulColumns (g.map lift) w (l.map s) (l.map fun e => lift (x e)) =
      .ok (l.map fun e => lift (x e * ((s e).map (entryAt g)).prod)) := by
  -- The lists get shorter column by column, and the products so far are the new terms.
  induction w generalizing s x with
  | zero =>
    rw [Jet.mulColumns]
    refine congrArg Except.ok (List.map_congr_left fun e he => ?_)
    rw [List.length_eq_zero_iff.mp (hw e he), List.map_nil, List.prod_nil, mul_one]
  | succ w ih =>
    have split : ∀ e ∈ l, s e = (s e).headD 0 :: (s e).tail := by
      intro e he
      cases h : s e with
      | nil => rw [← List.length_eq_zero_iff, hw e he] at h; exact absurd h (Nat.succ_ne_zero w)
      | cons i is => rfl
    have head : gather (g.map lift) (l.map fun e => (s e).headD 0) =
        .ok (l.map fun e => lift (entryAt g ((s e).headD 0))) :=
      gather_map fun e he => hs e he _ (by rw [split e he]; exact List.mem_cons_self)
    rw [Jet.mulColumns, List.map_map, List.map_map]
    refine bind_eq_ok head (bind_eq_ok (exact.zipEach_mul_map _ _ _) ?_)
    refine (ih (s := fun e => (s e).tail) _ (fun e he => ?_) fun e he i hi => ?_).trans ?_
    · rw [List.length_tail, hw e he, Nat.add_sub_cancel]
    · exact hs e he i (List.mem_of_mem_tail hi)
    · refine congrArg Except.ok (List.map_congr_left fun e he => ?_)
      conv => rhs; rw [split e he]
      rw [List.map_cons, List.prod_cons, mul_assoc]

/-- The terms of a composition, whose jet is extended by a one where the padding points at. -/
theorem chainTerms_eq_ok {rows : List (List CompositionEntry)} {padding : Int} {f g : List K}
    (hf : ∀ e ∈ rows.flatten, IsPosition f.length e.derivative)
    (hg : ∀ e ∈ rows.flatten, ∀ i ∈ e.slots, IsPosition g.length i)
    (hp : IsPosition g.length padding) (h1 : entryAt g padding = 1) :
    Jet.chainTerms (.ofRows rows padding) (f.map lift) (g.map lift) =
      .ok (rows.flatten.map fun e => lift (CompositionEntry.term f g e)) := by
  have range : ∀ e ∈ rows.flatten, ∀ i ∈ pad (width rows) padding e.slots,
      IsPosition g.length i := by
    intro e he i hi
    rcases mem_pad hi with hi | rfl
    · exact hg e he i hi
    · exact hp
  have outer : scaleEach (rows.flatten.map (·.coefficient)) (rows.flatten.map fun e =>
      lift (entryAt f e.derivative)) = _ := exact.scaleEach_map _ _ _
  refine bind_eq_ok (bind_eq_ok (gather_map hf) outer) ?_
  rw [Jet.termsFrom]
  have slots : (CompositionKernel.ofRows rows padding).slots =
      rows.flatten.map fun e => pad (width rows) padding e.slots := List.map_map ..
  -- The width is read off the first slot list, so it takes a term to know it.
  have first : ((CompositionKernel.ofRows rows padding).slots.headD []).length = width rows ∨
      rows.flatten = [] := by
    rw [slots]
    cases h : rows.flatten with
    | nil => exact Or.inr rfl
    | cons e l => exact Or.inl (length_pad (h ▸ List.mem_cons_self) padding)
  rcases first with first | none
  · rw [first, slots]
    refine (exact.mulColumns_map _ (fun e he => length_pad he padding) range).trans ?_
    refine congrArg Except.ok (List.map_congr_left fun e _ => ?_)
    rw [prod_map_pad h1, CompositionEntry.term]
  · rw [slots, none]
    rfl

/-- **The terms of a composition are summed row by row**, whatever the jet is extended by behind
its slots, as long as the padding points at a one. -/
theorem sumChainTerms_eq_ok {rows : List (List CompositionEntry)} {padding : Int} {f g : List K}
    (hn : rows ≠ []) (hr : ∀ row ∈ rows, row ≠ [])
    (hf : ∀ e ∈ rows.flatten, IsPosition f.length e.derivative)
    (hg : ∀ e ∈ rows.flatten, ∀ i ∈ e.slots, IsPosition g.length i)
    (hp : IsPosition g.length padding) (h1 : entryAt g padding = 1) :
    (Jet.chainTerms (.ofRows rows padding) (f.map lift) (g.map lift) >>=
        Jet.sumSegments (CompositionKernel.ofRows rows padding).starts) =
      .ok (rows.map fun row => lift (row.map (CompositionEntry.term f g)).sum) :=
  bind_eq_ok (exact.chainTerms_eq_ok hf hg hp h1) (exact.sumSegments_flatten hn hr _)

/-- A composition puts a one behind the slots of the jet, where the padding points at. -/
theorem compose_extended_eq_ok {k : Calculus} {rows : List (List CompositionEntry)}
    {f g : List K} (hk : k.composition = .ofRows rows g.length) (hn : rows ≠ [])
    (hr : ∀ row ∈ rows, row ≠ []) (hf : ∀ e ∈ rows.flatten, IsPosition f.length e.derivative)
    (hg : ∀ e ∈ rows.flatten, ∀ i ∈ e.slots, IsPosition (g.length + 1) i) (h0 : 0 < g.length) :
    Jet.compose k .faithful (g.map lift) (f.map lift) =
      .ok (rows.map fun row => lift (row.map (CompositionEntry.term f (g ++ [1]))).sum) := by
  have extended : (g ++ [1]).length = g.length + 1 := List.length_append
  have inside : IsPosition (g ++ [1]).length g.length :=
    isPosition_natCast.mpr (extended ▸ Nat.lt_succ_self g.length)
  have one : entryAt (g ++ [1]) g.length = 1 := by
    rw [entryAt_natCast, List.getD_append_right _ _ _ _ (Nat.le_refl _), Nat.sub_self]
    rfl
  have sums := exact.sumChainTerms_eq_ok hn hr hf (extended ▸ hg) inside one
  rw [List.map_append, List.map_singleton] at sums
  rw [Jet.compose_eq]
  refine bind_eq_ok (Jet.value_map h0) (bind_eq_ok (exact.oneLike _) (bind_eq_ok rfl ?_))
  rw [hk]
  exact sums

/-- **A composition is a sum over the rows** of its kernel. -/
theorem compose_eq_ok {k : Calculus} {rows : List (List CompositionEntry)}
    {f g : List K} (hk : k.composition = .ofRows rows g.length) (hn : rows ≠ [])
    (hr : ∀ row ∈ rows, row ≠ []) (hf : ∀ e ∈ rows.flatten, IsPosition f.length e.derivative)
    (hg : ∀ e ∈ rows.flatten, ∀ i ∈ e.slots, 0 ≤ i ∧ i < g.length) (h0 : 0 < g.length) :
    Jet.compose k .faithful (g.map lift) (f.map lift) =
      .ok (rows.map fun row => lift (row.map (CompositionEntry.term f g)).sum) := by
  have inside : ∀ e ∈ rows.flatten, ∀ i ∈ e.slots, IsPosition (g.length + 1) i := by
    intro e he i hi
    have bounds := hg e he i hi
    exact isPosition_of_nonneg (by omega)
  have same : ∀ row ∈ rows, ∀ e ∈ row,
      CompositionEntry.term f (g ++ [1]) e = CompositionEntry.term f g e := by
    intro row hrow e he
    have slots : ∀ i ∈ e.slots, entryAt (g ++ [1]) i = entryAt g i := by
      intro i hi
      rw [entryAt, entryAt?_append (hg e (List.mem_flatten.mpr ⟨row, hrow, he⟩) i hi), entryAt]
    rw [CompositionEntry.term, List.map_congr_left slots, CompositionEntry.term]
  rw [exact.compose_extended_eq_ok hk hn hr hf inside h0]
  refine congrArg Except.ok (List.map_congr_left fun row hrow => ?_)
  rw [List.map_congr_left (same row hrow)]

end IsExact

end Exact

end JetAlgebra
