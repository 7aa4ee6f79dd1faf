import JetAlgebra.Kernel

/-!
# Flattened tables keep their rows

A kernel has the terms of all rows end to end, and the start of each row.  Cutting at the
starts gives the rows back (`segments_flatten`), provided that there is a row and that no row
is empty: an empty row would start where the next one starts, and `segments` has no way to
tell that it is one.  The rows of a table are never empty, since every slot of a jet has a
term.

Slot lists are padded on the right up to the width of the longest (`length_le_width`), so every
padded list is the list itself and then nothing but padding.

The kernels of tables have the rows `Tables.productEntries` and `Tables.chainEntries`.
-/
namespace JetAlgebra

variable {α β : Type}

theorem runningSums_eq_cons (s : Nat) (ns : List Nat) :
    ∃ rest, Sizes.runningSums s ns = s :: rest := by
  cases ns with
  | nil => exact ⟨[], rfl⟩
  | cons n ns => exact ⟨_, rfl⟩

theorem mem_flatten_map {f : α → β} {rows : List (List α)} {e : β} :
    e ∈ (rows.map (List.map f)).flatten ↔ ∃ row ∈ rows, ∃ t ∈ row, f t = e := by
  rw [← List.map_flatten, List.mem_map]
  constructor
  · rintro ⟨t, ht, rfl⟩
    obtain ⟨row, hrow, ht⟩ := List.mem_flatten.mp ht
    exact ⟨row, hrow, t, ht, rfl⟩
  · rintro ⟨row, hrow, t, ht, rfl⟩
    exact ⟨t, List.mem_flatten.mpr ⟨row, hrow, ht⟩, rfl⟩

theorem ne_nil_of_mem_map {f : α → β} {rows : List (List α)} (hr : ∀ row ∈ rows, row ≠ []) :
    ∀ row ∈ rows.map (List.map f), row ≠ [] := by
  intro row' hm
  obtain ⟨row, hrow, rfl⟩ := List.mem_map.mp hm
  exact fun h => hr row hrow (List.map_eq_nil_iff.mp h)

theorem segmentStarts_map (f : α → β) (rows : List (List α)) :
    segmentStarts (rows.map (List.map f)) = segmentStarts rows := by
  rw [segmentStarts, ← List.map_dropLast, List.map_map, segmentStarts]
  exact congrArg _ (List.map_congr_left fun row _ => List.length_map f)

/-- Cutting what follows `before` at the places where its rows start. -/
theorem segments_runningSums (before row : List α) {rows : List (List α)} (hr : row ≠ [])
    (hrs : ∀ r ∈ rows, r ≠ []) :
    segments (Sizes.runningSums before.length ((row :: rows).dropLast.map List.length))
      (before ++ (row :: rows).flatten) = row :: rows := by
  -- Each step moves a row from the rows to what was cut before.
  induction rows generalizing before row with
  | nil =>
    rw [List.dropLast_singleton, List.map_nil, Sizes.runningSums, segments, List.flatten_cons,
      List.flatten_nil, List.append_nil, List.drop_left]
  | cons next rows ih =>
    have later := ih (before ++ row) next (hrs next List.mem_cons_self)
      fun r hm => hrs r (List.mem_cons_of_mem next hm)
    obtain ⟨rest, hrest⟩ := runningSums_eq_cons (before.length + row.length)
      ((next :: rows).dropLast.map List.length)
    have apart : before.length < before.length + row.length :=
      Nat.lt_add_of_pos_right (List.length_pos_iff.mpr hr)
    rw [List.length_append, hrest, List.append_assoc, ← List.flatten_cons] at later
    rw [List.dropLast_cons_cons, List.map_cons, Sizes.runningSums, hrest, segments, if_pos apart,
      later, List.flatten_cons, ← List.length_append, ← List.append_assoc, List.take_left,
      List.drop_left]

/-- **Cutting at the starts gives the rows back.** -/
theorem segments_flatten {rows : List (List α)} (hn : rows ≠ []) (hr : ∀ row ∈ rows, row ≠ []) :
    segments (segmentStarts rows) rows.flatten = rows := by
  cases rows with
  | nil => exact absurd rfl hn
  | cons row rows =>
    exact segments_runningSums [] row (hr row List.mem_cons_self)
      fun r hm => hr r (List.mem_cons_of_mem row hm)

/-- The same for what is computed from each term. -/
theorem segments_flatten_map {rows : List (List α)} (hn : rows ≠ []) (hr : ∀ row ∈ rows, row ≠ [])
    (f : α → β) : segments (segmentStarts rows) (rows.flatten.map f) = rows.map (List.map f) := by
  rw [← segmentStarts_map f, List.map_flatten,
    segments_flatten (by simpa using hn) (ne_nil_of_mem_map hr)]

namespace CompositionKernel

theorem foldl_max_le_iff (f : α → Nat) (xs : List α) (w m : Nat) :
    xs.foldl (fun w x => max w (f x)) w ≤ m ↔ w ≤ m ∧ ∀ x ∈ xs, f x ≤ m := by
  induction xs generalizing w with
  | nil => simp
  | cons x xs ih =>
    rw [List.foldl_cons, ih, Nat.max_le, List.forall_mem_cons, and_assoc]

theorem one_le_width (rows : List (List CompositionEntry)) : 1 ≤ width rows :=
  ((foldl_max_le_iff (fun e : CompositionEntry => e.slots.length) rows.flatten 1 _).mp
    (Nat.le_refl _)).1

/-- No slot list is longer than the width. -/
theorem length_le_width {rows : List (List CompositionEntry)} {e : CompositionEntry}
    (h : e ∈ rows.flatten) : e.slots.length ≤ width rows :=
  ((foldl_max_le_iff (fun e : CompositionEntry => e.slots.length) rows.flatten 1 _).mp
    (Nat.le_refl _)).2 e h

/-- All padded slot lists are as wide as the widest. -/
theorem length_pad {rows : List (List CompositionEntry)} {e : CompositionEntry}
    (h : e ∈ rows.flatten) (padding : Int) :
    (pad (width rows) padding e.slots).length = width rows := by
  rw [pad, List.length_append, List.length_replicate, Nat.add_sub_cancel' (length_le_width h)]

theorem mem_pad {w : Nat} {padding i : Int} {slots : List Int} (h : i ∈ pad w padding slots) :
    i ∈ slots ∨ i = padding := by
  rcases List.mem_append.mp h with h | h
  · exact Or.inl h
  · exact Or.inr (List.eq_of_mem_replicate h)

end CompositionKernel

/-! ## Rows of tables -/

/-- A product term as it is laid out in a kernel. -/
def ProductTerm.entry (t : ProductTerm) : ProductEntry := ⟨t.coefficient, t.key.left, t.key.right⟩

/-- A composition term as it is laid out in a kernel. -/
def ChainTerm.entry (t : ChainTerm) : CompositionEntry :=
  ⟨t.coefficient, t.key.derivative, t.key.slots.map Int.ofNat⟩

/-- The rows of the product as they are laid out in the kernel. -/
def Tables.productEntries (t : Tables) : List (List ProductEntry) :=
  t.product.map (List.map ProductTerm.entry)

/-- The rows of the composition as they are laid out in the kernel. -/
def Tables.chainEntries (t : Tables) : List (List CompositionEntry) :=
  t.composition.map (List.map ChainTerm.entry)

end JetAlgebra
