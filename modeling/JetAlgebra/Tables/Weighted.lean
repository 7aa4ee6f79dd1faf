/-!
# Sums of weighted terms

A row of a table is a formal sum: each term has an integer coefficient and a key
that says what it multiplies.  `Weighted.combine` merges terms with equal keys;
the first occurrence of a key keeps its place.

Rows of a composition table have thousands of terms, and their keys are lists with long
common beginnings.  So `Weighted.combineBy` looks for a key among the newest terms first,
and compares a number computed from each key before the keys themselves.  By
`combineBy_eq` it computes the same row, whatever that number is: no two terms of a row
have the same key (`nodup_keys_absorb`), so it does not matter from which end one looks.
-/

namespace JetAlgebra

/-- A coefficient and what it multiplies. -/
structure Weighted (κ : Type) where
  coefficient : Nat
  key : κ
  deriving DecidableEq, Repr

namespace Weighted
variable {κ : Type} [DecidableEq κ]

/-- Adds a term to a row: into the term with the same key, or else at the end. -/
def absorb (row : List (Weighted κ)) (t : Weighted κ) : List (Weighted κ) :=
  match row with
  | [] => [t]
  | u :: rest =>
    if u.key = t.key then ⟨u.coefficient + t.coefficient, u.key⟩ :: rest
    else u :: absorb rest t

/-- The row of a list of terms, equal keys merged. -/
def combine (terms : List (Weighted κ)) : List (Weighted κ) := terms.foldl absorb []

/-- The largest coefficient of a list of rows; `0` if they hold no term. -/
def largest {κ : Type} (rows : List (List (Weighted κ))) : Nat :=
  rows.foldl (fun m row => row.foldl (fun m t => max m t.coefficient) m) 0

/-! ## Looking for the newest terms first -/

/-- A term beside a number computed from its key. -/
structure Tagged (κ : Type) where
  tag : Nat
  term : Weighted κ

/-- Adds a term into the one with the same key, if there is one. -/
def merge? : List (Tagged κ) → Tagged κ → Option (List (Tagged κ))
  | [], _ => none
  | u :: rest, t =>
    if u.tag = t.tag ∧ u.term.key = t.term.key then
      some (⟨u.tag, u.term.coefficient + t.term.coefficient, u.term.key⟩ :: rest)
    else (merge? rest t).map (u :: ·)

/-- Adds a term to a row with its newest term first. -/
def absorbNewest (row : List (Tagged κ)) (t : Tagged κ) : List (Tagged κ) :=
  (merge? row t).getD (t :: row)

/-- A term with its tag. -/
def tagged (tag : κ → Nat) (t : Weighted κ) : Tagged κ := ⟨tag t.key, t⟩

/-- The row of a list of terms, equal keys merged and found by their tags. -/
def combineBy (tag : κ → Nat) (terms : List (Weighted κ)) : List (Weighted κ) :=
  (((terms.map (tagged tag)).foldl absorbNewest []).map Tagged.term).reverse

/-- A term after another one with the same key was added to it. -/
def raise (t u : Weighted κ) : Weighted κ :=
  if u.key = t.key then ⟨u.coefficient + t.coefficient, u.key⟩ else u

theorem key_raise (t u : Weighted κ) : (raise t u).key = u.key := by
  unfold raise; split <;> rfl

theorem map_raise (t : Weighted κ) {row : List (Weighted κ)} (h : t.key ∉ row.map key) :
    row.map (raise t) = row := by
  induction row with
  | nil => rfl
  | cons u rest ih =>
    rw [List.map_cons, List.mem_cons, not_or] at h
    rw [List.map_cons, ih h.2, raise, if_neg fun he => h.1 he.symm]

theorem absorb_of_mem (t : Weighted κ) {row : List (Weighted κ)} (hn : (row.map key).Nodup)
    (h : t.key ∈ row.map key) : absorb row t = row.map (raise t) := by
  induction row with
  | nil => simp at h
  | cons u rest ih =>
    rw [List.map_cons, List.nodup_cons] at hn
    by_cases hu : u.key = t.key
    · rw [List.map_cons, map_raise t (hu ▸ hn.1)]
      simp [absorb, raise, hu]
    · have hr : t.key ∈ rest.map key := by
        rw [List.map_cons, List.mem_cons] at h
        exact h.resolve_left fun he => hu he.symm
      simp [absorb, raise, hu, ih hn.2 hr]

theorem absorb_of_notMem (t : Weighted κ) {row : List (Weighted κ)} (h : t.key ∉ row.map key) :
    absorb row t = row ++ [t] := by
  induction row with
  | nil => rfl
  | cons u rest ih =>
    rw [List.map_cons, List.mem_cons, not_or] at h
    rw [absorb, if_neg fun he => h.1 he.symm, ih h.2, List.cons_append]

/-- **No two terms of a row have the same key.** -/
theorem nodup_keys_absorb (t : Weighted κ) {row : List (Weighted κ)} (hn : (row.map key).Nodup) :
    ((absorb row t).map key).Nodup := by
  by_cases h : t.key ∈ row.map key
  · rw [absorb_of_mem t hn h, List.map_map]
    simpa [Function.comp_def, key_raise] using hn
  · rw [absorb_of_notMem t h, List.map_append, List.nodup_append]
    refine ⟨hn, by simp, fun a ha b hb => ?_⟩
    rw [List.map_cons, List.map_nil, List.mem_singleton] at hb
    exact fun he => h (hb ▸ he ▸ ha)

theorem merge?_of_mem (tag : κ → Nat) (t : Weighted κ) {row : List (Weighted κ)}
    (hn : (row.map key).Nodup) (h : t.key ∈ row.map key) :
    merge? (row.map (tagged tag)) (tagged tag t) = some ((row.map (raise t)).map (tagged tag)) := by
  induction row with
  | nil => simp at h
  | cons u rest ih =>
    rw [List.map_cons, List.nodup_cons] at hn
    by_cases hu : u.key = t.key
    · rw [List.map_cons, List.map_cons, map_raise t (hu ▸ hn.1)]
      simp [merge?, raise, tagged, hu]
    · have hr : t.key ∈ rest.map key := by
        rw [List.map_cons, List.mem_cons] at h
        exact h.resolve_left fun he => hu he.symm
      have hm := ih hn.2 hr
      simp only [tagged] at hm
      simp [merge?, raise, tagged, hu, hm]

theorem merge?_of_notMem (tag : κ → Nat) (t : Weighted κ) {row : List (Weighted κ)}
    (h : t.key ∉ row.map key) : merge? (row.map (tagged tag)) (tagged tag t) = none := by
  induction row with
  | nil => rfl
  | cons u rest ih =>
    rw [List.map_cons, List.mem_cons, not_or] at h
    have hm := ih h.2
    rw [List.map_cons, merge?, if_neg fun he => h.1 he.2.symm, hm, Option.map_none]

theorem absorbNewest_reverse (tag : κ → Nat) (t : Weighted κ) {row : List (Weighted κ)}
    (hn : (row.map key).Nodup) :
    absorbNewest (row.reverse.map (tagged tag)) (tagged tag t) =
      (absorb row t).reverse.map (tagged tag) := by
  have hn' : (row.reverse.map key).Nodup := by
    rw [List.map_reverse]; exact List.pairwise_reverse.2 (hn.imp Ne.symm)
  by_cases h : t.key ∈ row.map key
  · have h' : t.key ∈ row.reverse.map key := by
      rw [List.map_reverse]; exact List.mem_reverse.2 h
    rw [absorbNewest, merge?_of_mem tag t hn' h', absorb_of_mem t hn h, Option.getD_some,
      ← List.map_reverse]
  · have h' : t.key ∉ row.reverse.map key := by
      rw [List.map_reverse]; exact fun hm => h (List.mem_reverse.1 hm)
    rw [absorbNewest, merge?_of_notMem tag t h', absorb_of_notMem t h, Option.getD_none,
      List.reverse_append]
    rfl

theorem foldl_absorbNewest (tag : κ → Nat) (terms : List (Weighted κ)) {row : List (Weighted κ)}
    (hn : (row.map key).Nodup) :
    (terms.map (tagged tag)).foldl absorbNewest (row.reverse.map (tagged tag)) =
      (terms.foldl absorb row).reverse.map (tagged tag) := by
  induction terms generalizing row with
  | nil => rfl
  | cons t terms ih =>
    rw [List.map_cons, List.foldl_cons, List.foldl_cons, absorbNewest_reverse tag t hn]
    exact ih (nodup_keys_absorb t hn)

/-- **The tags do not matter.** -/
theorem combineBy_eq (tag : κ → Nat) (terms : List (Weighted κ)) :
    combineBy tag terms = combine terms := by
  have hn : (([] : List (Weighted κ)).map key).Nodup := List.nodup_nil
  have h := foldl_absorbNewest tag terms hn
  rw [List.reverse_nil, List.map_nil] at h
  rw [combineBy, h, List.map_map, ← List.map_reverse, List.reverse_reverse]
  exact List.map_id' _

end Weighted

example : Weighted.combine [⟨1, 5⟩, ⟨2, 3⟩, ⟨4, 5⟩] = [⟨5, 5⟩, ⟨2, 3⟩] := by decide

end JetAlgebra
