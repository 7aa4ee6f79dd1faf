import JetAlgebra.Proofs.JointForms
import JetAlgebra.Proofs.Relabelling

/-!
# Results do not depend on the layout of jets

What an operation makes of rational jets is decided by their derivatives.  A higher order than is
needed, a parameter that nothing depends on, or another numbering of the parameters makes no
difference to the derivatives of the result, although the slots are laid out in another way and
the tables have other rows (`ExactOperation.respectsLayouts`).

The two layouts are compared through expansions.  Both results follow the same formula, up to the
lower order, and the map that renames the parameters is one of algebras; so it takes one result
to the other (`HasFormula.relabelled`).
-/
namespace JetAlgebra
open Tables Exponent

namespace JetOperation
variable {p o q k : Nat} {op : JetOperation} {a b : List Rat}

/-! ## Results and formulas -/

/-- **An operation that has a formula leaves a result** with the value of the formula as its
expansion. -/
theorem HasFormula.result_eq (ha : a.length = (complete p o).size)
    (hb : b.length = (complete p o).size) {F : Formula}
    (h : op.HasFormula o (complete p o).size (a.getD 0 0) (b.getD 0 0) F) :
    ∃ c : List Rat, c.length = (complete p o).size ∧
      op.result (complete p o) a b = .ok (Jet.ofRat c) ∧
      expansion p o c = F.value o (a.getD 0 0) (b.getD 0 0) (expansion p o a)
        (expansion p o b) := by
  rw [result_complete ha hb]
  exact h.jet_eq ha hb

/-- **An operation that leaves a result has a formula.** -/
theorem exists_hasFormula_of_result (ha : a.length = (complete p o).size)
    (hb : b.length = (complete p o).size) {values : Jet Scalar}
    (h : op.result (complete p o) a b = .ok values) :
    ∃ F, op.HasFormula o (complete p o).size (a.getD 0 0) (b.getD 0 0) F := by
  rw [result_complete ha hb] at h
  exact exists_hasFormula ha hb h

/-! ## Renamed parameters -/

/-- **With renamed parameters the result has the renamed expansion.** -/
theorem HasFormula.relabelled {σ : Equiv.Perm Nat} {a' b' : List Rat}
    (ha : Relabels p o q k σ a a') (hb : Relabels p o q k σ b b') (hk : k ≤ o) {F : Formula}
    (h : op.HasFormula o (complete p o).size (a.getD 0 0) (b.getD 0 0) F)
    (h' : op.HasFormula k (complete q k).size (a.getD 0 0) (b.getD 0 0) (F.upTo k)) :
    ∃ c c' : List Rat, c.length = (complete p o).size ∧ c'.length = (complete q k).size ∧
      op.result (complete p o) a b = .ok (Jet.ofRat c) ∧
      op.result (complete q k) a' b' = .ok (Jet.ofRat c') ∧
      expansion q k c' = relabelling σ Rat p q hk (expansion p o c) := by
  have nilpotent : ∀ {x x' : List Rat}, Relabels p o q k σ x x' → ∀ i, k < i →
      (relabelling σ Rat p q hk (expansion p o x) - algebraMap Rat _ (x.getD 0 0)) ^ i = 0 := by
    intro x x' hx i hi
    rw [← hx.expansion_eq σ hk, ← hx.value, ← expansion_set_zero, expansion_set_zero_pow _ hi]
  rw [← ha.value, ← hb.value] at h'
  obtain ⟨c, hc, computed, expanded⟩ := h.result_eq ha.length hb.length
  obtain ⟨c', hc', computed', expanded'⟩ := h'.result_eq ha.length_right hb.length_right
  refine ⟨c, c', hc, hc', computed, computed', ?_⟩
  rw [expanded, expanded', F.map_value _ hk _ _ _ _ (nilpotent ha) (nilpotent hb), ha.value,
    hb.value, ha.expansion_eq σ hk, hb.expansion_eq σ hk]

/-- A result with the renamed expansion is the renamed result. -/
theorem eq_of_relabels {σ : Equiv.Perm Nat} {c c' d : List Rat} (hk : k ≤ o)
    (hc' : c'.length = (complete q k).size)
    (h : expansion q k c' = relabelling σ Rat p q hk (expansion p o c))
    (hd : Relabels p o q k σ c d) : c' = d :=
  eq_of_expansion_eq hc' hd.length_right (h.trans (hd.expansion_eq σ hk).symm)

/-! ## Layouts -/

theorem result_lowered (ha : a.length = (complete p (o + 1)).size)
    (hb : b.length = (complete p (o + 1)).size) {values : Jet Scalar}
    (h : op.result (complete p (o + 1)) a b = .ok values) : ∃ c : List Rat, values = Jet.ofRat c ∧
      op.result (complete p o) ((complete p (o + 1)).lowered a) ((complete p (o + 1)).lowered b) =
        .ok (Jet.ofRat ((complete p (o + 1)).lowered c)) := by
  obtain ⟨F, hF⟩ := exists_hasFormula_of_result ha hb h
  have lower := hF.upTo (Nat.le_succ o) (size_eq_one_of_le (Nat.le_refl p) (Nat.le_succ o))
  obtain ⟨c, c', hc, hc', computed, computed', expanded⟩ :=
    hF.relabelled (relabels_lowered ha) (relabels_lowered hb) (Nat.le_succ o) lower
  obtain rfl := eq_of_relabels _ hc' expanded (relabels_lowered hc)
  exact ⟨c, Except.ok.inj (h.symm.trans computed), computed'⟩

/-- Here the jets with more slots are where the parameters are renamed to. -/
theorem result_padded (ha : a.length = (complete p o).size) (hb : b.length = (complete p o).size)
    {values : Jet Scalar} (h : op.result (complete (p + 1) o) ((complete (p + 1) o).padded a)
      ((complete (p + 1) o).padded b) = .ok values) :
    ∃ c : List Rat, op.result (complete p o) a b = .ok (Jet.ofRat c) ∧
      values = Jet.ofRat ((complete (p + 1) o).padded c) := by
  have la := relabels_padded ha
  have lb := relabels_padded hb
  obtain ⟨F, hF⟩ := exists_hasFormula_of_result la.length_right lb.length_right h
  rw [la.value, lb.value] at hF
  have smaller := hF.upTo (Nat.le_refl o) (size_eq_one_of_le (Nat.le_succ p) (Nat.le_refl o))
  have larger := hF.upTo (Nat.le_refl o) id
  rw [← F.upTo_upTo o] at larger
  obtain ⟨c, c', hc, hc', computed, computed', expanded⟩ :=
    smaller.relabelled la lb (Nat.le_refl o) larger
  obtain rfl := eq_of_relabels _ hc' expanded (relabels_padded hc)
  exact ⟨c, computed, Except.ok.inj (h.symm.trans computed')⟩

theorem result_permuted (σ : Equiv.Perm (Fin p)) (ha : a.length = (complete p o).size)
    (hb : b.length = (complete p o).size) {values : Jet Scalar}
    (h : op.result (complete p o) a b = .ok values) : ∃ c : List Rat, values = Jet.ofRat c ∧
      op.result (complete p o) ((complete p o).permuted σ a) ((complete p o).permuted σ b) =
        .ok (Jet.ofRat ((complete p o).permuted σ c)) := by
  obtain ⟨F, hF⟩ := exists_hasFormula_of_result ha hb h
  obtain ⟨c, c', hc, hc', computed, computed', expanded⟩ := hF.relabelled
    (relabels_permuted σ ha) (relabels_permuted σ hb) (Nat.le_refl o) (hF.upTo (Nat.le_refl o) id)
  obtain rfl := eq_of_relabels _ hc' expanded (relabels_permuted σ hc)
  exact ⟨c, Except.ok.inj (h.symm.trans computed), computed'⟩

end JetOperation

/-! ## What callers may rely on -/

/-- **Operations on rational jets**: one with one result, or the joint form of two functions. -/
inductive ExactOperation where
  | single (op : JetOperation)
  | joint (f : JointOperation)

namespace ExactOperation

/-- What is left in the buffers of the results. -/
def results (t : Tables) (op : ExactOperation) (a b : List Rat) :
    Except OperationFault (List (Jet Scalar)) :=
  match op with
  | .single op => do return [← op.result t a b]
  | .joint f => f.results t a

/-- **The layout of jets makes no difference to results.**  In each case it is asked only that
the operation succeeds on the jets with more slots.

Derivatives of the highest order may be left out before or after the operation (`lower`); with a
parameter more, on which the operands do not depend, the results do not depend on it and are what
they are without (`pad`); and with the parameters numbered in another way the results are the
same, numbered in that way (`permute`). -/
structure RespectsLayouts (op : ExactOperation) : Prop where
  lower : ∀ {p o : Nat} {t s : Tables}, Built p (o + 1) t → Built p o s →
    ∀ {a b : List Rat}, a.length = t.size → b.length = t.size →
    ∀ {values : List (Jet Scalar)}, op.results t a b = .ok values →
      ∃ cs : List (List Rat), values = cs.map Jet.ofRat ∧
        op.results s (t.lowered a) (t.lowered b) = .ok ((cs.map t.lowered).map Jet.ofRat)
  pad : ∀ {p o : Nat} {t s : Tables}, Built (p + 1) o t → Built p o s →
    ∀ {a b : List Rat}, a.length = s.size → b.length = s.size →
    ∀ {values : List (Jet Scalar)}, op.results t (t.padded a) (t.padded b) = .ok values →
      ∃ cs : List (List Rat), values = (cs.map t.padded).map Jet.ofRat ∧
        op.results s a b = .ok (cs.map Jet.ofRat)
  permute : ∀ {p o : Nat} {t : Tables}, Built p o t → ∀ (σ : Equiv.Perm (Fin p)),
    ∀ {a b : List Rat}, a.length = t.size → b.length = t.size →
    ∀ {values : List (Jet Scalar)}, op.results t a b = .ok values →
      ∃ cs : List (List Rat), values = cs.map Jet.ofRat ∧
        op.results t (t.permuted σ a) (t.permuted σ b) = .ok ((cs.map (t.permuted σ)).map Jet.ofRat)

/-- The operations that leave one result each. -/
def parts : ExactOperation → List JetOperation
  | .single op => [op]
  | .joint f => [.function (.elementary f.first), .function (.elementary f.second)]

theorem results_eq {p o : Nat} {a b : List Rat} (ha : a.length = (complete p o).size)
    (hb : b.length = (complete p o).size) (op : ExactOperation) :
    op.results (complete p o) a b = op.parts.mapM (·.result (complete p o) a b) := by
  cases op with
  | single op => simp [results, parts]
  | joint f => simp [results, parts, f.results_eq ha hb]

/-- What goes for every part goes for all results. -/
theorem mapM_result {ops : List JetOperation}
    {r r' : JetOperation → Except OperationFault (Jet Scalar)} {f g : List Rat → List Rat}
    (h : ∀ op ∈ ops, ∀ v, r op = .ok v →
      ∃ c, v = Jet.ofRat (f c) ∧ r' op = .ok (Jet.ofRat (g c)))
    {values : List (Jet Scalar)} (computed : ops.mapM r = .ok values) : ∃ cs : List (List Rat),
      values = (cs.map f).map Jet.ofRat ∧ ops.mapM r' = .ok ((cs.map g).map Jet.ofRat) := by
  induction ops generalizing values with
  | nil =>
    cases computed
    exact ⟨[], rfl, rfl⟩
  | cons op ops ih =>
    rw [List.mapM_cons] at computed ⊢
    obtain ⟨v, hv, computed⟩ := bind_eq_ok_iff.mp computed
    obtain ⟨rest, hrest, computed⟩ := bind_eq_ok_iff.mp computed
    cases computed
    obtain ⟨c, rfl, hc⟩ := h op List.mem_cons_self v hv
    obtain ⟨cs, rfl, hcs⟩ := ih (fun op hop => h op (List.mem_cons_of_mem _ hop)) hrest
    exact ⟨c :: cs, rfl, bind_eq_ok hc (bind_eq_ok hcs rfl)⟩

/-- **Every operation respects layouts.** -/
theorem respectsLayouts (op : ExactOperation) : op.RespectsLayouts where
  lower {p o t s} ht hs a b ha hb values h := by
    obtain rfl := ht.eq_complete
    obtain rfl := hs.eq_complete
    rw [results_eq ha hb] at h
    rw [results_eq (relabels_lowered ha).length_right (relabels_lowered hb).length_right]
    obtain ⟨cs, rfl, lowered⟩ := mapM_result (f := id) (fun _ _ _ hv =>
      JetOperation.result_lowered ha hb hv) h
    exact ⟨cs, by rw [List.map_id], lowered⟩
  pad ht hs a b ha hb values h := by
    obtain rfl := ht.eq_complete
    obtain rfl := hs.eq_complete
    rw [results_eq (relabels_padded ha).length_right (relabels_padded hb).length_right] at h
    rw [results_eq ha hb]
    obtain ⟨cs, rfl, smaller⟩ := mapM_result (g := id) (fun _ _ _ hv =>
      (JetOperation.result_padded ha hb hv).imp fun _ => And.symm) h
    exact ⟨cs, rfl, by rw [smaller, List.map_id]⟩
  permute ht σ a b ha hb values h := by
    obtain rfl := ht.eq_complete
    rw [results_eq ha hb] at h
    rw [results_eq (relabels_permuted σ ha).length_right (relabels_permuted σ hb).length_right]
    obtain ⟨cs, rfl, permuted⟩ := mapM_result (f := id) (fun _ _ _ hv =>
      JetOperation.result_permuted σ ha hb hv) h
    exact ⟨cs, by rw [List.map_id], permuted⟩

/-- Products in two parameters: with the first derivatives alone, of jets in one parameter, and
with the two parameters exchanged. -/
theorem respectsLayouts_multiply :
    (∃ cs : List (List Rat),
      (single .multiply).results (complete 2 2) [2, 1, 0, 3, 0, 0] [5, 4, 1, 0, 0, 6] =
          .ok (cs.map Jet.ofRat) ∧
        (single .multiply).results (complete 2 1) [2, 1, 3] [5, 4, 0] =
          .ok ((cs.map (complete 2 2).lowered).map Jet.ofRat)) ∧
    (∃ cs : List (List Rat),
      (single .multiply).results (complete 2 2) [2, 1, 0, 0, 0, 0] [5, 4, 1, 0, 0, 0] =
          .ok ((cs.map (complete 2 2).padded).map Jet.ofRat) ∧
        (single .multiply).results (complete 1 2) [2, 1, 0] [5, 4, 1] = .ok (cs.map Jet.ofRat)) ∧
    ∃ cs : List (List Rat),
      (single .multiply).results (complete 2 2) [2, 1, 0, 3, 0, 0] [5, 4, 1, 0, 0, 6] =
          .ok (cs.map Jet.ofRat) ∧
        (single .multiply).results (complete 2 2) [2, 3, 0, 1, 0, 0] [5, 0, 6, 4, 0, 1] =
          .ok ((cs.map ((complete 2 2).permuted (Equiv.swap (0 : Fin 2) 1))).map Jet.ofRat) := by
  have succeeds : ∀ {a b : List Rat}, a.length = (complete 2 2).size →
      b.length = (complete 2 2).size → ∃ values,
        (single .multiply).results (complete 2 2) a b = .ok values := by
    intro a b ha hb
    obtain ⟨c, -, computed, -⟩ := JetOperation.HasFormula.result_eq ha hb .multiply
    exact ⟨[Jet.ofRat c], bind_eq_ok computed rfl⟩
  have layouts := respectsLayouts (single .multiply)
  have two : Built 2 2 (complete 2 2) := built_complete 2 2
  refine ⟨?_, ?_, ?_⟩
  · obtain ⟨values, h⟩ := succeeds (a := [2, 1, 0, 3, 0, 0]) (b := [5, 4, 1, 0, 0, 6]) rfl rfl
    obtain ⟨cs, rfl, lowered⟩ := layouts.lower two (built_complete 2 1) rfl rfl h
    exact ⟨cs, h, lowered⟩
  · obtain ⟨values, h⟩ := succeeds (a := [2, 1, 0, 0, 0, 0]) (b := [5, 4, 1, 0, 0, 0]) rfl rfl
    obtain ⟨cs, rfl, smaller⟩ := layouts.pad two (built_complete 1 2)
      (a := [2, 1, 0]) (b := [5, 4, 1]) rfl rfl h
    exact ⟨cs, h, smaller⟩
  · obtain ⟨values, h⟩ := succeeds (a := [2, 1, 0, 3, 0, 0]) (b := [5, 4, 1, 0, 0, 6]) rfl rfl
    obtain ⟨cs, rfl, permuted⟩ := layouts.permute two (Equiv.swap 0 1) rfl rfl h
    exact ⟨cs, h, permuted⟩

end ExactOperation

end JetAlgebra
