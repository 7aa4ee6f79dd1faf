import JetAlgebra.Proofs.Renumbering

/-!
# When lookups fail

A lookup builds a rectangle of signatures, any of which may be refused.  As smaller signatures
fit whenever the larger one does, it fails exactly if its own signature does not fit
(`Registry.get_cases`).

A lookup that failed has published nothing.  All it leaves behind is that some numbers of rules
are taken, which nobody can tell from the replies to later requests:
`System.failsCleanly_of_run`.
-/
namespace JetAlgebra
open Tables Grid ChainTerm

namespace Registry
variable {r : Registry} {limits : BuildLimits} {s : Signature}

/-- **All that preparing a lookup can do**: find the signature, build it, or refuse it. -/
theorem prepare_cases (h : r.Sound) (limits : BuildLimits) (s : Signature) :
    (∃ x, r.grid.cell? s.parameters s.order = some x ∧
      r.prepare limits s = (.ok (.found x), [], r)) ∨
    (r.grid.cell? s.parameters s.order = none ∧
      (complete s.parameters s.order).Within limits ∧ ∃ (x : Rules) (f : Filling),
        x.tables = complete s.parameters s.order ∧
        r.prepare limits s = (.ok (.built x r.published.current f.grid), f.events,
          { r with nextSerial := f.nextSerial })) ∨
    (r.grid.cell? s.parameters s.order = none ∧
      ¬ (complete s.parameters s.order).Within limits ∧ ∃ (fault : BuildFault) (f : Filling),
        r.nextSerial ≤ f.nextSerial ∧ r.prepare limits s =
          (.error fault, f.events, { r with nextSerial := f.nextSerial })) := by
  rw [prepare]
  rcases hc : r.grid.cell? s.parameters s.order with _ | x
  · obtain ⟨fills, -⟩ := Fills.start h.grid s.parameters s.order
    rcases hf : Filling.fill limits ⟨r.grid.enlarge s.parameters s.order, r.nextSerial, []⟩
      (diagonals s.parameters s.order) with ⟨f, fault⟩
    obtain ⟨-, serial, filled, fits⟩ := Filling.fill_spec
      (f := ⟨r.grid.enlarge s.parameters s.order, r.nextSerial, []⟩) fills hf
    obtain ⟨rows, columns, shape⟩ := h.grid.rectangular
    have empty : (r.grid.enlarge s.parameters s.order).cell? s.parameters s.order = none :=
      (shape.cell?_enlarge _ _ _ _).trans hc
    -- The signature is the largest of its rectangle, and it is empty.
    have fits_iff : fault = none ↔ (complete s.parameters s.order).Within limits := by
      refine fits.trans ⟨fun all => ?_, fun own c hmem _ => ?_⟩
      · exact all (s.parameters, s.order) (mem_diagonals.mpr ⟨le_rfl, le_rfl⟩) empty
      · obtain ⟨hq, hk⟩ := mem_diagonals.mp hmem
        exact own.mono hq hk
    cases fault with
    | none =>
      obtain ⟨x, -, answer, ht⟩ := (filled rfl).exists_rules
      refine Or.inr (Or.inl ⟨rfl, fits_iff.mp rfl, x, f, ht, ?_⟩)
      simp only [hf, answer]
    | some fault =>
      refine Or.inr (Or.inr ⟨rfl, fun own => ?_, fault, f, serial, by simp only [hf]⟩)
      exact absurd (fits_iff.mpr own) (Option.some_ne_none fault)
  · exact Or.inl ⟨x, rfl, rfl⟩

/-- **All that a lookup can do**, if the others leave it alone but for its publication. -/
theorem get_cases (h : r.Sound) (limits : BuildLimits) (s : Signature) (loses : Bool) :
    (∃ x, r.grid.cell? s.parameters s.order = some x ∧
      r.get limits s ⟨none, loses⟩ = ⟨.ok x, [], r⟩) ∨
    (r.grid.cell? s.parameters s.order = none ∧
      (complete s.parameters s.order).Within limits ∧ ∃ x : Rules,
        x.tables = complete s.parameters s.order ∧ (r.get limits s ⟨none, loses⟩).answer = .ok x) ∨
    (r.grid.cell? s.parameters s.order = none ∧
      ¬ (complete s.parameters s.order).Within limits ∧ ∃ (fault : BuildFault) (m : Nat),
        r.nextSerial ≤ m ∧ (r.get limits s ⟨none, loses⟩).answer = .error (.build fault) ∧
          (r.get limits s ⟨none, loses⟩).registry = { r with nextSerial := m }) := by
  rw [get]
  rcases prepare_cases h limits s with ⟨x, there, hp⟩ | ⟨hn, fits, x, f, ht, hp⟩ |
    ⟨hn, refused, fault, f, serial, hp⟩
  · exact Or.inl ⟨x, there, by rw [hp]⟩
  · exact Or.inr (Or.inl ⟨hn, fits, x, ht, by rw [hp]; rfl⟩)
  · exact Or.inr (Or.inr ⟨hn, refused, fault, f.nextSerial, serial, by rw [hp], by rw [hp]⟩)

/-- **A lookup fails** exactly if its signature is not published and does not fit. -/
theorem get_error_iff (h : r.Sound) (limits : BuildLimits) (s : Signature) (loses : Bool) :
    (∃ fault, (r.get limits s ⟨none, loses⟩).answer = .error (.build fault)) ↔
      r.grid.cell? s.parameters s.order = none ∧
        ¬ (complete s.parameters s.order).Within limits := by
  rcases get_cases h limits s loses with ⟨x, there, hg⟩ | ⟨hn, fits, x, -, hg⟩ |
    ⟨hn, refused, fault, m, -, hg, -⟩
  · rw [hg, there]
    simp
  · rw [hg]
    simp [fits]
  · exact ⟨fun _ => ⟨hn, refused⟩, fun _ => ⟨fault, hg⟩⟩

/-- A lookup that does not fail has the tables of its signature. -/
theorem get_answers (h : r.Sound) (limits : BuildLimits) (s : Signature) (loses : Bool) :
    (∃ fault, (r.get limits s ⟨none, loses⟩).answer = .error (.build fault)) ∨
      ∃ x, (r.get limits s ⟨none, loses⟩).answer = .ok x ∧
        x.tables = complete s.parameters s.order := by
  rcases get_cases h limits s loses with ⟨x, there, hg⟩ | ⟨-, -, x, ht, hg⟩ |
    ⟨-, -, fault, m, -, hg, -⟩
  · exact Or.inr ⟨x, by rw [hg], h.grid.canonical there⟩
  · exact Or.inr ⟨x, hg, ht⟩
  · exact Or.inl ⟨fault, hg⟩

/-- **A lookup that failed** has taken some numbers for rules, and nothing else. -/
theorem registry_of_error (h : r.Sound) {loses : Bool} {fault : LookupFault}
    (he : (r.get limits s ⟨none, loses⟩).answer = .error fault) :
    ∃ d, (r.get limits s ⟨none, loses⟩).registry = { r with nextSerial := r.nextSerial + d } := by
  rcases get_cases h limits s loses with ⟨x, -, hg⟩ | ⟨-, -, x, -, hg⟩ |
    ⟨-, -, _, m, serial, -, after⟩
  · rw [hg] at he
    cases he
  · rw [hg] at he
    cases he
  · obtain ⟨d, rfl⟩ := Nat.exists_eq_add_of_le serial
    exact ⟨d, after⟩

/-- A signature that is published is found, whatever else happens. -/
theorem get_of_cell? {x : Rules} (h : r.grid.cell? s.parameters s.order = some x)
    (interference : Interference) : r.get limits s interference = ⟨.ok x, [], r⟩ := by
  have found : r.prepare limits s = (.ok (.found x), [], r) := by rw [prepare, h]
  rw [get, found]

/-- Taking numbers for rules that nobody gets moves the numbers of all later ones. -/
theorem renumber_eq (h : ∀ {x}, r.Holds x → x.serial < r.nextSerial) (d : Nat) :
    r.renumber r.nextSerial d = { r with nextSerial := r.nextSerial + d } := by
  have published : r.published.current.map (Snapshot.renumber r.nextSerial d) =
      r.published.current := by
    rcases hc : r.published.current with _ | t
    · rfl
    · have grid : r.grid = t.grid := by rw [Registry.grid, hc]; rfl
      have same : t.grid.renumber r.nextSerial d = t.grid :=
        renumber_eq_self fun {q k x} hx => h ⟨q, k, grid ▸ hx⟩
      exact congrArg some (by rw [Snapshot.renumber, same])
  rw [renumber, published]

/-! ## What callers may rely on -/

/-- Which limits a signature exceeds. -/
theorem not_within_iff {p o : Nat} : ¬ (complete p o).Within limits ↔
    limits.indexMax < ((p + o).choose o : Nat) ∨
      (p ≠ 0 ∧ o ≠ 0 ∧ limits.maxTerms < termCount (complete p o).composition) ∨
      limits.indexMax < (Weighted.largest (complete p o).composition : Nat) := by
  rw [within_complete_iff, size_complete, not_and_or, not_and_or, not_le, not_le]
  refine or_congr Iff.rfl (or_congr ?_ Iff.rfl)
  rw [Classical.not_imp, Classical.not_imp, not_le]

/-- **A lookup fails for its own signature only, and then it has changed nothing.** -/
structure FailsCleanly (r : Registry) (limits : BuildLimits) (s : Signature) (loses : Bool) :
    Prop where
  /-- It fails if the signature is not published, and exceeds one of the limits itself. -/
  fails_iff : (∃ fault, (r.get limits s ⟨none, loses⟩).answer = .error (.build fault)) ↔
    r.grid.cell? s.parameters s.order = none ∧
      (limits.indexMax < ((s.parameters + s.order).choose s.order : Nat) ∨
        (s.parameters ≠ 0 ∧ s.order ≠ 0 ∧
          limits.maxTerms < termCount (complete s.parameters s.order).composition) ∨
        limits.indexMax < (Weighted.largest (complete s.parameters s.order).composition : Nat))
  /-- Else it has an answer. -/
  answers : (∃ fault, (r.get limits s ⟨none, loses⟩).answer = .error (.build fault)) ∨
    ∃ x, (r.get limits s ⟨none, loses⟩).answer = .ok x ∧
      x.tables = complete s.parameters s.order
  /-- The published snapshot is the same object after a failure. -/
  unchanged : ∀ {fault}, (r.get limits s ⟨none, loses⟩).answer = .error fault →
    (r.get limits s ⟨none, loses⟩).registry.published = r.published
  /-- Later requests, of whatever kind, have the replies that they would have had, up to the
  numbers of rules that are still to be built. -/
  later : ∀ {fault}, (r.get limits s ⟨none, loses⟩).answer = .error fault →
    ∃ d, ∀ requests, (r.get limits s ⟨none, loses⟩).registry.serve requests =
      (r.serve requests).map (Reply.renumber r.nextSerial d)
  /-- What was published before is still found after a failure, under all limits. -/
  found : ∀ {fault}, (r.get limits s ⟨none, loses⟩).answer = .error fault →
    ∀ {q k x}, r.grid.cell? q k = some x → ∀ narrow interference,
      ((r.get limits s ⟨none, loses⟩).registry.get narrow ⟨q, k⟩ interference).answer = .ok x

end Registry

/-- **Lookups fail cleanly** in every registry that lookups can lead to. -/
theorem System.failsCleanly_of_run {sys : System} (h : Run {} sys) (limits : BuildLimits)
    (s : Signature) (loses : Bool) : sys.registry.FailsCleanly limits s loses := by
  obtain ⟨sound, -⟩ := sound_of_run h sound_initial
  have numbered := numbered_of_run h sound_initial numbered_initial
  have sound := sound.registry
  refine ⟨?_, Registry.get_answers sound limits s loses, ?_, ?_, ?_⟩
  · rw [Registry.get_error_iff sound, Registry.not_within_iff]
  · intro fault he
    obtain ⟨d, after⟩ := Registry.registry_of_error sound he
    rw [after]
  · intro fault he
    obtain ⟨d, after⟩ := Registry.registry_of_error sound he
    refine ⟨d, fun requests => ?_⟩
    rw [after, ← Registry.renumber_eq fun hx => numbered.serial (Or.inl hx),
      Registry.serve_renumber sound le_rfl]
  · intro fault he q k x hx narrow interference
    obtain ⟨d, after⟩ := Registry.registry_of_error sound he
    have there : ({ sys.registry with
      nextSerial := sys.registry.nextSerial + d } : Registry).grid.cell? q k = some x := hx
    rw [after, Registry.get_of_cell? (s := ⟨q, k⟩) there]

/-- After `(1, 1)` was published, `(1, 2)` has one term more than is allowed and fails. -/
theorem System.failsCleanly_terms : ∃ sys, Run {} sys ∧
    sys.registry.signatures = [⟨0, 0⟩, ⟨0, 1⟩, ⟨1, 0⟩, ⟨1, 1⟩] ∧
    (∃ fault, (sys.registry.get ⟨machineIndexMax, 3⟩ ⟨1, 2⟩ {}).answer = .error (.build fault)) ∧
    sys.registry.FailsCleanly ⟨machineIndexMax, 3⟩ ⟨1, 2⟩ false := by
  obtain ⟨more, run, -⟩ := Run.get ⟨machineIndexMax, 3⟩ {} ⟨1, 1⟩ {} []
  have published : (({} : Registry).get ⟨machineIndexMax, 3⟩ ⟨1, 1⟩ {}).registry.signatures =
      [⟨0, 0⟩, ⟨0, 1⟩, ⟨1, 0⟩, ⟨1, 1⟩] := by decide
  have missing : ((({} : Registry).get ⟨machineIndexMax, 3⟩ ⟨1, 1⟩ {}).registry.grid.cell? 1 2
      ).isNone := by decide
  have cleanly := failsCleanly_of_run run ⟨machineIndexMax, 3⟩ ⟨1, 2⟩ false
  refine ⟨_, run, published, cleanly.fails_iff.mpr ⟨Option.isNone_iff_eq_none.mp missing, ?_⟩,
    cleanly⟩
  exact Or.inr (Or.inl ⟨by decide, by decide, by decide⟩)

end JetAlgebra
