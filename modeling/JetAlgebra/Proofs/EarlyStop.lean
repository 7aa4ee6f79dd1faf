import JetAlgebra.Proofs.LookupFailure

/-!
# Giving up on a table early

The terms of a composition table are counted while its rows are built, and building stops between
two rows once there are more than the limit.  The count that it stops at is that of the first
rows beyond the limit (`ChainTerm.StopsAt`, `ChainTerm.extendRows?_eq_error`): more than the
limit, and no more than the whole table has, though the rest of the table is never looked at.

So an early stop refuses the tables that a check of the finished table would refuse.  Of several
limits that are exceeded the first one that is checked is reported: `Tables.build?_cell_eq_error`.
-/
namespace JetAlgebra
open Tables

namespace ChainTerm

/-- **The count that building stops at**, when `count` terms are there before the rows: that of
the first rows with which there are more than the limit. -/
def StopsAt (limit count : Nat) (rows : List (List ChainTerm)) (m : Nat) : Prop :=
  ∃ j ≤ rows.length, m = count + termCount (rows.take j) ∧ limit < m ∧
    ∀ i < j, count + termCount (rows.take i) ≤ limit

section StopsAt
variable {limit count m : Nat} {rows : List (List ChainTerm)}

theorem StopsAt.here (h : limit < count) (rows : List (List ChainTerm)) :
    StopsAt limit count rows count :=
  ⟨0, Nat.zero_le _, rfl, h, fun _ hi => absurd hi (Nat.not_lt_zero _)⟩

/-- A row that stays within the limit is passed. -/
theorem StopsAt.next {row : List ChainTerm} (hc : count ≤ limit)
    (h : StopsAt limit (count + row.length) rows m) : StopsAt limit count (row :: rows) m := by
  obtain ⟨j, hj, rfl, beyond, first⟩ := h
  refine ⟨j + 1, Nat.succ_le_succ hj, ?_, beyond, fun i hi => ?_⟩
  · rw [List.take_succ_cons, termCount_cons, Nat.add_assoc]
  · cases i with
    | zero => exact hc
    | succ i =>
      rw [List.take_succ_cons, termCount_cons, ← Nat.add_assoc]
      exact first i (Nat.lt_of_succ_lt_succ hi)

theorem StopsAt.limit_lt (h : StopsAt limit count rows m) : limit < m := by
  obtain ⟨j, -, -, beyond, -⟩ := h
  exact beyond

/-- **No more terms are counted than there are.** -/
theorem StopsAt.le_termCount (h : StopsAt limit count rows m) : m ≤ count + termCount rows := by
  obtain ⟨j, -, rfl, -, -⟩ := h
  have parts := termCount_append (rows.take j) (rows.drop j)
  rw [List.take_append_drop] at parts
  omega

/-- The first rows beyond the limit, counted from the first row of all. -/
theorem StopsAt.exists_take {before : List (List ChainTerm)}
    (h : StopsAt limit (termCount before) rows m) :
    ∃ j ≤ (before ++ rows).length, before.length ≤ j ∧ m = termCount ((before ++ rows).take j) ∧
      ∀ i < j, before.length ≤ i → termCount ((before ++ rows).take i) ≤ limit := by
  have counted : ∀ i, termCount ((before ++ rows).take (before.length + i)) =
      termCount before + termCount (rows.take i) := by
    intro i
    rw [List.take_length_add_append, termCount_append]
  obtain ⟨j, hj, rfl, -, first⟩ := h
  refine ⟨before.length + j, ?_, Nat.le_add_right _ _, (counted j).symm, fun i hi after => ?_⟩
  · rw [List.length_append]
    omega
  · obtain ⟨i, rfl⟩ := Nat.exists_eq_add_of_le after
    rw [counted]
    exact first i (by omega)

/-- **Building rows fails with the count that it stops at.** -/
theorem extendRows?_eq_error {r : Renumbering} (h : extendRows? limit r count rows = .error m) :
    StopsAt limit count (rows.map (differentiateRow r)) m := by
  -- Each row is counted after it is built, so the induction is on the rows for every count.
  induction rows generalizing count with
  | nil =>
    unfold extendRows? at h
    split at h
    · next beyond => cases h; exact .here beyond _
    · cases h
  | cons row rows ih =>
    unfold extendRows? at h
    split at h
    · next beyond => cases h; exact .here beyond _
    · next within =>
      rcases bind_eq_error_iff.mp h with stopped | ⟨_, _, h⟩
      · exact .next (Nat.le_of_not_lt within) (ih stopped)
      · cases h

end StopsAt

end ChainTerm

namespace Tables
open ChainTerm
variable {limits : BuildLimits} {p o : Nat} {value derivative : Tables} {fault : BuildFault}

/-- The rows that come after those of the value part. -/
def newRows (p o : Nat) (value derivative : Tables) : List (List ChainTerm) :=
  derivative.composition.map
    (differentiateRow (renumbering (p + 1) (o + 1) value.sizesAbove derivative))

theorem composition_join (p o : Nat) (value derivative : Tables) :
    (join p o value derivative).composition = value.composition ++ newRows p o value derivative :=
  rfl

/-- **Composition rows fail** for their number of terms only. -/
theorem compositionRows?_eq_error {limit : Nat}
    (h : compositionRows? limit p o value derivative = .error fault) :
    ∃ m, fault = .tooManyTerms (p + 1) (o + 1) m limit ∧
      StopsAt limit (termCount value.composition) (newRows p o value derivative) m := by
  simp only [compositionRows?] at h
  split at h
  · cases h
  · next m stopped => cases h; exact ⟨m, rfl, extendRows?_eq_error stopped⟩

/-- **Why the tables of `(p + 1, o + 1)` are refused**: of the limits that they exceed, the
first one that is checked. -/
theorem build?_cell_eq_error (h : build? limits (p + 1) (o + 1) value derivative = .error fault) :
    (fault = .tooManySlots (p + 1) (o + 1) (value.sizesAbove.count (p + 1) (o + 1)) ∧
      limits.indexMax < (value.sizesAbove.count (p + 1) (o + 1) : Int)) ∨
    ((value.sizesAbove.count (p + 1) (o + 1) : Int) ≤ limits.indexMax ∧
      ∃ m, fault = .tooManyTerms (p + 1) (o + 1) m limits.maxTerms ∧
        StopsAt limits.maxTerms (termCount value.composition) (newRows p o value derivative) m) ∨
    (termCount (join p o value derivative).composition ≤ limits.maxTerms ∧
      fault = .coefficientTooLarge (p + 1) (o + 1)
        (Weighted.largest (join p o value derivative).composition) ∧
      limits.indexMax < (Weighted.largest (join p o value derivative).composition : Int)) := by
  rcases bind_eq_error_iff.mp h with unassembled | ⟨t, assembled, h⟩
  · unfold assemble? at unassembled
    by_cases slots : limits.indexMax < (value.sizesAbove.count (p + 1) (o + 1) : Int)
    · simp only [if_pos slots] at unassembled
      cases unassembled
      exact Or.inl ⟨rfl, slots⟩
    · simp only [if_neg slots] at unassembled
      rcases bind_eq_error_iff.mp unassembled with stopped | ⟨_, _, h⟩
      · exact Or.inr (Or.inl ⟨Int.not_lt.mp slots, compositionRows?_eq_error stopped⟩)
      · cases h
  · obtain ⟨-, rfl, terms⟩ := assemble?_cell_eq_ok_iff.mp assembled
    simp only at h
    split at h
    · next large => cases h; exact Or.inr (Or.inr ⟨terms, rfl, large⟩)
    · cases h

/-! ## What callers may rely on -/

/-- **What is said when there are too many terms**: the fault of the tables of `(p, o)`, with `m`
terms counted. -/
structure ReportsTerms (limits : BuildLimits) (p o : Nat) (fault : BuildFault) (m : Nat) :
    Prop where
  fault_eq : fault = .tooManyTerms p o m limits.maxTerms
  /-- The terms that were counted are more than the limit. -/
  beyond : limits.maxTerms < m
  /-- The complete table has all of them. -/
  counted : m ≤ termCount (complete p o).composition
  /-- They are the terms of the first rows, and no fewer rows have too many; but the rows of one
  parameter less come all at once. -/
  earliest : ∃ j ≤ (complete p o).composition.length,
    (complete (p - 1) o).composition.length ≤ j ∧
      m = termCount ((complete p o).composition.take j) ∧
        ∀ i < j, (complete (p - 1) o).composition.length ≤ i →
          termCount ((complete p o).composition.take i) ≤ limits.maxTerms
  message : fault.message = s!"the ({p}, {o}) composition table needs at least {m} terms, " ++
    s!"more than the limit of {limits.maxTerms}; see TAYLORKIT_MAX_TABLE_TERMS."
  warning : ∃ event, fault.event? = some event ∧ event.level = .warning ∧ event.text =
    s!"Composition table of ({p}, {o}) would hold at least {m} terms (limit {limits.maxTerms})."

/-- **Limits refuse what exceeds them, and nothing else**: for the tables of `(p, o)` that are
built from `value` and `derivative`. -/
structure RefusedExactly (limits : BuildLimits) (p o : Nat) (value derivative : Tables) :
    Prop where
  refused_iff : (∃ fault, build? limits p o value derivative = .error fault) ↔
    limits.indexMax < ((p + o).choose o : Nat) ∨
      limits.maxTerms < termCount (complete p o).composition ∨
      limits.indexMax < (Weighted.largest (complete p o).composition : Nat)
  /-- What is not refused is complete. -/
  answers : (∃ fault, build? limits p o value derivative = .error fault) ∨
    build? limits p o value derivative = .ok (complete p o)
  /-- The limit on the terms does not change the tables. -/
  independent : ∀ {t t' : Tables} {maxTerms : Nat},
    build? limits p o value derivative = .ok t →
      build? ⟨limits.indexMax, maxTerms⟩ p o value derivative = .ok t' → t' = t
  /-- The number of terms is looked at after that of the slots, and before the coefficients. -/
  stopped_iff :
    (∃ fault m, build? limits p o value derivative = .error fault ∧
      ReportsTerms limits p o fault m) ↔
    ((p + o).choose o : Nat) ≤ limits.indexMax ∧
      limits.maxTerms < termCount (complete p o).composition
  /-- Every stop on the number of terms is reported with a count that is right. -/
  reported : ∀ {q k m limit : Nat},
    build? limits p o value derivative = .error (.tooManyTerms q k m limit) →
      ReportsTerms limits p o (.tooManyTerms q k m limit) m
  /-- Filling a grid warns of it once, and leaves the grid as it is. -/
  warned : ∀ {q k m limit : Nat} {f : Filling},
    build? limits p o value derivative = .error (.tooManyTerms q k m limit) →
      f.grid.cell? p o = none → f.buildCell limits p o = build? limits p o value derivative →
        f.fillCell limits p o = (⟨f.grid, f.nextSerial, f.events ++ [.tooManyTerms q k m limit]⟩,
          some (.tooManyTerms q k m limit))

/-- **What is said of tables that are refused**, if their neighbours are complete. -/
theorem build?_complete_eq_error
    (h : build? limits (p + 1) (o + 1) (complete p (o + 1)) (complete (p + 1) o) = .error fault) :
    (fault = .tooManySlots (p + 1) (o + 1) (complete (p + 1) (o + 1)).size ∧
      limits.indexMax < ((complete (p + 1) (o + 1)).size : Int)) ∨
    (((complete (p + 1) (o + 1)).size : Int) ≤ limits.indexMax ∧
      ∃ m, ReportsTerms limits (p + 1) (o + 1) fault m) ∨
    (termCount (complete (p + 1) (o + 1)).composition ≤ limits.maxTerms ∧
      fault = .coefficientTooLarge (p + 1) (o + 1)
        (Weighted.largest (complete (p + 1) (o + 1)).composition) ∧
      limits.indexMax < (Weighted.largest (complete (p + 1) (o + 1)).composition : Int)) := by
  have total : termCount (complete (p + 1) (o + 1)).composition =
      termCount (complete p (o + 1)).composition +
        termCount (newRows p o (complete p (o + 1)) (complete (p + 1) o)) := by
    rw [complete_succ_succ, composition_join, termCount_append]
  rcases build?_cell_eq_error h with slots | ⟨slots, m, rfl, stops⟩ | coefficients
  · rw [count_sizesAbove] at slots
    exact Or.inl slots
  · rw [count_sizesAbove] at slots
    refine Or.inr (Or.inl ⟨slots, m, rfl, stops.limit_lt, ?_, stops.exists_take, rfl, _, rfl, rfl,
      rfl⟩)
    rw [total]
    exact stops.le_termCount
  · exact Or.inr (Or.inr coefficients)

/-- **Every stop on the number of terms is reported** with a count that is right. -/
theorem reportsTerms_of_error {q k m limit : Nat}
    (h : build? limits (p + 1) (o + 1) (complete p (o + 1)) (complete (p + 1) o) =
      .error (.tooManyTerms q k m limit)) :
    ReportsTerms limits (p + 1) (o + 1) (.tooManyTerms q k m limit) m := by
  rcases build?_complete_eq_error h with ⟨other, -⟩ | ⟨-, m', report⟩ | ⟨-, other, -⟩
  · cases other
  · cases report.fault_eq
    exact report
  · cases other

/-- **The number of terms stops a build** if there are too many, and not too many slots. -/
theorem exists_reportsTerms_iff :
    (∃ fault m, build? limits (p + 1) (o + 1) (complete p (o + 1)) (complete (p + 1) o) =
      .error fault ∧ ReportsTerms limits (p + 1) (o + 1) fault m) ↔
    ((complete (p + 1) (o + 1)).size : Int) ≤ limits.indexMax ∧
      limits.maxTerms < termCount (complete (p + 1) (o + 1)).composition := by
  constructor
  · rintro ⟨fault, m, failed, report⟩
    have terms := Nat.lt_of_lt_of_le report.beyond report.counted
    rcases build?_complete_eq_error failed with ⟨other, -⟩ | ⟨slots, -⟩ | ⟨within, -⟩
    · cases report.fault_eq.symm.trans other
    · exact ⟨slots, terms⟩
    · omega
  · rintro ⟨slots, terms⟩
    rcases build?_complete_cases limits (p + 1) (o + 1) with ⟨-, fault, failed⟩ | ⟨fits, -⟩
    · rcases build?_complete_eq_error failed with ⟨-, beyond⟩ | ⟨-, m, report⟩ | ⟨within, -⟩
      · omega
      · exact ⟨fault, m, failed, report⟩
      · omega
    · obtain ⟨-, within, -⟩ := within_complete_iff.mp fits
      have few := within (Nat.succ_ne_zero p) (Nat.succ_ne_zero o)
      omega

/-- **A build is refused** for the sake of one of the limits. -/
theorem exists_error_iff :
    (∃ fault, build? limits (p + 1) (o + 1) (complete p (o + 1)) (complete (p + 1) o) =
      .error fault) ↔
    limits.indexMax < ((p + 1 + (o + 1)).choose (o + 1) : Nat) ∨
      limits.maxTerms < termCount (complete (p + 1) (o + 1)).composition ∨
      limits.indexMax < (Weighted.largest (complete (p + 1) (o + 1)).composition : Nat) := by
  have exceeded := @Registry.not_within_iff limits (p + 1) (o + 1)
  simp only [ne_eq, Nat.succ_ne_zero, not_false_eq_true, true_and] at exceeded
  rw [← exceeded]
  rcases build?_complete_cases limits (p + 1) (o + 1) with ⟨refused, failed⟩ | ⟨fits, built⟩
  · exact ⟨fun _ => refused, fun _ => failed⟩
  · exact ⟨fun ⟨_, failed⟩ => (nomatch built.symm.trans failed), fun refused => absurd fits refused⟩

end Tables

/-- **Stopping early refuses the tables that are too large**, and no others. -/
theorem Tables.refusedExactly_of_built {p o : Nat} {value derivative : Tables}
    (hv : Built p (o + 1) value) (hd : Built (p + 1) o derivative) (limits : BuildLimits) :
    RefusedExactly limits (p + 1) (o + 1) value derivative := by
  obtain rfl := hv.eq_complete
  obtain rfl := hd.eq_complete
  have cases := build?_complete_cases limits (p + 1) (o + 1)
  refine ⟨exists_error_iff, cases.imp And.right And.right, ?_, ?_, reportsTerms_of_error, ?_⟩
  · intro t t' maxTerms ht ht'
    obtain ⟨rfl, -⟩ := build?_complete_eq_ok_iff.mp ht
    exact (build?_complete_eq_ok_iff.mp ht').1
  · rw [← size_complete]
    exact exists_reportsTerms_iff
  · intro q k m limit f failed empty built
    rw [Filling.fillCell, empty]
    simp only [built, failed]
    rfl

/-- The tables of `(1, 2)` have four terms, one more than is allowed. -/
theorem Tables.refusedExactly_one_two : Built 0 2 (complete 0 2) ∧ Built 1 1 (complete 1 1) ∧
    build? ⟨machineIndexMax, 3⟩ 1 2 (complete 0 2) (complete 1 1) =
      .error (.tooManyTerms 1 2 4 3) ∧
    RefusedExactly ⟨machineIndexMax, 3⟩ 1 2 (complete 0 2) (complete 1 1) :=
  ⟨built_complete 0 2, built_complete 1 1, by decide,
    refusedExactly_of_built (built_complete 0 2) (built_complete 1 1) ⟨machineIndexMax, 3⟩⟩

end JetAlgebra
