import JetAlgebra.Registry
import Mathlib.Logic.Relation

/-!
# Lookups that interleave

A `Lookup` reads the published snapshot, fills a grid of its own cell by cell, and tries once to
publish it.  `Advance` is one step of a lookup; the registry is all that lookups share, and each
step touches it at most once.  A `System` has any number of lookups, of any signatures, and a
`Run` interleaves their steps in any order, under limits that may be different at every cell.

No lookup waits for another one: it ends after a number of steps that is known when it starts
(`Advance.remaining_lt`, `Advance.exists_of_remaining`).  The functions that the registry is
used through are runs: `Run.getAlone` and `Run.get`.
-/
namespace JetAlgebra

/-- Where a lookup is. -/
inductive Lookup where
  | waiting (s : Signature)
  | filling (s : Signature) (readFrom : Option Snapshot) (f : Filling) (rest : List (Nat × Nat))
  | returned (s : Signature) (rules : Rules)
  | failed (s : Signature) (fault : BuildFault)

/-- **A step of a lookup**, with the registry before and after it.  Rules get their numbers from
the registry, whoever builds them. -/
inductive Advance : Registry → Lookup → Registry → Lookup → Prop where
  /-- The signature is in the snapshot. -/
  | hit {r : Registry} {s : Signature} {rules : Rules}
      (h : r.grid.cell? s.parameters s.order = some rules) :
      Advance r (.waiting s) r (.returned s rules)
  /-- The signature is not in the snapshot, and a larger grid is to be filled. -/
  | miss {r : Registry} {s : Signature} (h : r.grid.cell? s.parameters s.order = none) :
      Advance r (.waiting s) r (.filling s r.published.current
        ⟨r.grid.enlarge s.parameters s.order, r.nextSerial, []⟩
        (Grid.diagonals s.parameters s.order))
  /-- A cell is looked at and is filled afterwards. -/
  | fill {limits : BuildLimits} {r : Registry} {s : Signature} {readFrom : Option Snapshot}
      {f f' : Filling} {q k : Nat} {rest : List (Nat × Nat)}
      (h : Filling.fillCell limits { f with nextSerial := r.nextSerial } q k = (f', none)) :
      Advance r (.filling s readFrom f ((q, k) :: rest)) { r with nextSerial := f'.nextSerial }
        (.filling s readFrom f' rest)
  /-- A cell is looked at and cannot be built. -/
  | refuse {limits : BuildLimits} {r : Registry} {s : Signature} {readFrom : Option Snapshot}
      {f f' : Filling} {q k : Nat} {rest : List (Nat × Nat)} {fault : BuildFault}
      (h : Filling.fillCell limits { f with nextSerial := r.nextSerial } q k = (f', some fault)) :
      Advance r (.filling s readFrom f ((q, k) :: rest)) { r with nextSerial := f'.nextSerial }
        (.failed s fault)
  /-- The grid is published, unless somebody else published meanwhile. -/
  | publish {r : Registry} {s : Signature} {readFrom : Option Snapshot} {f : Filling} :
      Advance r (.filling s readFrom f []) (r.publish readFrom f.grid).2
        (.returned s ((f.grid.cell? s.parameters s.order).getD default))
  /-- The publication is lost. -/
  | lose {r : Registry} {s : Signature} {readFrom : Option Snapshot} {f : Filling} :
      Advance r (.filling s readFrom f []) r
        (.returned s ((f.grid.cell? s.parameters s.order).getD default))

/-- A registry and the lookups that were started on it. -/
structure System where
  registry : Registry := {}
  lookups : List Lookup := []

/-- **A step of a system**: a lookup is started, or one of the lookups advances. -/
inductive Step : System → System → Prop where
  | call {r : Registry} {lookups : List Lookup} (s : Signature) :
      Step ⟨r, lookups⟩ ⟨r, lookups ++ [.waiting s]⟩
  | advance {r r' : Registry} {l l' : Lookup} (before after : List Lookup)
      (h : Advance r l r' l') : Step ⟨r, before ++ l :: after⟩ ⟨r', before ++ l' :: after⟩

/-- Any number of steps, in any order. -/
abbrev Run : System → System → Prop := Relation.ReflTransGen Step

/-! ## No lookup waits for another -/

/-- The most steps that a lookup can still take. -/
def Lookup.remaining : Lookup → Nat
  | .waiting s => (Grid.diagonals s.parameters s.order).length + 2
  | .filling _ _ _ rest => rest.length + 1
  | .returned _ _ | .failed _ _ => 0

/-- **A lookup ends** after so many of its own steps, whatever the others do. -/
theorem Advance.remaining_lt {r r' : Registry} {l l' : Lookup} (h : Advance r l r' l') :
    l'.remaining < l.remaining := by
  cases h with
  | hit | refuse | publish | lose => exact Nat.succ_pos _
  | miss | fill => exact Nat.lt_succ_self _

/-- **A lookup that has not ended can go on**, whatever the others did. -/
theorem Advance.exists_of_remaining (limits : BuildLimits) (r : Registry) {l : Lookup}
    (h : l.remaining ≠ 0) : ∃ r' l', Advance r l r' l' := by
  cases l with
  | waiting s =>
    rcases hc : r.grid.cell? s.parameters s.order with _ | rules
    · exact ⟨_, _, .miss hc⟩
    · exact ⟨_, _, .hit hc⟩
  | filling s readFrom f rest =>
    rcases rest with _ | ⟨⟨q, k⟩, rest⟩
    · exact ⟨_, _, .publish⟩
    · rcases hc : Filling.fillCell limits { f with nextSerial := r.nextSerial } q k with
        ⟨f', _ | fault⟩
      · exact ⟨_, _, .fill hc⟩
      · exact ⟨_, _, .refuse hc⟩
  | returned s rules => exact absurd rfl h
  | failed s fault => exact absurd rfl h

/-! ## What is run are runs -/

namespace Run
variable {limits : BuildLimits} {r : Registry} {s : Signature}

/-- Filling cells in turn, while the registry has the numbers of the filling. -/
theorem fill {f f' : Filling} {fault : Option BuildFault} {rest : List (Nat × Nat)}
    (readFrom : Option Snapshot) (before after : List Lookup)
    (h : f.fill limits rest = (f', fault)) :
    Run ⟨{ r with nextSerial := f.nextSerial }, before ++ .filling s readFrom f rest :: after⟩
      ⟨{ r with nextSerial := f'.nextSerial }, before ++
        fault.elim (.filling s readFrom f' []) (.failed s) :: after⟩ := by
  induction rest generalizing f with
  | nil =>
    cases h
    exact .refl
  | cons c rest ih =>
    obtain ⟨q, k⟩ := c
    rw [Filling.fill] at h
    rcases hc : f.fillCell limits q k with ⟨f₁, fault₁⟩
    rw [hc] at h
    cases fault₁ with
    | none => exact .head (.advance before after (.fill hc)) (ih h)
    | some fault₁ =>
      cases h
      exact .single (.advance before after (.refuse hc))

/-- A lookup that was prepared has failed, has returned, or has a grid to publish. -/
theorem prepare (limits : BuildLimits) (r : Registry) (s : Signature)
    (before after : List Lookup) :
    ∃ l, Run ⟨r, before ++ .waiting s :: after⟩ ⟨(r.prepare limits s).2.2, before ++ l :: after⟩ ∧
      (∀ rules, (r.prepare limits s).1 = .ok (.found rules) → l = .returned s rules) ∧
      ∀ rules readFrom grid, (r.prepare limits s).1 = .ok (.built rules readFrom grid) →
        ∃ f : Filling, l = .filling s readFrom f [] ∧ f.grid = grid ∧
          (f.grid.cell? s.parameters s.order).getD default = rules := by
  rw [Registry.prepare]
  split
  · next rules hr =>
    refine ⟨.returned s rules, .single (.advance before after (.hit hr)), fun rules' h => ?_,
      fun _ _ _ h => by cases h⟩
    cases h
    rfl
  · next hn =>
    let start : Filling := ⟨r.grid.enlarge s.parameters s.order, r.nextSerial, []⟩
    rcases hf : start.fill limits (Grid.diagonals s.parameters s.order) with ⟨f, fault⟩
    have run : Run ⟨r, before ++ .waiting s :: after⟩ ⟨{ r with nextSerial := f.nextSerial },
        before ++ fault.elim (.filling s r.published.current f []) (.failed s) :: after⟩ :=
      .head (.advance before after (.miss hn)) (fill _ before after hf)
    simp only [start] at hf
    simp only [hf]
    cases fault with
    | some fault => exact ⟨_, run, fun _ h => (by cases h), fun _ _ _ h => by cases h⟩
    | none =>
      refine ⟨_, run, fun _ h => (by cases h), fun rules readFrom grid h => ?_⟩
      cases h
      exact ⟨f, rfl, rfl, rfl⟩

/-- Publishing a grid, or losing the publication. -/
theorem finish {readFrom : Option Snapshot} {f : Filling} {rules : Rules}
    (hr : (f.grid.cell? s.parameters s.order).getD default = rules) (loses : Bool)
    (before after : List Lookup) :
    Run ⟨r, before ++ .filling s readFrom f [] :: after⟩
      ⟨(r.finish s rules readFrom f.grid loses).registry,
        before ++ .returned s rules :: after⟩ := by
  subst hr
  cases loses with
  | true => exact .single (.advance before after .lose)
  | false => exact .single (.advance before after .publish)

/-- **A lookup alone is a run.** -/
theorem getAlone (limits : BuildLimits) (r : Registry) (s : Signature) (lookups : List Lookup) :
    ∃ l, Run ⟨r, lookups⟩ ⟨(r.getAlone limits s).registry, lookups ++ [l]⟩ ∧
      ∀ rules, (r.getAlone limits s).answer = .ok rules → l = .returned s rules := by
  obtain ⟨l, run, found, built⟩ := prepare limits r s lookups []
  have started : Run ⟨r, lookups⟩ ⟨(r.prepare limits s).2.2, lookups ++ [l]⟩ := .head (.call s) run
  rw [Registry.getAlone]
  rcases hp : r.prepare limits s with ⟨outcome, events, after⟩
  rw [hp] at started found built
  rcases outcome with fault | rules | ⟨rules, readFrom, grid⟩
  · exact ⟨l, started, fun _ h => by cases h⟩
  · obtain rfl := found rules rfl
    refine ⟨_, started, fun rules' h => ?_⟩
    cases h
    rfl
  · obtain ⟨f, rfl, rfl, hr⟩ := built rules readFrom grid rfl
    refine ⟨_, started.trans (finish hr false lookups []), fun rules' h => ?_⟩
    cases h
    rfl

/-- A rival is a lookup alone, if there is one. -/
theorem runRival (limits : BuildLimits) (r : Registry) (rival : Option (Datum × Datum))
    (lookups : List Lookup) :
    ∃ others, Run ⟨r, lookups⟩ ⟨(r.runRival limits rival).2.2, lookups ++ others⟩ := by
  rcases rival with _ | ⟨p, o⟩
  · exact ⟨[], by rw [List.append_nil]; exact .refl⟩
  rw [Registry.runRival]
  split
  · exact ⟨[], by rw [List.append_nil]⟩
  · next s _ =>
    obtain ⟨l, run, -⟩ := getAlone limits r s lookups
    exact ⟨[l], by split <;> next hg => rwa [hg] at run⟩

/-- **A lookup under interference is a run.** -/
theorem get (limits : BuildLimits) (r : Registry) (s : Signature) (interference : Interference)
    (lookups : List Lookup) :
    ∃ more, Run ⟨r, lookups⟩ ⟨(r.get limits s interference).registry, lookups ++ more⟩ ∧
      ∀ rules, (r.get limits s interference).answer = .ok rules → .returned s rules ∈ more := by
  obtain ⟨l, run, found, built⟩ := prepare limits r s lookups []
  have started : Run ⟨r, lookups⟩ ⟨(r.prepare limits s).2.2, lookups ++ [l]⟩ := .head (.call s) run
  rw [Registry.get]
  rcases hp : r.prepare limits s with ⟨outcome, events, after⟩
  rw [hp] at started found built
  rcases outcome with fault | rules | ⟨rules, readFrom, grid⟩
  · exact ⟨[l], started, fun _ h => by cases h⟩
  · obtain rfl := found rules rfl
    refine ⟨_, started, fun rules' h => ?_⟩
    cases h
    exact List.mem_singleton_self _
  · obtain ⟨f, rfl, rfl, hr⟩ := built rules readFrom grid rfl
    obtain ⟨others, rival⟩ := runRival limits after interference.rival
      (lookups ++ [.filling s readFrom f []])
    rcases hv : after.runRival limits interference.rival with ⟨fault, reports, between⟩
    simp only [hv, List.append_assoc, List.cons_append, List.nil_append] at rival
    cases fault with
    | some fault =>
      simp only [hv]
      exact ⟨_, started.trans rival, fun _ h => by cases h⟩
    | none =>
      simp only [hv]
      refine ⟨_, started.trans (rival.trans (finish hr interference.loses lookups others)),
        fun rules' h => ?_⟩
      cases h
      exact List.mem_cons_self

end Run

end JetAlgebra
