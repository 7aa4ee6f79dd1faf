import JetAlgebra.Proofs.RegistrySafety

/-!
# Numbers of rules do not matter

Rules are numbered so that equal ones can be told apart, and for nothing else.  If the numbers
from `n` on are moved up by `d`, everywhere at once, then lookups do what they did before with
the numbers moved (`Registry.get_renumber`), and so does any number of requests after each
other (`Registry.serve_renumber`).
-/
namespace JetAlgebra
open Tables Grid

/-! ## Moving numbers -/

section Renumber
variable (n d : Nat)

/-- The same rules, with the numbers from `n` on moved up by `d`. -/
def Rules.renumber (x : Rules) : Rules :=
  { x with serial := if x.serial < n then x.serial else x.serial + d }

def Grid.renumber (g : Grid) : Grid := g.map (·.map (·.map (Rules.renumber n d)))

def Snapshot.renumber (t : Snapshot) : Snapshot := { t with grid := t.grid.renumber n d }

def Filling.renumber (f : Filling) : Filling :=
  { f with grid := f.grid.renumber n d, nextSerial := f.nextSerial + d }

def Registry.renumber (r : Registry) : Registry where
  published := ⟨r.published.current.map (Snapshot.renumber n d)⟩
  nextSerial := r.nextSerial + d
  nextStamp := r.nextStamp

def Prepared.renumber : Prepared → Prepared
  | .found rules => .found (rules.renumber n d)
  | .built rules readFrom grid =>
    .built (rules.renumber n d) (readFrom.map (Snapshot.renumber n d)) (grid.renumber n d)

def Reply.renumber (reply : Reply) : Reply where
  answer := reply.answer.map (Rules.renumber n d)
  events := reply.events
  registry := reply.registry.renumber n d

end Renumber

variable {n d p o : Nat}

theorem Rules.renumber_of_lt {x : Rules} (h : x.serial < n) : x.renumber n d = x := by
  rw [renumber, if_pos h]

/-- New rules get the next number, which is moved. -/
theorem Rules.renumber_new {serial : Nat} (h : n ≤ serial) (t : Tables) :
    Rules.renumber n d ⟨serial, t⟩ = ⟨serial + d, t⟩ := by
  rw [renumber, if_neg (Nat.not_lt.mpr h)]

namespace Grid

theorem cell?_renumber (g : Grid) (p o : Nat) :
    (g.renumber n d).cell? p o = (g.cell? p o).map (Rules.renumber n d) := by
  rw [cell?, cell?, renumber, List.getElem?_map]
  rcases g[p]? with _ | row
  · rfl
  · simp only [Option.map_some, Option.bind_some, List.getElem?_map]
    rcases row[o]? with _ | _ | _ <;> rfl

theorem renumber_set (g : Grid) (p o : Nat) (x : Rules) :
    (g.set p o x).renumber n d = (g.renumber n d).set p o (x.renumber n d) := by
  refine List.ext_getElem? fun i => ?_
  simp only [renumber, Grid.set, List.getElem?_map, List.getElem?_modify]
  rcases g[i]? with _ | row
  · rfl
  · by_cases hi : p = i
    · simp [hi, List.map_set]
    · simp [hi]

theorem renumber_enlarge (g : Grid) (p o : Nat) :
    (g.enlarge p o).renumber n d = (g.renumber n d).enlarge p o := by
  have rows : (g.renumber n d).length = g.length := List.length_map _
  have columns : ((g.renumber n d).headD []).length = (g.headD []).length := by
    cases g with
    | nil => rfl
    | cons row g => exact List.length_map _
  simp only [enlarge, rows, columns, cell?_renumber]
  simp only [renumber, List.map_map, Function.comp_def]

/-- Nothing moves if all numbers are small. -/
theorem renumber_eq_self {g : Grid} (h : ∀ {q k x}, g.cell? q k = some x → x.serial < n) :
    g.renumber n d = g := by
  refine (List.map_congr_left fun row hrow => ?_).trans (List.map_id' g)
  refine (List.map_congr_left fun cell hcell => ?_).trans (List.map_id' row)
  obtain ⟨q, hq⟩ := List.getElem?_of_mem hrow
  obtain ⟨k, hk⟩ := List.getElem?_of_mem hcell
  cases cell with
  | none => rfl
  | some x => exact congrArg some (Rules.renumber_of_lt (h (cell?_eq_some_iff.mpr ⟨row, hq, hk⟩)))

end Grid

namespace Filling
variable {limits : BuildLimits} {f : Filling}

theorem buildCell_renumber : (f.renumber n d).buildCell limits p o = f.buildCell limits p o := by
  have tables : ∀ q k, (((f.renumber n d).grid.cell? q k).map Rules.tables) =
      (f.grid.cell? q k).map Rules.tables := by
    intro q k
    rw [renumber, cell?_renumber, Option.map_map]
    rfl
  rw [buildCell, buildCell]
  simp only [tables]

theorem fillCell_renumber (h : n ≤ f.nextSerial) : (f.renumber n d).fillCell limits p o =
    ((f.fillCell limits p o).1.renumber n d, (f.fillCell limits p o).2) := by
  have cell : (f.renumber n d).grid.cell? p o = (f.grid.cell? p o).map (Rules.renumber n d) :=
    cell?_renumber f.grid p o
  rw [fillCell, fillCell, cell, buildCell_renumber]
  rcases f.grid.cell? p o with _ | x
  · rcases f.buildCell limits p o with fault | t
    · rfl
    · simp only [Option.map_none, renumber, renumber_set, Rules.renumber_new h, Nat.add_right_comm]
  · rfl

theorem nextSerial_le_fillCell (limits : BuildLimits) (f : Filling) (p o : Nat) :
    f.nextSerial ≤ (f.fillCell limits p o).1.nextSerial := by
  rw [fillCell]
  split
  · exact le_rfl
  · split
    · exact Nat.le_succ _
    · exact le_rfl

theorem fill_renumber (h : n ≤ f.nextSerial) (cells : List (Nat × Nat)) :
    (f.renumber n d).fill limits cells =
      ((f.fill limits cells).1.renumber n d, (f.fill limits cells).2) := by
  induction cells generalizing f with
  | nil => rfl
  | cons c cells ih =>
    obtain ⟨q, k⟩ := c
    have next := h.trans (nextSerial_le_fillCell limits f q k)
    rw [fill, fill, fillCell_renumber h]
    rcases hc : f.fillCell limits q k with ⟨f₁, fault⟩
    rw [hc] at next
    cases fault with
    | none => exact ih next
    | some fault => rfl

end Filling

/-! ## Lookups -/

namespace Registry
variable {limits : BuildLimits} {r : Registry} {s : Signature}

theorem grid_renumber (r : Registry) : (r.renumber n d).grid = r.grid.renumber n d := by
  rw [grid, grid, renumber]
  rcases r.published.current with _ | t <;> rfl

theorem publish_renumber (r : Registry) (readFrom : Option Snapshot) (g : Grid) :
    (r.renumber n d).publish (readFrom.map (Snapshot.renumber n d)) (g.renumber n d) =
      ((r.publish readFrom g).1, (r.publish readFrom g).2.renumber n d) := by
  have same : ((r.renumber n d).published.current == readFrom.map (Snapshot.renumber n d)) =
      (r.published.current == readFrom) := by
    rw [renumber]
    rcases r.published.current with _ | t <;> rcases readFrom with _ | u <;> rfl
  rw [publish, publish, AtomicReference.compareAndSet, AtomicReference.compareAndSet, same]
  rcases (r.published.current == readFrom) with _ | _ <;> rfl

theorem finish_renumber (r : Registry) (s : Signature) (rules : Rules)
    (readFrom : Option Snapshot) (g : Grid) (loses : Bool) :
    (r.renumber n d).finish s (rules.renumber n d) (readFrom.map (Snapshot.renumber n d))
      (g.renumber n d) loses = (r.finish s rules readFrom g loses).renumber n d := by
  cases loses with
  | true => rfl
  | false =>
    rw [finish, finish]
    simp only [publish_renumber, Bool.false_eq_true, if_false]
    rfl

/-- **Preparing a lookup** does not depend on the numbers. -/
theorem prepare_renumber (h : r.Sound) (hn : n ≤ r.nextSerial) :
    (r.renumber n d).prepare limits s = ((r.prepare limits s).1.map (Prepared.renumber n d),
      (r.prepare limits s).2.1, (r.prepare limits s).2.2.renumber n d) := by
  rw [prepare, prepare, grid_renumber, cell?_renumber]
  rcases hc : r.grid.cell? s.parameters s.order with _ | x
  · let start : Filling := ⟨r.grid.enlarge s.parameters s.order, r.nextSerial, []⟩
    have moved : (⟨(r.grid.renumber n d).enlarge s.parameters s.order,
        (r.renumber n d).nextSerial, []⟩ : Filling) = start.renumber n d := by
      rw [← renumber_enlarge]
      rfl
    simp only [Option.map_none, moved, Filling.fill_renumber (f := start) hn]
    rcases hf : start.fill limits (diagonals s.parameters s.order) with ⟨f, fault⟩
    cases fault with
    | some fault => rfl
    | none =>
      -- The signature is there, so no default is taken.
      obtain ⟨fills, -⟩ := Fills.start h.grid s.parameters s.order
      obtain ⟨rules, there, -⟩ := ((Filling.fill_spec fills hf).2.2.1 rfl).exists_rules
      simp only [Filling.renumber, cell?_renumber, there, Option.map_some, Option.getD_some]
      rfl
  · rfl

/-- Registries stay sound while they are used, and their numbers grow. -/
theorem sound_of_runs {more : List Lookup} {r' : Registry} (h : r.Sound)
    (run : Run ⟨r, []⟩ ⟨r', more⟩) : r'.Sound ∧ r.Extends r' := by
  have start : System.Sound ⟨r, []⟩ := ⟨h, fun _ hl => absurd hl List.not_mem_nil⟩
  obtain ⟨sound, grown⟩ := System.sound_of_run run start
  exact ⟨sound.registry, grown⟩

theorem getAlone_renumber (h : r.Sound) (hn : n ≤ r.nextSerial) :
    (r.renumber n d).getAlone limits s = (r.getAlone limits s).renumber n d := by
  rw [getAlone, getAlone, prepare_renumber h hn]
  rcases r.prepare limits s with ⟨outcome, events, after⟩
  rcases outcome with fault | rules | ⟨rules, readFrom, grid⟩
  · rfl
  · rfl
  · simp only [Except.map, Prepared.renumber, finish_renumber]
    rfl

theorem runRival_renumber (h : r.Sound) (hn : n ≤ r.nextSerial) (rival : Option (Datum × Datum)) :
    (r.renumber n d).runRival limits rival = ((r.runRival limits rival).1,
      (r.runRival limits rival).2.1, (r.runRival limits rival).2.2.renumber n d) := by
  rcases rival with _ | ⟨p, o⟩
  · rfl
  rw [runRival, runRival]
  rcases Signature.validate p o with fault | s
  · rfl
  · simp only [getAlone_renumber h hn]
    rcases r.getAlone limits s with ⟨_ | _, events, after⟩ <;> rfl

/-- **A lookup** does not depend on the numbers. -/
theorem get_renumber (h : r.Sound) (hn : n ≤ r.nextSerial) (interference : Interference) :
    (r.renumber n d).get limits s interference = (r.get limits s interference).renumber n d := by
  obtain ⟨l, run, -⟩ := Run.prepare limits r s [] []
  obtain ⟨sound, grown⟩ := sound_of_runs h (.head (.call s) run)
  rw [get, get, prepare_renumber h hn]
  rcases hp : r.prepare limits s with ⟨outcome, events, after⟩
  rw [hp] at sound grown
  rcases outcome with fault | rules | ⟨rules, readFrom, grid⟩
  · rfl
  · rfl
  · simp only [Except.map, Prepared.renumber, runRival_renumber sound (hn.trans grown.serial)]
    rcases after.runRival limits interference.rival with ⟨_ | fault, reports, between⟩
    · simp only [finish_renumber]
      rfl
    · rfl

theorem lookUp_renumber (h : r.Sound) (hn : n ≤ r.nextSerial) (p o : Datum)
    (interference : Interference) : (r.renumber n d).lookUp limits p o interference =
      (r.lookUp limits p o interference).renumber n d := by
  rw [lookUp, lookUp]
  rcases Signature.validate p o with fault | s
  · rfl
  · exact get_renumber h hn interference

end Registry

/-! ## Requests -/

/-- A lookup as callers ask for it, and what happens meanwhile. -/
structure Request where
  limits : BuildLimits
  parameters : Datum
  order : Datum
  interference : Interference := {}

namespace Registry
variable {r : Registry}

/-- The replies to requests that come one after the other. -/
def serve (r : Registry) : List Request → List Reply
  | [] => []
  | q :: rest =>
    let reply := r.lookUp q.limits q.parameters q.order q.interference
    reply :: reply.registry.serve rest

theorem sound_lookUp (h : r.Sound) (limits : BuildLimits) (p o : Datum)
    (interference : Interference) : (r.lookUp limits p o interference).registry.Sound ∧
      r.Extends (r.lookUp limits p o interference).registry := by
  rw [lookUp]
  rcases Signature.validate p o with fault | s
  · exact ⟨h, .refl r⟩
  · obtain ⟨more, run, -⟩ := Run.get limits r s interference []
    exact sound_of_runs h run

/-- **Replies do not depend on the numbers.** -/
theorem serve_renumber (h : r.Sound) (hn : n ≤ r.nextSerial) (requests : List Request) :
    (r.renumber n d).serve requests = (r.serve requests).map (Reply.renumber n d) := by
  induction requests generalizing r with
  | nil => rfl
  | cons q rest ih =>
    obtain ⟨sound, grown⟩ := sound_lookUp h q.limits q.parameters q.order q.interference
    rw [serve, serve, List.map_cons, lookUp_renumber h hn, ← ih sound (hn.trans grown.serial)]
    rfl

end Registry

end JetAlgebra
