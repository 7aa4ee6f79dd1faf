import JetAlgebra.AtomicReference
import JetAlgebra.Kernel
import JetAlgebra.Signature
import JetAlgebra.Registry.Event

/-!
# The registry of compiled signatures

Compiled rules are kept in a grid indexed by parameters and order, which is
published as one immutable snapshot.  A lookup

1. reads the published snapshot and answers from it if the signature is there;
2. otherwise fills the rectangle up to its signature, diagonal by diagonal, so that
   both neighbours of a cell are there before it is built, starting from the cells
   of the snapshot it read;
3. tries once to publish its grid in place of that snapshot, and answers from its
   own grid whether it won or lost.

`Registry.prepare` is steps 1 and 2 and `Registry.publish` is step 3, so lookups can
be interleaved; `Registry.get` is one lookup under a given interference, and
`Registry.lookUp` the same for data that may be no signature.  Rules and
snapshots carry a number of their own, so two equal ones can be told apart.
-/

namespace JetAlgebra

/-- The compiled rules of a signature.  `serial` identifies the object. -/
structure Rules where
  serial : Nat
  tables : Tables
  deriving Inhabited, Repr

namespace Rules

/-- The signature of the rules. -/
def signature (r : Rules) : Signature := ⟨r.tables.parameters, r.tables.order⟩

/-- The number of slots of a jet. -/
def size (r : Rules) : Nat := r.tables.size

/-- How the rules are shown. -/
def description (r : Rules) : String :=
  s!"DSCompiler(parameters={r.tables.parameters}, order={r.tables.order})"

end Rules

/-- Compiled rules by parameters and order; cells may be empty. -/
abbrev Grid := List (List (Option Rules))

namespace Grid

/-- The rules in a cell. -/
def cell? (g : Grid) (p o : Nat) : Option Rules := ((g[p]?).bind (·[o]?)).join

/-- An empty grid for parameters up to `p` and orders up to `o`. -/
def empty (p o : Nat) : Grid := List.replicate (p + 1) (List.replicate (o + 1) none)

/-- The grid with a cell filled. -/
def set (g : Grid) (p o : Nat) (r : Rules) : Grid := g.modify p (·.set o (some r))

/-- A rectangular grid that reaches at least to `(p, o)` and keeps the cells of `g`. -/
def enlarge (g : Grid) (p o : Nat) : Grid :=
  let maxParameters := max p (g.length - 1)
  let maxOrder := max o ((g.headD []).length - 1)
  (List.range (maxParameters + 1)).map fun q =>
    (List.range (maxOrder + 1)).map fun k => g.cell? q k

/-- The signatures of the filled cells, row by row. -/
def signatures (g : Grid) : List Signature :=
  (List.range g.length).flatMap fun p =>
    ((List.range (g.getD p []).length).filter fun o => (g.cell? p o).isSome).map fun o => ⟨p, o⟩

/-- The cells of the rectangle up to `(p, o)`, diagonal by diagonal, increasing orders
on each. -/
def diagonals (p o : Nat) : List (Nat × Nat) :=
  (List.range (p + o + 1)).flatMap fun d =>
    ((List.range (min o d + 1)).filter fun k => d ≤ p + k).map fun k => (d - k, k)

end Grid

/-- A published grid.  `stamp` identifies the object. -/
structure Snapshot where
  stamp : Nat
  grid : Grid
  deriving Repr

instance : BEq Snapshot := ⟨fun s t => s.stamp == t.stamp⟩

/-- The published snapshot, and the numbers that the next rules and the next snapshot
get. -/
structure Registry where
  published : AtomicReference (Option Snapshot) := ⟨none⟩
  nextSerial : Nat := 0
  nextStamp : Nat := 0

/-- A grid while it is being filled. -/
structure Filling where
  grid : Grid
  nextSerial : Nat
  events : List Event

namespace Filling

/-- Builds the tables of a cell from those of its neighbours in the grid. -/
def buildCell (limits : BuildLimits) (f : Filling) (p o : Nat) : Except BuildFault Tables :=
  let neighbour (q k : Nat) : Tables := ((f.grid.cell? q k).map Rules.tables).getD default
  Tables.build? limits p o (neighbour (p - 1) o) (neighbour p (o - 1))

/-- Fills a cell if it is empty. -/
def fillCell (limits : BuildLimits) (f : Filling) (p o : Nat) : Filling × Option BuildFault :=
  match f.grid.cell? p o with
  | some _ => (f, none)
  | none =>
    match f.buildCell limits p o with
    | .ok tables =>
      ({ grid := f.grid.set p o ⟨f.nextSerial, tables⟩
         nextSerial := f.nextSerial + 1
         events := f.events ++ [.compiled p o tables.size] }, none)
    | .error fault => ({ f with events := f.events ++ fault.event?.toList }, some fault)

/-- Fills cells in turn, until one cannot be built. -/
def fill (limits : BuildLimits) (f : Filling) : List (Nat × Nat) → Filling × Option BuildFault
  | [] => (f, none)
  | (p, o) :: rest =>
    match f.fillCell limits p o with
    | (f', none) => fill limits f' rest
    | (f', some fault) => (f', some fault)

end Filling

/-- What a lookup has before it publishes. -/
inductive Prepared where
  /-- The signature was in the snapshot. -/
  | found (rules : Rules)
  /-- A new grid that holds the signature, to replace the snapshot it was filled from. -/
  | built (rules : Rules) (readFrom : Option Snapshot) (grid : Grid)

/-- What happens to a lookup between filling its grid and publishing it. -/
structure Interference where
  /-- Another lookup that runs from start to end, of the signature that two data are. -/
  rival : Option (Datum × Datum) := none
  /-- Whether the publication is lost then, whoever the winner is. -/
  loses : Bool := false

/-- Why a lookup fails. -/
inductive LookupFault where
  | signature (fault : SignatureFault)
  | build (fault : BuildFault)

/-- The answer of a lookup, what was reported during it, and the registry after it. -/
structure Reply where
  answer : Except LookupFault Rules
  events : List Event
  registry : Registry

namespace Registry

/-- The published grid; without parameters and orders if there is none. -/
def grid (r : Registry) : Grid := (r.published.current.map Snapshot.grid).getD []

/-- The signatures that are published. -/
def signatures (r : Registry) : List Signature := r.grid.signatures

/-- Reads the snapshot and, unless the signature is in it, fills a new grid. -/
def prepare (limits : BuildLimits) (r : Registry) (s : Signature) :
    Except BuildFault Prepared × List Event × Registry :=
  match r.grid.cell? s.parameters s.order with
  | some rules => (.ok (.found rules), [], r)
  | none =>
    let start : Filling := ⟨r.grid.enlarge s.parameters s.order, r.nextSerial, []⟩
    let (f, fault) := start.fill limits (Grid.diagonals s.parameters s.order)
    let after := { r with nextSerial := f.nextSerial }
    match fault with
    | some fault => (.error fault, f.events, after)
    | none =>
      let rules := (f.grid.cell? s.parameters s.order).getD default
      (.ok (.built rules r.published.current f.grid), f.events, after)

/-- Tries to publish a grid in place of the snapshot it was filled from. -/
def publish (r : Registry) (readFrom : Option Snapshot) (grid : Grid) : Bool × Registry :=
  let (won, published) := r.published.compareAndSet readFrom (some ⟨r.nextStamp, grid⟩)
  (won, { r with published := published, nextStamp := r.nextStamp + 1 })

/-- Publishes what a lookup prepared, unless it loses, and answers it. -/
def finish (r : Registry) (s : Signature) (rules : Rules) (readFrom : Option Snapshot)
    (grid : Grid) (loses : Bool) : Reply :=
  let (won, after) := if loses then (false, r) else r.publish readFrom grid
  ⟨.ok rules, if won then [] else [.discarded s.parameters s.order], after⟩

/-- A lookup that nothing interferes with. -/
def getAlone (limits : BuildLimits) (r : Registry) (s : Signature) : Reply :=
  match r.prepare limits s with
  | (.error fault, events, after) => ⟨.error (.build fault), events, after⟩
  | (.ok (.found rules), events, after) => ⟨.ok rules, events, after⟩
  | (.ok (.built rules readFrom grid), events, after) =>
    let reply := after.finish s rules readFrom grid false
    { reply with events := events ++ reply.events }

/-- What a rival leaves behind: its fault if it failed, what it reported, and the registry. -/
def runRival (limits : BuildLimits) (r : Registry) :
    Option (Datum × Datum) → Option LookupFault × List Event × Registry
  | none => (none, [], r)
  | some (p, o) =>
    match Signature.validate p o with
    | .error fault => (some (.signature fault), [], r)
    | .ok s =>
      match r.getAlone limits s with
      | ⟨.error fault, events, after⟩ => (some fault, events, after)
      | ⟨.ok _, events, after⟩ => (none, events, after)

/-- **A lookup** under the given interference, which matters only if the lookup
publishes.  A rival that fails fails the lookup as well. -/
def get (limits : BuildLimits) (r : Registry) (s : Signature) (interference : Interference) :
    Reply :=
  match r.prepare limits s with
  | (.error fault, events, after) => ⟨.error (.build fault), events, after⟩
  | (.ok (.found rules), events, after) => ⟨.ok rules, events, after⟩
  | (.ok (.built rules readFrom grid), events, after) =>
    match after.runRival limits interference.rival with
    | (some fault, reports, between) => ⟨.error fault, events ++ reports, between⟩
    | (none, reports, between) =>
      let reply := between.finish s rules readFrom grid interference.loses
      { reply with events := events ++ reports ++ reply.events }

/-- A lookup of the signature that two data are. -/
def lookUp (limits : BuildLimits) (r : Registry) (p o : Datum) (interference : Interference) :
    Reply :=
  match Signature.validate p o with
  | .error fault => ⟨.error (.signature fault), [], r⟩
  | .ok s => r.get limits s interference

end Registry

end JetAlgebra
