import JetAlgebra.Kernel
import JetAlgebra.Scalar

/-!
# Buffers and windows

Jets live in flat buffers, many in one, and a window is a stretch of one.  A buffer is
*packed*, all doubles, or *boxed*, any scalars.  Storing into a packed buffer converts
to doubles, an empty slot to not-a-number; a boxed one keeps what it is given.  The
doubles of a packed buffer are strict where they are copied together, and lenient where
one is read out alone.  Callers may also hand in what is no buffer for jets: machine
integers, a matrix, or a plain sequence.

`Buffer.window` is the only way to read a jet, and `Buffer.write` the only way to store
one.  Writing goes slot by slot and stops at the first scalar that does not convert.
-/

namespace JetAlgebra

/-- What callers hand in as a buffer. -/
inductive Buffer where
  /-- Doubles. -/
  | packed (slots : List Float)
  /-- Scalars of any kind. -/
  | boxed (slots : List Scalar)
  /-- Machine integers. -/
  | words (slots : List Int)
  /-- A matrix of doubles with one row. -/
  | matrix (row : List Float)
  /-- A plain sequence, which is no array. -/
  | sequence (items : List Scalar)
  deriving Inhabited

/-- Why a buffer has no window for a jet.  Each names the argument. -/
inductive WindowFault where
  | notOneDimensional (name : String)
  | elementType (name type : String)
  | outside (name : String) (length : Nat) (size offset : Int)
  deriving DecidableEq, Repr

/-- The entries from position `start` up to `stop`, where negative positions count from
the end. -/
def slice {α : Type} (xs : List α) (start stop : Int) : List α :=
  let position (i : Int) : Nat := if i < 0 then (i + xs.length).toNat else i.toNat
  (xs.take (position stop)).drop (position start)

namespace Buffer

/-- The scalars in a buffer. -/
def scalars : Buffer → List Scalar
  | .packed slots | .matrix slots => slots.map .strict
  | .boxed slots | .sequence slots => slots
  | .words slots => slots.map .int

/-- The extent of a buffer along its first dimension. -/
def length : Buffer → Nat
  | .matrix _ => 1
  | b => b.scalars.length

/-- The name of the type of machine integers. -/
def wordType : String := "int64"

/-- The name of the type of the slots; a plain sequence has none. -/
def elementType? : Buffer → Option String
  | .packed _ | .matrix _ => some "float64"
  | .boxed _ => some "object"
  | .words _ => some wordType
  | .sequence _ => none

/-- Checks that a buffer can hold jets, and `size` slots at `offset`. -/
def check (b : Buffer) (name : String) (offset size : Int) : Except WindowFault Unit :=
  match b with
  | .sequence _ | .matrix _ => .error (.notOneDimensional name)
  | .words _ => .error (.elementType name wordType)
  | .packed _ | .boxed _ =>
    if offset < 0 ∨ (b.length : Int) < offset + size then
      .error (.outside name b.length size offset)
    else .ok ()

/-- **The window** of `size` slots at `offset`. -/
def window (b : Buffer) (name : String) (offset size : Int) : Except WindowFault (List Scalar) := do
  b.check name offset size
  return slice b.scalars offset (offset + size)

/-- Storage for doubles. -/
def packedStorage : Storage Scalar where
  store v := do return .strict (← v.collect)
  alone
    | .strict x => .lenient x
    | v => v

/-- Storage like that of a buffer. -/
def storage : Buffer → Storage Scalar
  | .packed _ | .matrix _ => packedStorage
  | .boxed _ | .words _ | .sequence _ => .faithful

/-- A new buffer with `n` slots of the same representation: zeros, or empty slots.  None is like
a plain sequence. -/
def scratch? (like : Buffer) (n : Nat) : Option Buffer :=
  match like with
  | .packed _ | .matrix _ => some (.packed (List.replicate n 0.0))
  | .words _ => some (.words (List.replicate n 0))
  | .boxed _ => some (.boxed (List.replicate n .unset))
  | .sequence _ => none

/-- Stores scalars as doubles from a position on, up to the first that is none. -/
def writePacked (slots : List Float) (position : Nat) :
    List Scalar → List Float × Except ArithmeticFault Unit
  | [] => (slots, .ok ())
  | v :: vs =>
    match v.collect with
    | .ok x => writePacked (slots.set position x) (position + 1) vs
    | .error fault => (slots, .error fault)

/-- Stores scalars from a position on. -/
def writeBoxed (slots : List Scalar) (position : Nat) : List Scalar → List Scalar
  | [] => slots
  | v :: vs => writeBoxed (slots.set position v) (position + 1) vs

/-- The machine integer that a scalar is cut to. -/
def toWord (v : Scalar) : Except ArithmeticFault Int := do
  let n ← match v with
    | .int n => pure n
    | .strict x | .lenient x =>
      match Binary64.truncate? x with
      | some n => pure n
      | none => throw (if x.isNaN then .notANumber else .overflow)
    | .unset | .complex | .real _ | .rat _ => throw .unsupported
  if fitsMachineIndex n then return n else throw .overflow

/-- Stores scalars as machine integers from a position on, up to the first that is none. -/
def writeWords (slots : List Int) (position : Nat) :
    List Scalar → List Int × Except ArithmeticFault Unit
  | [] => (slots, .ok ())
  | v :: vs =>
    match toWord v with
    | .ok n => writeWords (slots.set position n) (position + 1) vs
    | .error fault => (slots, .error fault)

/-- **Stores scalars** from a position on, and says why it stopped, if it did. -/
def write (b : Buffer) (position : Nat) (values : List Scalar) :
    Buffer × Except ArithmeticFault Unit :=
  match b with
  | .packed slots =>
    let (slots, outcome) := writePacked slots position values
    (.packed slots, outcome)
  | .boxed slots => (.boxed (writeBoxed slots position values), .ok ())
  | .words slots =>
    let (slots, outcome) := writeWords slots position values
    (.words slots, outcome)
  | .matrix _ | .sequence _ => (b, .error .unsupported)

/-- A new buffer of the same representation that holds the given scalars. -/
def pack? (like : Buffer) (values : List Scalar) : Option (Except ArithmeticFault Buffer) :=
  (like.scratch? values.length).map fun fresh =>
    match fresh.write 0 values with
    | (b, .ok ()) => .ok b
    | (_, .error fault) => .error fault

end Buffer

namespace WindowFault

/-- What is said about the fault. -/
def message : WindowFault → String
  | .notOneDimensional name => s!"{name} must be a one-dimensional numpy array."
  | .elementType name type => s!"{name} must have a floating or object dtype; got {type}."
  | .outside name length size offset =>
    s!"{name} of length {length} cannot hold {size} slots at offset {offset}."

end WindowFault

end JetAlgebra
