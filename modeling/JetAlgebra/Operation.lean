import JetAlgebra.Argument
import JetAlgebra.Binary64.Dot
import JetAlgebra.Jet.Angle
import JetAlgebra.Jet.Taylor

/-!
# Operations on windows

An operation reads jets from windows of named buffers, computes with the algebra of
jets, and stores its result in another window.  Arguments are checked one after the
other, in the order in which an operation needs them, and what can be computed before
the next check is computed before it; so of two faults the one that comes first in that
order is reported.

Nothing is stored before all windows are checked and all slots of the result are
computed.  The joint forms, sine with cosine, are two such steps, and the angle stores
its value once more, from the arc tangent of two arguments.
-/

namespace JetAlgebra

/-- A place for a jet: a buffer and the position of the first slot. -/
structure Window where
  buffer : String
  offset : Int
  deriving DecidableEq, Repr

/-- Buffers by name. -/
structure Memory where
  buffers : List (String × Buffer)

namespace Memory

/-- The buffer of a name; without such a buffer, a sequence of nothing. -/
def get (m : Memory) (name : String) : Buffer := (m.buffers.lookup name).getD (.sequence [])

/-- The memory with another buffer under a name. -/
def set (m : Memory) (name : String) (b : Buffer) : Memory :=
  ⟨m.buffers.map fun entry => if entry.1 = name then (name, b) else entry⟩

end Memory

/-- Why an operation on windows fails. -/
inductive OperationFault where
  | arithmetic (fault : ArithmeticFault)
  | window (fault : WindowFault)
  /-- An exponent that is no plain number needs a boxed operand. -/
  | exponentKind (kind type : String)
  /-- A plain sequence has no type of slots, and no new buffer is like it. -/
  | noElementType
  | tooFewDerivatives (needed got : Nat)
  /-- A row of a matrix with another number of slots than the result. -/
  | rowLength
  | noTerms
  | wrongDisplacements (expected got : Nat)
  deriving DecidableEq, Repr

/-- What is said about the fault; nothing about numbers that cannot be computed. -/
def OperationFault.message? : OperationFault → Option String
  | .arithmetic _ | .noElementType | .rowLength => none
  | .window fault => some fault.message
  | .exponentKind kind type =>
    some (s!"a {kind} exponent needs an object buffer of field elements; " ++
      s!"got operand of dtype {type}.")
  | .tooFewDerivatives needed got =>
    some s!"compose needs {needed} outer derivatives; got {got}."
  | .noTerms => some "linear_combination needs at least one term."
  | .wrongDisplacements expected got => some s!"expected {expected} displacements; got {got}."

instance : MonadLift (Except ArithmeticFault) (Except OperationFault) :=
  ⟨Except.mapError .arithmetic⟩

instance : MonadLift (Except WindowFault) (Except OperationFault) :=
  ⟨Except.mapError .window⟩

/-- A step that may change buffers and may fail; a failure keeps the changes. -/
abbrev Action (α : Type) := ExceptT OperationFault (StateM Memory) α

/-- Operations of two operands. -/
inductive BinaryOperation where
  | add | subtract | multiply | divide | remainder | power | angle
  deriving DecidableEq, Repr

/-- Operations with two results. -/
inductive JointOperation where
  | sinCos | sinhCosh
  deriving DecidableEq, Repr

/-- **What can be done with jets in buffers**; every operation but the evaluation of the
Taylor expansion, which stores nothing. -/
inductive Operation where
  | binary (f : BinaryOperation) (a b result : Window)
  | elementary (f : Elementary) (operand result : Window)
  | joint (f : JointOperation) (operand first second : Window)
  | pow (operand : Window) (exponent : Argument) (result : Window)
  | scalarPow (base : Argument) (operand result : Window)
  | root (operand : Window) (index : Argument) (result : Window)
  | compose (operand : Window) (outer : Argument) (result : Window)
  | linearCombination (terms : List (Argument × Window)) (result : Window)

/-- Derivatives of a function as callers hand them in: numbers, or machine integers, which wrap
around when they are multiplied by the coefficients of a table. -/
inductive OuterDerivatives where
  | numbers (f : List Scalar)
  | words (f : List Int)

namespace OuterDerivatives

/-- The number of entries that can be looked up. -/
def length : OuterDerivatives → Nat
  | .numbers f => f.length
  | .words f => f.length

/-- The factors that the terms of a composition begin with. -/
def leading (k : CompositionKernel) : OuterDerivatives → Except ArithmeticFault (List Scalar)
  | .numbers f => Jet.leadingFactors k f
  | .words f => Jet.leadingWords k f

end OuterDerivatives

namespace Operation

/-- The derivatives of an elementary function. -/
def derivativesOf {E : Type} [Arithmetic E] :
    Elementary → E → Nat → Except ArithmeticFault (List E)
  | .exp => Outer.exp
  | .expm1 => Outer.expm1
  | .log => Outer.log
  | .log1p => Outer.log1p
  | .log10 => Outer.log10
  | .sqrt => Outer.root .square (Arithmetic.ofInt 2)
  | .cbrt => Outer.root .cube (Arithmetic.ofInt 3)
  | .sin => Outer.sin
  | .cos => Outer.cos
  | .tan => fun x order => do Outer.tangent 1 (← Arithmetic.apply .tan x) order
  | .asin => Outer.asin
  | .acos => Outer.acos
  | .atan => Outer.atan
  | .sinh => Outer.sinh
  | .cosh => Outer.cosh
  | .tanh => fun x order => do Outer.tangent (-1) (← Arithmetic.apply .tanh x) order
  | .asinh => Outer.asinh
  | .acosh => Outer.acosh
  | .atanh => Outer.atanh

section Reading
variable (k : Calculus) (m : Memory)

/-- Reads the jet in a window; `name` is what the argument is called. -/
def read (name : String) (w : Window) : Except OperationFault (Jet Scalar) := do
  (m.get w.buffer).window name w.offset k.size

/-- Checks the window that the result goes to. -/
def checkResult (w : Window) : Except OperationFault Unit := do
  (m.get w.buffer).check "result" w.offset k.size

/-- Storage like that of the buffer of a window. -/
def storageOf (w : Window) : Storage Scalar := (m.get w.buffer).storage

/-- Checks that jets in between can be kept in new buffers like that of a window. -/
def checkScratch (w : Window) : Except OperationFault Unit :=
  match (m.get w.buffer).scratch? k.size with
  | some _ => .ok ()
  | none => .error .noElementType

/-- The result of an operation that goes slot by slot. -/
def slotwise (f : Jet Scalar → Jet Scalar → Except ArithmeticFault (Jet Scalar))
    (a b result : Window) : Except OperationFault (Jet Scalar) := do
  let x ← read k m "lhs" a
  let y ← read k m "rhs" b
  checkResult k m result
  f x y

/-- The quotient of two jets; the reciprocal comes first, in storage like that of the
divisor. -/
def quotient (a b result : Window) : Except OperationFault (Jet Scalar) := do
  checkScratch k m b
  let s := storageOf m b
  let y ← read k m "operand" b
  let r ← Jet.stored s (Jet.reciprocal k s y)
  let x ← read k m "lhs" a
  checkResult k m result
  Jet.mul k x r

/-- The power of a jet to a jet: the exponential of the exponent times the logarithm, in
storage like that of the base. -/
def power (a b result : Window) : Except OperationFault (Jet Scalar) := do
  checkScratch k m a
  let s := storageOf m a
  let x ← read k m "operand" a
  let l ← Jet.stored s (Jet.through k s x Outer.log)
  let y ← read k m "rhs" b
  let e ← Jet.stored s (Jet.mul k l y)
  let f ← Outer.exp (← Jet.value s e) k.order
  checkResult k m result
  Jet.follow k s e (.compose f)

/-- The angle of a point, from its ordinate and its abscissa. -/
def angle (a b result : Window) : Except OperationFault (Jet Scalar) := do
  let y ← read k m "y" a
  let x ← read k m "x" b
  checkResult k m result
  Jet.angle k (storageOf m b) y x

/-- What a recipe makes of a jet. -/
def follow (recipe : Scalar → Nat → Except ArithmeticFault (Recipe Scalar))
    (operand result : Window) : Except OperationFault (Jet Scalar) := do
  let s := storageOf m operand
  let g ← read k m "operand" operand
  let r ← recipe (← Jet.value s g) k.order
  checkResult k m result
  Jet.follow k s g r

/-- The composition of a jet with a function that is known by its derivatives. -/
def through (f : Scalar → Nat → Except ArithmeticFault (List Scalar)) (operand result : Window) :
    Except OperationFault (Jet Scalar) :=
  follow k m (fun x order => do return .compose (← f x order)) operand result

/-- Checks an exponent by the buffer of the operand: only elements have powers to what is no
plain number. -/
def checkExponent (exponent : Argument) (operand : Buffer) : Except OperationFault Unit :=
  match operand with
  | .boxed _ => .ok ()
  | b =>
    if exponent.isPlain then .ok ()
    else match b.elementType? with
      | some type => .error (.exponentKind exponent.kindName type)
      | none => .error .noElementType

/-- The power of a jet to a constant. -/
def constantPower (operand : Window) (exponent : Argument) (result : Window) :
    Except OperationFault (Jet Scalar) := do
  checkExponent exponent (m.get operand.buffer)
  match exponent.integer? with
  | some n => follow k m (Outer.integerPower n) operand result
  | none => follow k m exponent.realPower operand result

/-- A constant to the power of a jet. -/
def scalarPower (base : Argument) (operand result : Window) : Except OperationFault (Jet Scalar) :=
  through k m base.basePower operand result

/-- The root of a jet. -/
def rootOf (operand : Window) (index : Argument) (result : Window) :
    Except OperationFault (Jet Scalar) :=
  through k m (Outer.root index.rootKind index.toScalar) operand result

/-- The derivatives of a function that callers hand in, and how many there are.  A list is
packed like the operand, and an array is taken as it is. -/
def outerDerivatives (like : Buffer) (outer : Argument) :
    Except ArithmeticFault (Nat × OuterDerivatives) :=
  match outer with
  | .list items => do
    let f ← items.mapM (·.toSlot like)
    return (f.length, .numbers f)
  | .text s => do
    let f ← s.toList.mapM fun c => (Argument.text (String.ofList [c])).toSlot like
    return (f.length, .numbers f)
  | .array (.sequence items) => do
    let f ← items.mapM like.storage.store
    return (f.length, .numbers f)
  | .array (.words f) => .ok (f.length, .words f)
  | .array b => .ok (b.length, .numbers b.scalars)
  | _ => .error .unsupported

/-- The composition with a function whose derivatives callers hand in. -/
def composeWith (operand : Window) (outer : Argument) (result : Window) :
    Except OperationFault (Jet Scalar) := do
  let g ← read k m "operand" operand
  checkResult k m result
  let (count, f) ← outerDerivatives (m.get operand.buffer) outer
  if count < k.order + 1 then throw (.tooFewDerivatives (k.order + 1) count)
  if f.length ≠ count then throw .rowLength
  Jet.composeFrom k (storageOf m operand) g (f.leading k.composition)

/-- Reads the columns of a linear combination, which are called `c1`, `c2`, ... -/
def readColumns :
    Nat → List (Argument × Window) → Except OperationFault (List (Argument × Jet Scalar))
  | _, [] => .ok []
  | i, (a, w) :: rest => do
    let column ← read k m s!"c{i}" w
    return (a, column) :: (← readColumns (i + 1) rest)

/-- Whether a term has a plain factor and a packed column. -/
def isPlainTerm (t : Argument × Window) : Bool :=
  t.1.isPlain && match m.get t.2.buffer with
    | .packed _ => true
    | _ => false

/-- The accurate dot product of plain factors with one slot of each column. -/
def accurateSlot (terms : List (Scalar × Jet Scalar)) (i : Nat) :
    Except ArithmeticFault Scalar := do
  let products ← terms.mapM fun t => do
    return (← t.1.toFloat, ← (← Arithmetic.slot t.2 i).toFloat)
  return .strict (Binary64.dot products)

/-- The accurate dot products of plain factors with all slots of the columns. -/
def accurateCombination (terms : List (Scalar × Jet Scalar)) (size : Nat) :
    Except ArithmeticFault (Jet Scalar) :=
  (List.range size).mapM (accurateSlot terms)

/-- The sum of jets times constants: compensated on doubles, and else with the arithmetic
of the scalars. -/
def combination (terms : List (Argument × Window)) (result : Window) :
    Except OperationFault (Jet Scalar) := do
  if terms.isEmpty then throw .noTerms
  let columns ← readColumns k m 1 terms
  checkResult k m result
  let factors ← columns.mapM fun t => do return (← t.1.toFactor t.2, t.2)
  if terms.all (isPlainTerm m) then accurateCombination factors k.size
  else Jet.linearCombination factors

end Reading

/-- Stores a jet in a window that was checked. -/
def writeTo (w : Window) (values : Jet Scalar) : Action Unit := do
  let m ← get
  let (b, outcome) := (m.get w.buffer).write w.offset.toNat values
  set (m.set w.buffer b)
  match outcome with
  | .ok () => pure ()
  | .error fault => throw (.arithmetic fault)

/-- Computes a jet from the memory and stores it. -/
def compute (result : Window) (f : Memory → Except OperationFault (Jet Scalar)) : Action Unit := do
  let values ← ExceptT.mk (pure (f (← get)))
  writeTo result values

/-- The result of an operation with two operands. -/
def binaryResult (k : Calculus) (m : Memory) (f : BinaryOperation) (a b result : Window) :
    Except OperationFault (Jet Scalar) :=
  match f with
  | .add => slotwise k m Jet.add a b result
  | .subtract => slotwise k m Jet.sub a b result
  | .multiply => slotwise k m (Jet.mul k) a b result
  | .divide => quotient k m a b result
  | .remainder => slotwise k m Jet.remainder a b result
  | .power => power k m a b result
  | .angle => angle k m a b result

/-- The value of an angle, straight from the two coordinates. -/
def angleValue (k : Calculus) (m : Memory) (a b : Window) : Except OperationFault (Jet Scalar) := do
  let y ← Arithmetic.slot (← read k m "y" a) 0
  let x ← Arithmetic.slot (← read k m "x" b) 0
  return [← Arithmetic.atan2 y x]

/-- The two functions of a joint form, each as first and second entry of its cycle. -/
def jointStarts {E : Type} [Arithmetic E] (f : JointOperation) (x : E) :
    Except ArithmeticFault (Bool × (E × E) × (E × E)) :=
  match f with
  | .sinCos => do
    let s ← Arithmetic.apply .sin x
    let c ← Arithmetic.apply .cos x
    return (true, (s, c), (c, ← Arithmetic.neg s))
  | .sinhCosh => do
    let s ← Arithmetic.apply .sinh x
    let c ← Arithmetic.apply .cosh x
    return (false, (s, c), (c, s))

/-- **Does an operation.** -/
def run (k : Calculus) : Operation → Action Unit
  | .binary .angle a b result => do
    let start ← get
    compute result (angle k · a b result)
    compute result fun _ => angleValue k start a b
  | .binary f a b result => compute result (binaryResult k · f a b result)
  | .elementary f operand result => compute result (through k · (derivativesOf f) operand result)
  | .joint f operand first second => do
    let start ← get
    let (alternating, one, two) ← ExceptT.mk (pure (do
      let g ← read k start "operand" operand
      jointStarts f (← Arithmetic.slot g 0) : Except OperationFault _))
    let part (c : Scalar × Scalar) (_ : Scalar) (order : Nat) :=
      Outer.cycle alternating (order + 1) c.1 c.2
    compute first (through k · (part one) operand first)
    compute second (through k · (part two) operand second)
  | .pow operand exponent result => compute result (constantPower k · operand exponent result)
  | .scalarPow base operand result => compute result (scalarPower k · base operand result)
  | .root operand index result => compute result (rootOf k · operand index result)
  | .compose operand outer result => compute result (composeWith k · operand outer result)
  | .linearCombination terms result => compute result (combination k · terms result)

/-- The displacements of a Taylor expansion: plain numbers as lenient doubles, elements as
they are. -/
def displacement (a : Argument) : Except ArithmeticFault Scalar :=
  if a.isPlain then do return .lenient (← a.toScalar.toFloat) else .ok a.toScalar

/-- Several displacements. -/
def displacements (arguments : List Argument) : Except ArithmeticFault (List Scalar) :=
  arguments.mapM displacement

/-- **The value of the Taylor expansion** of a jet in a window.  One argument that is a
list or an array stands for its members. -/
def taylor (k : Calculus) (m : Memory) (operand : Window) (arguments : List Argument) :
    Except OperationFault Scalar := do
  let delta := match arguments with
    | [a] => a.members?.getD arguments
    | _ => arguments
  if delta.length ≠ k.parameters then throw (.wrongDisplacements k.parameters delta.length)
  let a ← read k m "ds" operand
  let d ← displacements delta
  Jet.taylor k.derivatives a d

end Operation

end JetAlgebra
