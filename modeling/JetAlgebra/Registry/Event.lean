import JetAlgebra.Tables

/-!
# What the registry reports

Each compiled signature and each lost race is reported for diagnosis, and a table
that is too large as a warning.
-/

namespace JetAlgebra

/-- How much attention a report wants. -/
inductive Level where
  | debug
  | warning
  deriving DecidableEq, Repr

/-- Something that happened while a signature was looked up. -/
inductive Event where
  /-- The rules of a signature were compiled. -/
  | compiled (parameters order slots : Nat)
  /-- Another builder published its grid first. -/
  | discarded (parameters order : Nat)
  /-- A composition table would hold more terms than the limit. -/
  | tooManyTerms (parameters order atLeast limit : Nat)
  /-- A composition coefficient is beyond the index range. -/
  | coefficientTooLarge (parameters order largest : Nat)
  deriving DecidableEq, Repr

namespace BuildFault

/-- What is said about the fault. -/
def message : BuildFault → String
  | .tooManySlots p o needed =>
    s!"a ({p}, {o}) structure needs {needed} slots, more than the index range allows."
  | .tooManyTerms p o atLeast limit =>
    s!"the ({p}, {o}) composition table needs at least {atLeast} terms, " ++
      s!"more than the limit of {limit}; see TAYLORKIT_MAX_TABLE_TERMS."
  | .coefficientTooLarge p o _ =>
    s!"the ({p}, {o}) composition table has a coefficient too large for the index range."

/-- What is reported before the fault is raised. -/
def event? : BuildFault → Option Event
  | .tooManySlots _ _ _ => none
  | .tooManyTerms p o atLeast limit => some (.tooManyTerms p o atLeast limit)
  | .coefficientTooLarge p o largest => some (.coefficientTooLarge p o largest)

end BuildFault

namespace Event

/-- How much attention the event wants. -/
def level : Event → Level
  | .compiled _ _ _ | .discarded _ _ => .debug
  | .tooManyTerms _ _ _ _ | .coefficientTooLarge _ _ _ => .warning

/-- The text of the report. -/
def text : Event → String
  | .compiled p o slots =>
    s!"Compiled derivative structure rules for ({p}, {o}): {slots} slots."
  | .discarded p o =>
    s!"Discarded concurrent build of ({p}, {o}); another thread published first."
  | .tooManyTerms p o atLeast limit =>
    s!"Composition table of ({p}, {o}) would hold at least {atLeast} terms (limit {limit})."
  | .coefficientTooLarge p o largest =>
    s!"Composition coefficient {largest} of ({p}, {o}) overflows the index range."

/-- A report as one line. -/
def line (e : Event) : String :=
  (match e.level with | .debug => "DEBUG: " | .warning => "WARNING: ") ++ e.text

end Event

end JetAlgebra
