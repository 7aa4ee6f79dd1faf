import JetAlgebra.Text.Digit

/-!
# Integers in text

An integer is written with blanks around it, an optional sign, and decimal digits
of any script; one underscore may stand between two digits.  `readInteger?` reads
exactly these texts, of them only those that have no more digits than a limit, if
there is one.  All digits count for the limit, leading zeros too, and nothing else.
-/

namespace JetAlgebra.Text

/-- The values of a run of digits, where single underscores may stand between digits. -/
def digitRun? : List Char → Option (List Nat)
  | [] => none
  | [c] => (digitValue? c).map ([·])
  | c :: '_' :: rest => do return (← digitValue? c) :: (← digitRun? rest)
  | c :: rest => do return (← digitValue? c) :: (← digitRun? rest)

/-- The number with the given decimal digits. -/
def ofDigits (digits : List Nat) : Nat := digits.foldl (fun n d => 10 * n + d) 0

/-- A list without the members of a class at its two ends. -/
def trim (p : Char → Bool) (cs : List Char) : List Char :=
  ((cs.dropWhile p).reverse.dropWhile p).reverse

/-- The largest number of digits that is read as a rule. -/
def standardDigits : Nat := 4300

/-- The integer that a text writes, if it writes one with at most `maxDigits` digits; without
`maxDigits` their number does not matter. -/
def readInteger? (maxDigits : Option Nat) (s : String) : Option Int := do
  let (negative, body) := splitSign (trim isBlank s.toList)
  let digits ← digitRun? body
  guard (maxDigits.all (digits.length ≤ ·))
  let n := ofDigits digits
  return if negative then -(n : Int) else n

example : readInteger? (some 3) " -0_07" = some (-7) ∧ readInteger? (some 2) "007" = none := by
  decide

end JetAlgebra.Text
