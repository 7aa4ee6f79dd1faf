import JetAlgebra.Binary64.Decimal
import JetAlgebra.Text.Integer

/-!
# Doubles in text

Where a caller hands in a text for a double, it is read as freely as an integer is:
blanks around it, decimal digits of any script, single underscores between digits, and
names in any case.  `readDouble?` reads exactly these texts.
-/

namespace JetAlgebra.Text

/-- Characters with every digit in ASCII, every letter in lower case, and no underscore
between two digits; there may be no other underscores.  `afterDigit` says whether a digit
comes before. -/
def plainCharacters? (afterDigit : Bool) : List Char → Option (List Char)
  | [] => some []
  | '_' :: rest =>
    if afterDigit && (rest.head?.bind digitValue?).isSome then plainCharacters? false rest else none
  | c :: rest =>
    match digitValue? c with
    | some d => (plainCharacters? true rest).map (Nat.digitChar d :: ·)
    | none => (plainCharacters? false rest).map (c.toLower :: ·)

/-- The double that a text writes, if it writes one. -/
def readDouble? (s : String) : Option Float := do
  Binary64.readDecimal? (← plainCharacters? false (trim isBlank s.toList))

example : plainCharacters? false "1_0.5E٣".toList = some "10.5e3".toList := by decide

example : plainCharacters? false "1_.5".toList = none := by decide

end JetAlgebra.Text
