import JetAlgebra.Text.Printable

/-!
# Quoted text

A text in a message is quoted.  The quote is a single one, unless the text holds a
single quote and no double quote.  The quote and the backslash are escaped, the
usual controls by a letter, and every other unprintable character by its code point
in hexadecimal, with as few of 2, 4 or 8 digits as it needs.
-/

namespace JetAlgebra.Text

/-- A number in lower-case hexadecimal, with zeros in front up to the given width. -/
def hexadecimal (width n : Nat) : List Char :=
  let digits := Nat.toDigits 16 n
  List.replicate (width - digits.length) '0' ++ digits

/-- The quote around a text. -/
def quoteMark (cs : List Char) : Char :=
  if cs.contains '\'' && !cs.contains '"' then '"' else '\''

/-- A character inside a quoted text. -/
def escaped (mark c : Char) : List Char :=
  if c == mark || c == '\\' then ['\\', c]
  else if c == '\n' then ['\\', 'n']
  else if c == '\r' then ['\\', 'r']
  else if c == '\t' then ['\\', 't']
  else if isPrintable c then [c]
  else if c.toNat < 0x100 then '\\' :: 'x' :: hexadecimal 2 c.toNat
  else if c.toNat < 0x10000 then '\\' :: 'u' :: hexadecimal 4 c.toNat
  else '\\' :: 'U' :: hexadecimal 8 c.toNat

/-- A text in quotes. -/
def quoted (s : String) : String :=
  let mark := quoteMark s.toList
  String.ofList (mark :: s.toList.flatMap (escaped mark) ++ [mark])

example : quoted "it's" = "\"it's\"" := by decide +kernel

example : quoted "a\té" = "'a\\té'" := by decide +kernel

end JetAlgebra.Text
