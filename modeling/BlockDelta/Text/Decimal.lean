/-!
# Decimal numbers

A number is written by ASCII digits alone; leading zeros change nothing.
-/

namespace BlockDelta.Text

/-- The number that the digits write, from the most significant one on. -/
def digitsValue (digits : List Char) : Nat :=
  digits.foldl (fun value digit => value * 10 + (digit.toNat - '0'.toNat)) 0

/-- The number that a text writes, if it has digits and nothing else. -/
def decimal? (text : List Char) : Option Nat :=
  if text.isEmpty || !text.all Char.isDigit then none else some (digitsValue text)

/-- The natural number that a text writes, perhaps behind a sign. -/
def signedDecimal? : List Char → Option Nat
  | '+' :: digits => decimal? digits
  | '-' :: digits => (decimal? digits).filter fun value => value = 0
  | digits => decimal? digits

end BlockDelta.Text
