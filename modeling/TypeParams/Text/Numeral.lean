/-
Decimal numerals of natural numbers, as settings are written: an optional
plus sign, then ASCII digits.
-/
namespace TypeParams.Text

/-- The number that a row of digits stands for, the first digit
counting most. -/
def digitsValue (digits : List Char) : Nat :=
  digits.foldl (fun value c => 10 * value + (c.toNat - '0'.toNat)) 0

/-- The number below `limit` that the text is a numeral of. Leading
zeros do not matter; a blank, a minus sign or a lone plus sign makes
the text no numeral. -/
def readNat? (limit : Nat) (text : List Char) : Option Nat :=
  let digits :=
    match text with
    | '+' :: rest => rest
    | _ => text
  let value := digitsValue digits
  if !digits.isEmpty && digits.all Char.isDigit && value < limit then
    some value
  else
    none

end TypeParams.Text
