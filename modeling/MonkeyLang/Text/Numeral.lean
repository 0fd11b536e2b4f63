/-!
# Numerals

Digits of a numeral and the number they stand for, in the two bases that the language and its
messages use.

## Main definitions

* `Numeral.isDigit` : the ten decimal digits.
* `Numeral.value` : the number that a run of decimal digits denotes; leading zeros count nothing.
* `Numeral.hex` : the lower-case hexadecimal numeral of a number, with no padding.
-/

namespace MonkeyLang.Numeral

/-- One of the digits `0` to `9`. -/
def isDigit (c : Char) : Bool := '0' ≤ c && c ≤ '9'

/-- The number denoted by the decimal digits `ds` written after digits that denote `acc`. -/
def valueFrom (acc : Nat) (ds : List Char) : Nat :=
  ds.foldl (fun acc d => acc * 10 + (d.toNat - '0'.toNat)) acc

/-- The number denoted by the decimal digits `ds`. -/
def value (ds : List Char) : Nat := valueFrom 0 ds

/-- The hexadecimal numeral of `n`, in lower case and without leading zeros. -/
def hex (n : Nat) : String := String.ofList (Nat.toDigits 16 n)

end MonkeyLang.Numeral
