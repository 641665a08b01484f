/-!
# Hexadecimal numerals

Messages show bytes and checksums as lower-case hexadecimal numerals after `0x`, padded with zeros
to a least number of digits.
-/

namespace Diskette

/-- The hexadecimal digits of `n`, at least `least` of them. -/
def hexDigits (least n : Nat) : List Char :=
  let digits := Nat.toDigits 16 n
  List.replicate (least - digits.length) '0' ++ digits

/-- The hexadecimal numeral of `n` with at least `least` digits, after `0x`. -/
def hexNumeral (least n : Nat) : String := "0x" ++ String.ofList (hexDigits least n)

end Diskette
