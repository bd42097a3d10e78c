import Chronos.Lib.Rounding
import Chronos.Lib.Scanf

/-!
# Formatted output

What `printf` writes for a format of text and decimal numbers, how `%.2f` writes a number
of hundredths, and how the arguments and the lines can be read back.
-/

namespace Chronos.Lib

/-! ## Numbers -/

/-- Decimal digits, with zeros in front up to a width. -/
def zeroPad (width n : Nat) : List Char :=
  List.replicate (width - (Nat.toDigits 10 n).length) '0' ++ Nat.toDigits 10 n

/-- A sign and decimal digits at the front of a text, and what follows them. -/
def readNumber (s : List Char) : Option (Int × List Char) :=
  let (sign, body) := splitSign s
  let digits := body.takeWhile Char.isDigit
  let n : Int := Nat.ofDigitChars 10 digits 0
  if digits = [] then none
  else some (if sign = ['-'] then -n else n, body.dropWhile Char.isDigit)

section Read

variable {digits rest : List Char} (hdigits : ∀ c ∈ digits, c.isDigit = true)
  (hne : digits ≠ []) (hrest : ∀ c ∈ rest.head?, c.isDigit = false)

include hdigits hrest

include hne

end Read

/-- A piece of a format: text, `%d` or `%ld`, or a number that is not negative in at least
so many digits. -/
inductive Conversion
  | text (s : List Char)
  | number
  | digits (width : Nat)
  deriving DecidableEq, Repr

/-- What a format writes for its arguments. -/
def printf : List Conversion → List Int → List Char
  | .text s :: format, args => s ++ printf format args
  | .number :: format, a :: args => numeral a ++ printf format args
  | .digits width :: format, a :: args => zeroPad width a.toNat ++ printf format args
  | _, _ => []

/-- The arguments are as many and of such kinds as the format asks for. -/
def Fits : List Conversion → List Int → Prop
  | [], args => args = []
  | .text _ :: format, args => Fits format args
  | .number :: format, _ :: args => Fits format args
  | .digits _ :: format, a :: args => 0 ≤ a ∧ Fits format args
  | _, [] => False

/-- What follows is text that does not begin with a digit. -/
def Conversion.ends : List Conversion → Bool
  | .text (c :: _) :: _ => !c.isDigit
  | _ => false

/-- `%.2f` and the like: the nearest number with so many decimals, ties going to the even
one. -/
def fixed (decimals : Nat) (x : ℚ) : List Char :=
  let n := (roundEven (|x| * 10 ^ decimals)).toNat
  (if x < 0 then ['-'] else []) ++
    (Nat.toDigits 10 (n / 10 ^ decimals) ++ '.' :: zeroPad decimals (n % 10 ^ decimals))

end Chronos.Lib
