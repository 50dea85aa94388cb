import Evobench.Library.Decimal
import Evobench.Library.FloatValue

/-!
# Floating-point numbers as texts

`f64FromStr` reads a number as `f64::from_str` is documented to: a sign, and an infinity or a decimal number with or without
a point and an exponent, which is rounded to the nearest number; or what is not a number.
-/

namespace Library

/-- `m * 10 ^ e`, rounded. -/
def floatOfDecimal (m : ℕ) (e : ℤ) : Float := .ofModel (Float.Model.ofScientific m e)

/-- The number that is written with digits. -/
def digits? (cs : List Char) : Option ℕ := if IsDigits cs then some (digitsValue cs) else none

/-- An exponent, or nothing. -/
def parseExponent : List Char → Option ℤ
  | [] => some 0
  | c :: cs =>
    if c.toLower = 'e' then
      match cs with
      | '+' :: ds => (digits? ds).map Int.ofNat
      | '-' :: ds => (digits? ds).map fun n => -(n : ℤ)
      | ds => (digits? ds).map Int.ofNat
    else none

/-- Digits before and after a point, and an exponent. -/
def parseNumber (cs : List Char) : Option Float :=
  let (whole, rest) := cs.span Char.isDigit
  let (fraction, rest) := match rest with
    | '.' :: rest => rest.span Char.isDigit
    | _ => ([], rest)
  if whole ++ fraction = [] then none
  else (parseExponent rest).map fun e => floatOfDecimal (digitsValue (whole ++ fraction)) (e - fraction.length)

/-- A number without a sign. -/
def parseUnsigned (cs : List Char) : Option Float :=
  let name := cs.map Char.toLower
  if name = ['i', 'n', 'f'] ∨ name = ['i', 'n', 'f', 'i', 'n', 'i', 't', 'y'] then
    some (.ofModel (Float.Model.pack (.infinity .positive)))
  else if name = ['n', 'a', 'n'] then some (.ofModel (Float.Model.pack .notANumber))
  else parseNumber cs

/-- `f64::from_str` -/
def f64FromStr (s : String) : Option Float :=
  match s.toList with
  | '+' :: cs => parseUnsigned cs
  | '-' :: cs => (parseUnsigned cs).map Float.neg
  | cs => parseUnsigned cs

example : f64FromStr "+.5E-1" = some 0.05 := by decide +kernel

example : f64FromStr "." = none := by decide +kernel

end Library
