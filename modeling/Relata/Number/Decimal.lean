import Relata.Number.Binary64
import Relata.Text.Basic

/-!
# Numbers in decimal notation

Whole numbers are read and written exactly. A number with a decimal point is read as
`coefficient * 10 ^ exponent` and then rounded once to the binary64 format; a binary64
number is written with three places, rounded once from its exact value. Digits are those
of ASCII.
-/

namespace Relata

-- Powers of natural numbers are core's, whatever else is imported.
attribute [local instance (1001)] instPowNat

namespace Decimal

/-- Takes a leading sign off; without one the number is not negative. -/
def splitSign : Text → Bool × Text
  | '-' :: rest => (true, rest)
  | '+' :: rest => (false, rest)
  | t => (false, t)

def isNumeral (t : Text) : Bool :=
  !t.isEmpty && t.all Char.isDigit

def numeralValue (t : Text) : Nat :=
  Nat.ofDigitChars 10 t 0

def numeral (n : Nat) : Text :=
  Nat.toDigits 10 n

theorem numeralValue_numeral (n : Nat) : numeralValue (numeral n) = n :=
  Nat.ofDigitChars_toDigits (by decide) (by decide)

theorem isNumeral_numeral (n : Nat) : isNumeral (numeral n) = true := by
  simp only [isNumeral, numeral, Bool.and_eq_true, Bool.not_eq_true', List.all_eq_true]
  refine ⟨?_, fun c hc => Nat.isDigit_of_mem_toDigits (by decide) (by decide) hc⟩
  simp [Nat.toDigits_ne_nil]

/-! ## Whole numbers -/

def readInt? (t : Text) : Option Int :=
  let (negative, digits) := splitSign t
  if isNumeral digits then
    some (if negative then -(numeralValue digits : Int) else numeralValue digits)
  else
    none

/-- Writes a numeral, after a minus sign if the number is negative. -/
def writeInt (i : Int) : Text :=
  if i < 0 then '-' :: numeral i.natAbs else numeral i.natAbs

/-! ## Numbers with a decimal point -/

/-- From this exponent on further digits of an exponent are passed over. -/
def exponentLimit : Nat :=
  65536

/-- The value of an exponent's digits; past the limit further ones do not count. -/
def exponentValue (digits : Text) : Nat :=
  digits.foldl (fun e c => if e < exponentLimit then 10 * e + (c.toNat - '0'.toNat) else e) 0

/-- Reads what follows the last digit of the fraction: nothing, or an exponent. -/
def readExponent? : Text → Option Int
  | [] => some 0
  | c :: rest =>
      let (negative, digits) := splitSign rest
      if (c = 'e' || c = 'E') && isNumeral digits then
        some (if negative then -(exponentValue digits : Int) else exponentValue digits)
      else
        none

end Decimal

/-- The number `coefficient * 10 ^ exponent`, with a sign that zero carries too. -/
structure Decimal where
  negative : Bool
  coefficient : Nat
  exponent : Int

namespace Decimal

/--
Reads an optional sign, digits around a decimal point with at least one on either side of
it, and an optional exponent.
-/
def read? (t : Text) : Option Decimal :=
  let (negative, body) := splitSign t
  let whole := body.takeWhile Char.isDigit
  match body.dropWhile Char.isDigit with
  | '.' :: tail =>
      let fraction := tail.takeWhile Char.isDigit
      if whole.isEmpty && fraction.isEmpty then none
      else
        (readExponent? (tail.dropWhile Char.isDigit)).map fun exponent =>
          ⟨negative, numeralValue (whole ++ fraction), exponent - fraction.length⟩
  | _ => none

def toBinary64 (d : Decimal) : Binary64 :=
  Binary64.round d.negative (d.coefficient * 10 ^ d.exponent.toNat * unitsPerOne)
    (10 ^ (-d.exponent).toNat)

/-- Writes a number of thousandths with a point before the last three digits. -/
def writeThousandths (n : Nat) : Text :=
  numeral (n / 1000) ++ '.' :: (numeral (n % 1000)).leftpad 3 '0'

end Decimal

namespace Binary64

/-- The number of thousandths nearest to a magnitude. -/
def thousandths (units : Nat) : Nat :=
  roundDiv (units * 1000) unitsPerOne

def write : Binary64 → Text
  | .nan => "NaN".toList
  | .infinite negative => (if negative then "-inf" else "inf").toList
  | .finite negative units _ =>
      let digits := Decimal.writeThousandths (thousandths units)
      if negative then '-' :: digits else digits

end Binary64

end Relata
