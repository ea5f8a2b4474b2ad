import Relata.Error

/-!
# Literals

What a literal denotes is decided by the characters in it: a single quote anywhere makes
it a text, else a decimal point makes it a float, else it is a marker or an integer.
-/

namespace Relata

namespace Value

def isQuote (c : Char) : Bool :=
  c = '\''

def readInt64? (t : Text) : Option Int64 :=
  match Decimal.readInt? t with
  | some i =>
      if Int64.minValue.toInt ≤ i ∧ i ≤ Int64.maxValue.toInt then some (Int64.ofInt i) else none
  | none => none

/-- Reads a literal. A text loses all quotes at its two ends. -/
def read (literal : Text) : Except Error Value :=
  if literal.any isQuote then .ok (.text (literal.trimWhere isQuote))
  else if literal.contains '.' then
    match Decimal.read? literal with
    | some d => .ok (.float d.toBinary64)
    | none => .error (.unknownLiteral literal)
  else if literal = "NaN".toList then .ok .nan
  else if literal = "NOVALUE".toList then .ok .noValue
  else
    match readInt64? literal with
    | some n => .ok (.int n)
    | none => .error (.unknownLiteral literal)

end Value

end Relata
