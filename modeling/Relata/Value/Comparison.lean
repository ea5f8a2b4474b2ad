import Relata.Value.Arithmetic

/-!
# Comparison of values

Texts compare by code point and with texts only; numbers compare by size, an integer
beside a float after conversion to the nearest float. Equality asks for the same kind and
content instead. Nothing holds of `NOVALUE`, and of `NaN` on the left everything holds
unless it stands on the right too.
-/

namespace Relata

namespace Value

/-- The order of two texts or two numbers. -/
def order? : Value → Value → Option Ordering
  | .text s, .text t => some (Text.order s t)
  | .int a, .int b => some (Ord.compare a.toInt b.toInt)
  | .float x, .float y => x.compare? y
  | .int a, .float y => (toFloat a).compare? y
  | .float x, .int b => x.compare? (toFloat b)
  | _, _ => none

def compare (left : Value) (op : Comparison) (right : Value) : Except Error Bool :=
  if left.kind = .noValue ∨ right.kind = .noValue then .ok false
  else if left.kind = .nan then .ok (right.kind ≠ .nan)
  else if left.isText ≠ right.isText then .error (.incomparable left.kind op right.kind)
  else
    match op with
    | .equal => .ok (left.identical right)
    | .unequal => .ok (!left.identical right)
    | _ => .ok ((left.order? right).any op.accepts)

end Value

end Relata
