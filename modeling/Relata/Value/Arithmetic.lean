import Relata.Value.Literal

/-!
# Arithmetic on values

Integers wrap around at 64 bits, an integer beside a float becomes the nearest float, and
texts can be concatenated. The marker `NaN` absorbs every operator; `NOVALUE` counts as
nothing in sums and differences and as zero in products and dividends, and makes a divisor
undefined.
-/

namespace Relata

namespace Value

def toFloat (n : Int64) : Binary64 :=
  Binary64.ofInt n.toInt

def unquoted (t : Text) : Text :=
  t.filter fun c => !isQuote c

def add : Value → Value → Except Error Value
  | .int a, .int b => .ok (.int (a + b))
  | .float x, .float y => .ok (.float (x.add y))
  | .int a, .float y => .ok (.float ((toFloat a).add y))
  | .float x, .int b => .ok (.float (x.add (toFloat b)))
  | .text s, .text t => .ok (.text (unquoted s ++ unquoted t))
  | v, .noValue => .ok v
  | .noValue, v => .ok v
  | _, _ => .error (.undefinedOperation .add false)

/-- Difference; a missing minuend negates. -/
def subtract : Value → Value → Except Error Value
  | .text _, _ => .error (.undefinedOperation .subtract true)
  | _, .text _ => .error (.undefinedOperation .subtract true)
  | .int a, .int b => .ok (.int (a - b))
  | .float x, .float y => .ok (.float (x.sub y))
  | .int a, .float y => .ok (.float ((toFloat a).sub y))
  | .float x, .int b => .ok (.float (x.sub (toFloat b)))
  | v, .noValue => .ok v
  | .noValue, .int b => .ok (.int (-b))
  | .noValue, .float y => .ok (.float y.neg)
  | _, _ => .error (.undefinedOperation .subtract false)

/-- Product; with a missing factor it is zero. -/
def multiply : Value → Value → Except Error Value
  | .text _, _ => .error (.undefinedOperation .multiply true)
  | _, .text _ => .error (.undefinedOperation .multiply true)
  | .int a, .int b => .ok (.int (a * b))
  | .float x, .float y => .ok (.float (x.mul y))
  | .int a, .float y => .ok (.float ((toFloat a).mul y))
  | .float x, .int b => .ok (.float (x.mul (toFloat b)))
  | .int _, .noValue => .ok (.int 0)
  | .noValue, .int _ => .ok (.int 0)
  | .float _, .noValue => .ok (.float (Binary64.zero false))
  | .noValue, .float _ => .ok (.float (Binary64.zero false))
  | _, _ => .error (.undefinedOperation .multiply false)

/-- The quotient truncated toward zero, unless there is none or it needs a 65th bit. -/
def quotient? (a b : Int64) : Option Int64 :=
  if b = 0 then none
  else if a = Int64.minValue ∧ b = -1 then none
  else some (a / b)

def ofFinite (x : Binary64) : Value :=
  if x.isFinite then .float x else .nan

/-- Quotient; where there is none, or none that is finite, the result is `NaN`. -/
def divide : Value → Value → Except Error Value
  | .text _, _ => .error (.undefinedOperation .divide true)
  | _, .text _ => .error (.undefinedOperation .divide true)
  | .int a, .int b =>
      match quotient? a b with
      | some q => .ok (.int q)
      | none => .ok .nan
  | .float x, .float y => .ok (ofFinite (x.div y))
  | .int a, .float y => .ok (ofFinite ((toFloat a).div y))
  | .float x, .int b => .ok (ofFinite (x.div (toFloat b)))
  | _, .noValue => .ok .nan
  | .noValue, .int _ => .ok (.int 0)
  | .noValue, .float _ => .ok (.float (Binary64.zero false))
  | _, _ => .error (.undefinedOperation .divide false)

/-- The operation of an operator, without the rules on markers and mixed operands. -/
def operation : Arithmetic → Value → Value → Except Error Value
  | .add => add
  | .subtract => subtract
  | .multiply => multiply
  | .divide => divide

/-- Applies an operator. A text goes with no number. -/
def arithmetic (left : Value) (op : Arithmetic) (right : Value) : Except Error Value :=
  match left, right with
  | .nan, _ => .ok .nan
  | _, .nan => .ok .nan
  | .noValue, .noValue => .ok .noValue
  | .text _, .int _ => .error (.incompatible left.kind right.kind)
  | .text _, .float _ => .error (.incompatible left.kind right.kind)
  | .int _, .text _ => .error (.incompatible left.kind right.kind)
  | .float _, .text _ => .error (.incompatible left.kind right.kind)
  | _, _ => operation op left right

end Value

end Relata
