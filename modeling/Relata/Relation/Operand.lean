import Relata.Relation.Basic

/-!
# Operands

An operand of a condition or of a computed column names a column of the relation at hand
or is a literal; a column of that name takes precedence.
-/

namespace Relata

/-- What an operand stands for. -/
inductive Operand where
  | column (i : Nat)
  | literal (value : Value)
  deriving DecidableEq

namespace Operand

/-- Tells what an operand stands for among the given columns. -/
def read (columns : List Column) (t : Text) : Except Error Operand :=
  match Column.index? columns t with
  | some i => .ok (.column i)
  | none => .literal <$> Value.read t

def value (row : Row) : Operand → Value
  | .column i => Relation.cell row i
  | .literal value => value

end Operand

end Relata
