import Relata.Query.Statement
import Relata.Text.Search

/-!
# Projections, conditions and value lists

These parts of a query are not read token by token: their text is divided at commas, at
` as ` or at ` and `, wherever these stand, and operators are found by searching.
-/

namespace Relata

/--
Reads one column of a select. A piece with ` as ` in it is computed: its expression is
divided at the first operator in search order, and what follows a second occurrence of
the operator or of ` as ` is dropped. Any other piece is a column name.
-/
def Target.read (piece : Text) : Except Error Target :=
  match piece.splitAround " as ".toList with
  | expression :: label :: _ =>
      match Arithmetic.find? expression with
      | some op =>
          let (left, right) := Text.firstTwo (expression.splitAround op.symbol)
          .ok (.computed left.trim op right.trim label.trim)
      | none => .error (.noOperator expression)
  | _ => .ok (.column piece)

def Projection.read (failure : Error) (t : Text) : Except Error Projection :=
  if t = ['*'] then .ok .all
  else do
    let targets ← (t.splitOn ',').mapM fun (piece : Text) =>
      if piece.trim = [] then .error failure else Target.read piece.trim
    return .targets targets

/--
Reads a condition, divided at the first spelling of a comparison in search order; what
follows a second occurrence of the spelling is dropped.
-/
def Condition.read (t : Text) : Except Error Condition :=
  match Comparison.find? t with
  | some (spelling, op) =>
      let (left, right) := Text.firstTwo (t.splitAround spelling)
      .ok ⟨left.trim, op, right.trim⟩
  | none => .error (.noComparison t)

def Condition.readAll (t : Text) : Except Error (List Condition) :=
  (t.splitAround " and ".toList).mapM Condition.read

end Relata
