import Relata.Query.Statement
import Relata.Relation.Operand
import Relata.Value.Arithmetic

/-!
# Projection

A projection takes over all columns of a relation, or builds a new relation column by
column. A computed column is declared with the type of its left operand, which gives way to
the type of each result in turn unless that is a marker.
-/

namespace Relata

namespace Relation

/-- The type of a column after results have been stored in it. -/
def retyped (declared : DataType) (results : List Value) : DataType :=
  results.foldl (fun type result => result.dataType?.getD type) declared

/-- The results of an operator in every row; the first failure counts. -/
def compute (rows : List Row) (left : Nat) (op : Arithmetic) (right : Operand) :
    Except Error (List Value) :=
  rows.mapM fun row => (cell row left).arithmetic op (right.value row)

/-- Adds the column of a target, taken or computed from the source, at the end. -/
def addTarget (source relation : Relation) : Target → Except Error Relation
  | .column name => do
      let i ← Column.index source.columns name
      relation.copyColumn source i
  | .computed left op right label => do
      let i ← Column.index source.columns left
      let operand ← Operand.read source.columns right
      match source.columns[i]? with
      | none => .error .outOfRange
      | some column => do
          let results ← compute source.rows i op operand
          return relation.appendColumn ⟨label, retyped column.type results⟩ results

/-- The columns that a projection asks for; new relations have no name. -/
def project (source : Relation) : Projection → Except Error Relation
  | .all => .ok source
  | .targets targets => targets.foldlM (addTarget source) empty

end Relation

end Relata
