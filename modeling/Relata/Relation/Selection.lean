import Relata.Query.Statement
import Relata.Relation.Operand
import Relata.Value.Comparison

/-!
# Selection

Conditions are applied one after the other, each to the rows that the earlier ones left.
-/

namespace Relata

namespace Relation

/-- The rows for which a test succeeds; the first failure counts. -/
def keepRows (test : Row → Except Error Bool) (rows : List Row) : Except Error (List Row) :=
  rows.filterMapM fun row => do
    return if ← test row then some row else none

def selectOne (relation : Relation) (condition : Condition) : Except Error Relation := do
  let left ← Column.index relation.columns condition.left
  let right ← Operand.read relation.columns condition.right
  let rows ← keepRows
    (fun row => (cell row left).compare condition.op (right.value row)) relation.rows
  return { relation with rows }

def select (relation : Relation) (conditions : List Condition) : Except Error Relation :=
  conditions.foldlM selectOne relation

end Relation

end Relata
