import Relata.Error
import Relata.Relation.Column

/-!
# Statements

What a query asks for. Operands and inserted values are kept as they are written; what
they mean depends on the tables they meet.
-/

namespace Relata

inductive Target where
  /-- A column of the joined tables. -/
  | column (name : Text)
  /-- A column computed from two operands and named by an alias. -/
  | computed (left : Text) (op : Arithmetic) (right : Text) (label : Text)
  deriving DecidableEq

inductive Projection where
  | all
  | targets (targets : List Target)
  deriving DecidableEq

structure Condition where
  left : Text
  op : Comparison
  right : Text
  deriving DecidableEq

/-- A select: the tables to join, the columns to keep and the conditions on rows. -/
structure Select where
  projection : Projection
  tables : List Text
  conditions : List Condition
  deriving DecidableEq

inductive Statement where
  | createTable (name : Text) (columns : List Column)
  | createFrom (name : Text) (select : Select)
  | load (name : Text)
  | store (name : Text)
  | drop (name : Text)
  | insert (table : Text) (values : List Text)
  | print (name : Text)
  | select (select : Select)
  deriving DecidableEq

/-! ## Writing -/

def Target.write : Target → Text
  | .column name => name
  | .computed left op right label =>
      left ++ ' ' :: (op.symbol ++ ' ' :: (right ++ " as ".toList ++ label))

def Condition.write (condition : Condition) : Text :=
  condition.left ++ ' ' :: (condition.op.symbol ++ ' ' :: condition.right)

/-- Writes texts one after the other, with a comma and a space between them. -/
def writeList (items : List Text) : Text :=
  ", ".toList.intercalate items

def Projection.write : Projection → Text
  | .all => ['*']
  | .targets items => writeList (items.map Target.write)

def Select.write (select : Select) : Text :=
  "select ".toList ++ select.projection.write ++ " from ".toList ++ writeList select.tables ++
    match select.conditions with
    | [] => []
    | conditions =>
        " where ".toList ++ " and ".toList.intercalate (conditions.map Condition.write)

def Statement.write : Statement → Text
  | .createTable name columns =>
      "create table ".toList ++ name ++ " (".toList ++ writeList (columns.map Column.write) ++ [')']
  | .createFrom name query => "create table ".toList ++ name ++ " as ".toList ++ query.write
  | .load name => "load ".toList ++ name
  | .store name => "store ".toList ++ name
  | .drop name => "drop table ".toList ++ name
  | .insert table values =>
      "insert into ".toList ++ table ++ " values ".toList ++ writeList values
  | .print name => "print ".toList ++ name
  | .select query => query.write

end Relata
