import Relata.Change
import Relata.Relation.Column
import Relata.Value.Literal

/-!
# Relations

A relation has a name, columns and rows; a result without a name has the empty one. A row
read from literals has one value per column, each of the column's type or a marker. A
column brings its values to the rows one by one, and makes rows of its own when there are
more values than rows.
-/

namespace Relata

abbrev Row := List Value

/-- A table, or the result of a query. -/
structure Relation where
  name : Text
  columns : List Column
  rows : List Row
  deriving DecidableEq

namespace Relation

def empty : Relation :=
  ⟨[], [], []⟩

/-- The value of a row at a position; a value that a short row lacks is missing. -/
def cell (row : Row) (i : Nat) : Value :=
  (row[i]?).getD .noValue

/-! ## Adding rows -/

def readCell (column : Column) (literal : Text) : Except Error Value := do
  let value ← Value.read literal
  if value.fits column.type then return value
  else .error (.wrongType literal column.type)

/-- Reads one literal per column; a wrong number of them counts before any other failure. -/
def readRow (columns : List Column) (literals : List Text) : Except Error Row :=
  if literals.length = columns.length then
    (columns.zip literals).mapM fun (column, literal) => readCell column literal
  else
    .error .wrongArity

def appendRow (literals : List Text) : Change Relation Unit := do
  let row ← readRow (← get).columns literals
  modify fun relation => { relation with rows := relation.rows ++ [row] }

theorem apply_appendRow (relation : Relation) (literals : List Text) :
    (appendRow literals).apply relation =
      match readRow relation.columns literals with
      | .ok row => (.ok (), { relation with rows := relation.rows ++ [row] })
      | .error e => (.error e, relation) := by
  simp only [appendRow, Change.apply_bind, Change.apply_get, Change.apply_lift]
  cases readRow relation.columns literals <;> rfl

/-- A new relation with several rows of literals added; the first failure counts. -/
def appendRows (relation : Relation) (lines : List (List Text)) : Except Error Relation := do
  let rows ← lines.mapM (readRow relation.columns)
  return { relation with rows := relation.rows ++ rows }

theorem appendRows_cons (relation : Relation) (literals : List Text) (lines : List (List Text)) :
    relation.appendRows (literals :: lines) =
      match (appendRow literals).apply relation with
      | (.ok (), extended) => extended.appendRows lines
      | (.error e, _) => .error e := by
  rw [apply_appendRow]
  cases h : readRow relation.columns literals with
  | error e => simp [appendRows, h, bind, Except.bind]
  | ok row =>
      cases hrest : lines.mapM (readRow relation.columns) <;>
        simp [appendRows, h, hrest, bind, Except.bind, pure, Except.pure]

/-! ## Adding columns -/

/-- Adds one value to the end of each row, and a row for each value left over. -/
def extendRows : List Row → List Value → List Row
  | rows, [] => rows
  | [], value :: values => [value] :: extendRows [] values
  | row :: rows, value :: values => (row ++ [value]) :: extendRows rows values

def appendColumn (relation : Relation) (column : Column) (values : List Value) : Relation :=
  { relation with
    columns := relation.columns ++ [column]
    rows := extendRows relation.rows values }

/-- Adds a copy of a column of another relation at the end. -/
def copyColumn (relation source : Relation) (i : Nat) : Except Error Relation :=
  match source.columns[i]? with
  | some column => .ok (relation.appendColumn column (source.rows.map fun row => cell row i))
  | none => .error .outOfRange

/-! ## Writing -/

def writeRow (row : Row) : Text :=
  [','].intercalate (row.map Value.write)

/-- Writes the header and the rows, one a line. -/
def write (relation : Relation) : Text :=
  ['\n'].intercalate (Column.header relation.columns :: relation.rows.map writeRow)

end Relation

end Relata
