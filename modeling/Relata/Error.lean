import Relata.Query.Keyword
import Relata.Value.Basic
import Relata.Value.Operator

/-!
# Errors

Every way in which a query can fail, and its message. A message that does not concern the
form of the query begins with `ERROR:`.
-/

namespace Relata

/-- The cause of a failure. -/
inductive Error where
  /-- The text after the command's words does not have the command's form. -/
  | malformed (command : Option Command) (text : Text)
  | unknownTable (table : Text)
  | tableExists (table : Text)
  | unknownColumn (column : Text)
  /-- A row has more or fewer values than there are columns. -/
  | wrongArity
  /-- A literal of another type than its column. -/
  | wrongType (literal : Text) (expected : DataType)
  | unknownType (word : Text)
  /-- A column definition is not a name and a type. -/
  | malformedColumn
  | unknownLiteral (literal : Text)
  | incomparable (left : Kind) (op : Comparison) (right : Kind)
  | incompatible (left right : Kind)
  /-- An operator has no meaning for its operands, of which one may be a text. -/
  | undefinedOperation (op : Arithmetic) (onText : Bool)
  | noOperator (expression : Text)
  | noComparison (condition : Text)
  | cannotOpen (file : Text)
  | cannotParse (file : Text)
  | cannotWrite (table : Text)
  /-- A position outside the text, row or column list that it refers to. -/
  | outOfRange
  deriving DecidableEq

namespace Error

def message : Error → Text
  | .malformed command text => "Malformed ".toList ++ Command.name command ++ ": ".toList ++ text
  | .unknownTable table => "ERROR: No such table ".toList ++ table
  | .tableExists table => "ERROR: Table already exists: ".toList ++ table
  | .unknownColumn column => "ERROR: Cannot find column ".toList ++ column
  | .wrongArity => "ERROR: Incorrect amount of values to insert into row".toList
  | .wrongType literal expected =>
      "ERROR: Invalid type insertion ".toList ++ literal ++ " expecting ".toList ++ expected.word
  | .unknownType word => "ERROR: Invalid type ".toList ++ word
  | .malformedColumn => "ERROR: Malformed column definition".toList
  | .unknownLiteral literal => "ERROR: Cannot determine type ".toList ++ literal
  | .incomparable left op right =>
      "ERROR: Incomparable ".toList ++ left.name ++ op.symbol ++ right.name
  | .incompatible left right =>
      "ERROR: Invalid type combination ".toList ++ left.name ++ " and ".toList ++ right.name
  | .undefinedOperation op onText =>
      "ERROR: Arithmetic Error: Cannot ".toList ++ op.verb ++
        (if onText then " strings" else " elements").toList
  | .noOperator expression => "ERROR: Invalid column Expression ".toList ++ expression
  | .noComparison condition => "ERROR: Invalid where clause ".toList ++ condition
  | .cannotOpen file => "ERROR: Cannot open file ".toList ++ file
  | .cannotParse file => "ERROR: Unable to parse file ".toList ++ file
  | .cannotWrite table => "ERROR: writing table to file: ".toList ++ table
  | .outOfRange => "ERROR: Position out of range".toList

/-- Whether a failure concerns the form of a query. -/
def isMalformed : Error → Bool
  | .malformed _ _ => true
  | _ => false

def concernsFile : Error → Bool
  | .cannotOpen _ => true
  | .cannotParse _ => true
  | .cannotWrite _ => true
  | _ => false

end Error

namespace Outcome

theorem bind_eq_ok {x : Except ε α} {f : α → Except ε β} {b : β} :
    (x >>= f) = .ok b ↔ ∃ a, x = .ok a ∧ f a = .ok b := by
  cases x with
  | error e => simp [bind, Except.bind]
  | ok a => simp [bind, Except.bind]

theorem bind_eq_error {x : Except ε α} {f : α → Except ε β} {e : ε} :
    (x >>= f) = .error e ↔ x = .error e ∨ ∃ a, x = .ok a ∧ f a = .error e := by
  cases x with
  | error e' => simp [bind, Except.bind]
  | ok a => simp [bind, Except.bind]

theorem map_eq_ok {x : Except ε α} {f : α → β} {b : β} :
    (f <$> x) = .ok b ↔ ∃ a, x = .ok a ∧ f a = b := by
  cases x with
  | error e => simp [Functor.map, Except.map]
  | ok a => simp [Functor.map, Except.map]

theorem map_eq_error {x : Except ε α} {f : α → β} {e : ε} :
    (f <$> x) = .error e ↔ x = .error e := by
  cases x <;> simp [Functor.map, Except.map]

end Outcome

end Relata
