import Relata.Error

/-!
# Columns

A column has a name and a type, and is defined by writing the two one after the other.
The columns of a relation are listed in order; a name stands for the first column that
bears it.
-/

namespace Relata

structure Column where
  name : Text
  type : DataType
  deriving DecidableEq

namespace Column

/-- Reads a definition, which is a name and the word for a type. -/
def read (definition : Text) : Except Error Column :=
  match definition.words with
  | [name, word] =>
      match DataType.ofWord? word with
      | some type => .ok ⟨name, type⟩
      | none => .error (.unknownType word)
  | _ => .error .malformedColumn

def readAll : List Text → Except Error (List Column)
  | [] => .ok []
  | definition :: rest => do
      let column ← read definition
      let columns ← readAll rest
      return column :: columns

def write (column : Column) : Text :=
  column.name ++ ' ' :: column.type.word

/-- Writes the definitions of a list of columns, with commas between them. -/
def header (columns : List Column) : Text :=
  [','].intercalate (columns.map write)

def index? (columns : List Column) (name : Text) : Option Nat :=
  columns.findIdx? fun column => column.name = name

/-- The position of a column that must exist. -/
def index (columns : List Column) (name : Text) : Except Error Nat :=
  match index? columns name with
  | some i => .ok i
  | none => .error (.unknownColumn name)

end Column

end Relata
