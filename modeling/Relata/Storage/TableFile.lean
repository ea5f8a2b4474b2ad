import Relata.Relation.Basic
import Relata.Storage.FileRequest
import Relata.Text.Search

/-!
# Table files

A table is kept in a text file of its own: the header, then a line per row. Lines without
content are passed over, except that the first must be the header. Rows are read like
inserted ones, with blanks around the values.
-/

namespace Relata

/-- Where table files are, and the ending of their names. -/
structure FileSettings where
  directory : Text
  extension : Text
  deriving DecidableEq

namespace FileSettings

/-- The working directory, and the ending of plain tables. -/
def default : FileSettings :=
  ⟨['.'], "tbl".toList⟩

def fileName (settings : FileSettings) (table : Text) : Text :=
  table ++ '.' :: settings.extension

/-- The path of a table's file; a name that starts at the root stands for itself. -/
def path (settings : FileSettings) (table : Text) : Text :=
  let name := settings.fileName table
  if name.head? = some '/' ∨ settings.directory = [] then name
  else if settings.directory.getLast? = some '/' then settings.directory ++ name
  else settings.directory ++ '/' :: name

end FileSettings

namespace Relation

/-- Adds the rows of lines that hold more than blanks; the first failure counts. -/
def appendLines (relation : Relation) (lines : List Text) : Except Error Relation :=
  relation.appendRows ((lines.filter fun line => !line.isBlankOnly).map Text.fields)

def ofLines (file name : Text) : List Text → Except Error Relation
  | [] => .error (.cannotParse file)
  | header :: lines =>
      if header.isBlankOnly then .error (.cannotParse file)
      else do
        let columns ← Column.readAll (header.splitOn ',')
        appendLines ⟨name, columns, []⟩ lines

/-- Reads a table from the bytes of its file, if there are any. -/
def ofFile (file name : Text) (content : Option Bytes) : Except Error Relation :=
  match content.bind Text.decode with
  | none => .error (.cannotOpen file)
  | some t => ofLines file name t.lines

def load (settings : FileSettings) (name : Text) : FileRequest (Except Error Relation) :=
  .read (settings.path name) (ofFile (settings.fileName name) name)

def store (settings : FileSettings) (relation : Relation) : FileRequest (Except Error Unit) :=
  .write (settings.path relation.name) (Text.encode relation.write) fun written =>
    if written then .ok () else .error (.cannotWrite relation.name)

end Relation

end Relata
