import Relata.Text.Utf8

/-!
# Files and directories

A tree of directories and files below a root, one directory of which is the working one. A
path is walked name by name, from the root if it starts with a slash and else from the
working directory, and only directories can be walked through. A file can be read and
written where its directory exists; a directory can be neither. Names and paths have a
greatest length.
-/

namespace Relata

/-- A place in a tree: the names of the directories on the way, then its own. -/
abbrev Place := List Text

inductive Entry where
  | directory
  | file (content : Bytes)
  deriving DecidableEq

/-- The entries below a root directory, and the place of the working directory. -/
structure FileTree where
  entries : List (Place × Entry)
  workingDirectory : Place
  deriving DecidableEq

namespace FileTree

def empty : FileTree :=
  ⟨[], []⟩

/-- What stands at a place; the root is a directory. -/
def node? (tree : FileTree) (place : Place) : Option Entry :=
  if place = [] then some .directory
  else (tree.entries.find? fun item => item.1 = place).map Prod.snd

def put (tree : FileTree) (place : Place) (entry : Entry) : FileTree :=
  { tree with entries := (place, entry) :: tree.entries.filter fun item => item.1 ≠ place }

/-- The longest name of an entry, in bytes. -/
def nameLimit : Nat :=
  255

/-- The longest path that can be walked, in bytes, however short the way it leads. -/
def pathLimit : Nat :=
  4095

def isName (name : Text) : Bool :=
  (Text.encode name).length ≤ nameLimit && !name.contains '\x00'

/--
Walks a path from a place. An empty name and a point stay in the directory, two points
lead back to the one above, and above the root is the root itself.
-/
def walk (tree : FileTree) : Place → List Text → Option Place
  | place, [] => some place
  | place, name :: rest =>
      if tree.node? place = some .directory then
        if name = [] ∨ name = ['.'] then walk tree place rest
        else if name = ['.', '.'] then
          walk tree place.dropLast rest
        else if isName name then walk tree (place ++ [name]) rest
        else none
      else
        none

def origin (tree : FileTree) (path : Text) : Place :=
  if path.head? = some '/' then [] else tree.workingDirectory

/-- The place of a path; one beyond the limit leads nowhere. -/
def place? (tree : FileTree) (path : Text) : Option Place :=
  if (Text.encode path).length ≤ pathLimit then
    walk tree (origin tree path) (path.splitOn '/')
  else
    none

def read (tree : FileTree) (path : Text) : Option Bytes :=
  match (tree.place? path).bind tree.node? with
  | some (.file content) => some content
  | _ => none

/-- Writes a file, new or in lieu of an older one, and tells whether it could be written. -/
def write (tree : FileTree) (path : Text) (content : Bytes) : Bool × FileTree :=
  match tree.place? path with
  | none => (false, tree)
  | some place =>
      if tree.node? place = some .directory then (false, tree)
      else (true, tree.put place (.file content))

def makeDirectory (tree : FileTree) (path : Text) : Option FileTree :=
  match tree.place? path with
  | none => none
  | some place =>
      match tree.node? place with
      | some _ => none
      | none => some (tree.put place .directory)

def enter (tree : FileTree) (path : Text) : Option FileTree :=
  match tree.place? path with
  | none => none
  | some place =>
      if tree.node? place = some .directory then some { tree with workingDirectory := place }
      else none

end FileTree

end Relata
