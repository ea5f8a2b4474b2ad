import Relata.Text.Basic

/-!
# Searching and splitting by a pattern

A pattern of several characters is looked for from the left. Splitting cuts at every
occurrence that does not overlap an earlier one, and so yields one more piece than there
are cuts. Fields end at commas and lines at line feeds.
-/

namespace Relata

namespace Text

def has : Text → Text → Bool
  | [], pattern => pattern.isEmpty
  | c :: rest, pattern => pattern.isPrefixOf (c :: rest) || has rest pattern

/--
Splits at the occurrences of the pattern. The first `skip` characters belong to an
occurrence already found.
-/
def splitSkipping (pattern : Text) : Nat → Text → List Text
  | _, [] => [[]]
  | skip + 1, _ :: rest => splitSkipping pattern skip rest
  | 0, c :: rest =>
      if pattern.isPrefixOf (c :: rest) then
        [] :: splitSkipping pattern (pattern.length - 1) rest
      else
        (splitSkipping pattern 0 rest).modifyHead (c :: ·)

/-- The pieces between successive occurrences of a pattern that is not empty. -/
def splitAround (t pattern : Text) : List Text :=
  splitSkipping pattern 0 t

/-- The first two pieces; a missing one is empty. -/
def firstTwo : List Text → Text × Text
  | first :: second :: _ => (first, second)
  | [only] => (only, [])
  | [] => ([], [])

/-- The fields of a line, which commas divide, without the blanks around them. -/
def fields (t : Text) : List Text :=
  (t.splitOn ',').map trim

/--
The lines of a text. A line feed ends a line and takes one carriage return before it
along; what follows the last line feed is a line unless it is empty.
-/
def lines (t : Text) : List Text :=
  match (t.splitOn '\n').reverse with
  | [] => []
  | last :: ended =>
      let whole := ended.reverse.map fun line =>
        if line.getLast? = some '\r' then line.dropLast else line
      if last.isEmpty then whole else whole ++ [last]

end Text

end Relata
