import Relata.Text.Basic

/-!
# Keywords and commands

The words with a role in the query language, in lower case only. Seven of them begin a
command; two commands need a second word.
-/

namespace Relata

inductive Keyword where
  | create
  | table
  | drop
  | load
  | store
  | print
  | insert
  | into
  | values
  | select
  | fromWord
  | whereWord
  | asWord
  deriving DecidableEq

inductive Command where
  | create
  | drop
  | load
  | store
  | print
  | insert
  | select
  deriving DecidableEq

namespace Keyword

def word : Keyword → Text
  | .create => "create".toList
  | .table => "table".toList
  | .drop => "drop".toList
  | .load => "load".toList
  | .store => "store".toList
  | .print => "print".toList
  | .insert => "insert".toList
  | .into => "into".toList
  | .values => "values".toList
  | .select => "select".toList
  | .fromWord => "from".toList
  | .whereWord => "where".toList
  | .asWord => "as".toList

def all : List Keyword :=
  [.create, .table, .drop, .load, .store, .print, .insert, .into, .values, .select,
    .fromWord, .whereWord, .asWord]

def ofWord? (word : Text) : Option Keyword :=
  all.find? fun keyword => keyword.word = word

theorem ofWord?_word (keyword : Keyword) : ofWord? keyword.word = some keyword := by
  cases keyword <;> decide

def command? : Keyword → Option Command
  | .create => some .create
  | .drop => some .drop
  | .load => some .load
  | .store => some .store
  | .print => some .print
  | .insert => some .insert
  | .select => some .select
  | _ => none

end Keyword

namespace Command

def keyword : Command → Keyword
  | .create => .create
  | .drop => .drop
  | .load => .load
  | .store => .store
  | .print => .print
  | .insert => .insert
  | .select => .select

def object? : Command → Option Keyword
  | .create => some .table
  | .drop => some .table
  | .insert => some .into
  | _ => none

/-- The name of a command in messages; a text that begins no command is a query. -/
def name : Option Command → Text
  | some command => command.keyword.word
  | none => "query".toList

end Command

end Relata
