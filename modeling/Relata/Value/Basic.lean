import Relata.Number.Decimal

/-!
# Values and column types

A value is a 64-bit integer, a binary64 number, a text, or one of two markers: `NaN` for
an undefined result and `NOVALUE` for a missing one. A column declares one of three types,
and a marker fits every column.
-/

namespace Relata

inductive DataType where
  | int
  | float
  | string
  deriving DecidableEq

namespace DataType

def word : DataType → Text
  | .int => "int".toList
  | .float => "float".toList
  | .string => "string".toList

def all : List DataType :=
  [.int, .float, .string]

def ofWord? (word : Text) : Option DataType :=
  all.find? fun type => type.word = word

theorem ofWord?_word (type : DataType) : ofWord? type.word = some type := by
  cases type <;> decide

end DataType

inductive Value where
  | int (n : Int64)
  | float (x : Binary64)
  | text (t : Text)
  | nan
  | noValue
  deriving DecidableEq

/-- What a value is: of a column type, or one of the two markers. -/
inductive Kind where
  | typed (type : DataType)
  | nan
  | noValue
  deriving DecidableEq

def Kind.name : Kind → Text
  | .typed type => type.word
  | .nan => "NaN".toList
  | .noValue => "NOVALUE".toList

namespace Value

def kind : Value → Kind
  | .int _ => .typed .int
  | .float _ => .typed .float
  | .text _ => .typed .string
  | .nan => .nan
  | .noValue => .noValue

/-- The type of a value; the markers have none. -/
def dataType? (v : Value) : Option DataType :=
  match v.kind with
  | .typed type => some type
  | _ => none

/-- Whether a value may stand in a column of the given type. -/
def fits (v : Value) (type : DataType) : Bool :=
  match v.dataType? with
  | some own => own = type
  | none => true

def isText : Value → Bool
  | .text _ => true
  | _ => false

/--
Sameness for matching and for equality: of one kind, with equal content. Zeros of either
sign are the same; a float that is not a number is not the same even as itself; a marker
is the same as itself.
-/
def identical : Value → Value → Bool
  | .int a, .int b => a = b
  | .float x, .float y => x.sameNumber y
  | .text s, .text t => s = t
  | .nan, .nan => true
  | .noValue, .noValue => true
  | _, _ => false

/-- Writes a value: text between single quotes, a float with three places. -/
def write : Value → Text
  | .int n => Decimal.writeInt n.toInt
  | .float x => x.write
  | .text t => '\'' :: (t ++ ['\''])
  | .nan => "NaN".toList
  | .noValue => "NOVALUE".toList

end Value

end Relata
