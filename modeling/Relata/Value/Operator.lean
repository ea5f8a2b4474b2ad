import Relata.Text.Search

/-!
# Operators

The four arithmetic operators and the six comparisons, with their spellings. An operator
is found in a text by trying the spellings in a fixed order, wherever they stand; a longer
comparison sign is tried before its parts.
-/

namespace Relata

inductive Arithmetic where
  | add
  | subtract
  | multiply
  | divide
  deriving DecidableEq

namespace Arithmetic

def symbol : Arithmetic → Text
  | .add => ['+']
  | .subtract => ['-']
  | .multiply => ['*']
  | .divide => ['/']

def verb : Arithmetic → Text
  | .add => "add".toList
  | .subtract => "subtract".toList
  | .multiply => "multiply".toList
  | .divide => "divide".toList

/-- The operators in the order in which a text is searched for them. -/
def searchOrder : List Arithmetic :=
  [.multiply, .add, .subtract, .divide]

def ofSymbol? (t : Text) : Option Arithmetic :=
  searchOrder.find? fun op => op.symbol = t

/-- The first operator in search order whose sign stands in the text. -/
def find? (t : Text) : Option Arithmetic :=
  searchOrder.find? fun op => t.has op.symbol

end Arithmetic

inductive Comparison where
  | atLeast
  | atMost
  | greater
  | less
  | equal
  | unequal
  deriving DecidableEq

namespace Comparison

def symbol : Comparison → Text
  | .atLeast => ['>', '=']
  | .atMost => ['<', '=']
  | .greater => ['>']
  | .less => ['<']
  | .equal => ['=', '=']
  | .unequal => ['!', '=']

/--
All spellings in the order in which a text is searched for them; two comparisons may be
spelt with the equals sign in front.
-/
def spellings : List (Text × Comparison) :=
  [(['>', '='], .atLeast), (['=', '>'], .atLeast), (['<', '='], .atMost),
    (['=', '<'], .atMost), (['>'], .greater), (['<'], .less), (['=', '='], .equal),
    (['!', '='], .unequal)]

def ofSpelling? (t : Text) : Option Comparison :=
  (spellings.find? fun entry => entry.1 = t).map Prod.snd

/-- The first spelling in search order that stands in the text, with its comparison. -/
def find? (t : Text) : Option (Text × Comparison) :=
  spellings.find? fun entry => t.has entry.1

/-- Whether a comparison holds of two operands in the given order. -/
def accepts : Comparison → Ordering → Bool
  | .atLeast, order => order != .lt
  | .atMost, order => order != .gt
  | .greater, order => order == .gt
  | .less, order => order == .lt
  | .equal, order => order == .eq
  | .unequal, order => order != .eq

end Comparison

end Relata
