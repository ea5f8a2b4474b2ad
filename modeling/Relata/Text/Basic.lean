/-!
# Texts and blanks

A text is the list of its characters. Blanks are the characters with the Unicode
property `White_Space`; trimming, splitting into words and collapsing use no other notion
of space. Texts are ordered by their code points.
-/

namespace Relata

abbrev Text := List Char

namespace Text

/-- The code points with the Unicode property `White_Space`, as inclusive ranges. -/
def blankRanges : List (Nat × Nat) :=
  [(0x09, 0x0D), (0x20, 0x20), (0x85, 0x85), (0xA0, 0xA0), (0x1680, 0x1680),
    (0x2000, 0x200A), (0x2028, 0x2029), (0x202F, 0x202F), (0x205F, 0x205F),
    (0x3000, 0x3000)]

def isBlank (c : Char) : Bool :=
  blankRanges.any fun range => range.1 ≤ c.toNat && c.toNat ≤ range.2

def trimWhere (p : Char → Bool) (t : Text) : Text :=
  ((t.dropWhile p).reverse.dropWhile p).reverse

def trim (t : Text) : Text :=
  trimWhere isBlank t

def isBlankOnly (t : Text) : Bool :=
  t.all isBlank

/-- The maximal runs of characters that are not blank, in order. -/
def words (t : Text) : List Text :=
  (t.splitOnP isBlank).filter fun word => !word.isEmpty

/-- Turns every run of blanks into one space and drops those at the ends. -/
def collapse (t : Text) : Text :=
  [' '].intercalate (words t)

/-- Lexicographic order by code point; a proper beginning comes first. -/
def order : Text → Text → Ordering
  | [], [] => .eq
  | [], _ :: _ => .lt
  | _ :: _, [] => .gt
  | c :: s, d :: t =>
      if c.toNat < d.toNat then .lt
      else if d.toNat < c.toNat then .gt
      else order s t

end Text

end Relata
