import Relata.Number.Decimal
import Relata.Text.Cut

/-!
# Tokens

A query text falls into words, quoted texts, commas and parentheses, with blanks between
them. Every token knows the bytes that it covers. A quote that is never closed ends the
scan.
-/

namespace Relata

inductive TokenKind where
  /-- A run of characters up to a blank, a comma, a parenthesis or a quote. -/
  | word
  /-- Two quotes and what stands between them. -/
  | quoted
  | comma
  | leftParen
  | rightParen
  deriving DecidableEq

/-- A token with its characters and the byte offsets at which it starts and stops. -/
structure Token where
  kind : TokenKind
  text : Text
  start : Nat
  stop : Nat
  deriving DecidableEq

structure Scan where
  tokens : List Token
  /-- The byte offset of a quote that is never closed. -/
  unclosed : Option Nat
  position : Nat
  deriving DecidableEq

namespace Scan

/-- Where the scan stands: what it has read of a token is kept in reverse. -/
inductive State where
  | between
  | inWord (start : Nat) (read : Text)
  | inQuote (start : Nat) (read : Text)

def single? : Char → Option TokenKind
  | ',' => some .comma
  | '(' => some .leftParen
  | ')' => some .rightParen
  | _ => none

def begin (position : Nat) (c : Char) : List Token × State :=
  match single? c with
  | some kind => ([⟨kind, [c], position, position + c.utf8Size⟩], .between)
  | none =>
      if Text.isBlank c then ([], .between)
      else if c = '\'' then ([], .inQuote position [c])
      else ([], .inWord position [c])

def endsWord (c : Char) : Bool :=
  Text.isBlank c || (single? c).isSome || c = '\''

/-- Whether a text is read as one word wherever blanks or punctuation enclose it. -/
def isWord (t : Text) : Bool :=
  !t.isEmpty && t.all fun c => !endsWord c

/-- Reads a character: the tokens that are complete with it, and the new state. -/
def step (position : Nat) (c : Char) : State → List Token × State
  | .between => begin position c
  | .inWord start read =>
      if endsWord c then
        let (tokens, state) := begin position c
        (⟨.word, read.reverse, start, position⟩ :: tokens, state)
      else
        ([], .inWord start (c :: read))
  | .inQuote start read =>
      if c = '\'' then
        ([⟨.quoted, (c :: read).reverse, start, position + c.utf8Size⟩], .between)
      else
        ([], .inQuote start (c :: read))

def finish (position : Nat) : State → Scan
  | .between => ⟨[], none, position⟩
  | .inWord start read => ⟨[⟨.word, read.reverse, start, position⟩], none, position⟩
  | .inQuote start _ => ⟨[], some start, position⟩

def run (position : Nat) (state : State) : Text → Scan
  | [] => finish position state
  | c :: rest =>
      let (tokens, next) := step position c state
      let scan := run (position + c.utf8Size) next rest
      { scan with tokens := tokens ++ scan.tokens }

def ofText (t : Text) : Scan :=
  run 0 .between t

def unclosedMessage (position : Nat) : Text :=
  "unterminated string starting at position ".toList ++ Decimal.numeral position

end Scan

end Relata
