import Relata.Query.Clause
import Relata.Query.Cursor

/-!
# The grammar of queries

A query is read in two stages. First its command is told from the first one or two words,
which one space must follow; a text that begins no command is malformed as a whole. Then
what follows that space is read in the form of the command, and is malformed in that
command if it does not have it. Errors within clauses are found in the order of the text.
-/

namespace Relata

/-- A query text with its command told: what is still to be read, and how it fails. -/
structure Reading where
  /-- The whole text, into which the offsets of tokens point. -/
  source : Text
  tokens : List Token
  /-- Whether a quote is left open after the last token. -/
  unclosed : Bool
  command : Command
  /-- The text after the command's words. -/
  remainder : Text

namespace Reading

def failure (r : Reading) : Error :=
  .malformed (some r.command) r.remainder

/-- The text between two offsets of the query. -/
def cut (r : Reading) (start stop : Nat) : Except Error Text :=
  match r.source.cut? start stop with
  | some t => .ok t
  | none => .error .outOfRange

/-- The text from an offset to the end of the query, which must close its quotes. -/
def cutToEnd (r : Reading) (start : Nat) : Except Error Text :=
  if r.unclosed then .error r.failure else r.cut start r.source.byteSize

def finish (r : Reading) (rest : List Token) : Except Error Unit :=
  if rest.isEmpty && !r.unclosed then .ok () else .error r.failure

end Reading

/-! ## Telling the command -/

namespace Command

/-- The command of the first tokens, the offset at which its words stop, and the rest. -/
def ofTokens? : List Token → Option (Command × Nat × List Token)
  | ⟨.word, first, _, stop⟩ :: rest =>
      match (Keyword.ofWord? first).bind Keyword.command? with
      | none => none
      | some command =>
          match command.object?, rest with
          | none, _ => some (command, stop, rest)
          | some object, ⟨.word, second, _, stop⟩ :: rest =>
              if Keyword.ofWord? second = some object then some (command, stop, rest) else none
          | some _, _ => none
  | _ => none

end Command

namespace Reading

def ofScan (source : Text) (scan : Scan) : Except Error Reading :=
  match Command.ofTokens? scan.tokens with
  | none => .error (.malformed none source)
  | some (command, stop, rest) =>
      match source.dropBytes? stop with
      | none => .error .outOfRange
      | some (' ' :: remainder) => .ok ⟨source, rest, scan.unclosed.isSome, command, remainder⟩
      | some _ => .error (.malformed none source)

def ofText (source : Text) : Except Error Reading := do
  let scan ← Scan.read source
  ofScan source scan

/-! ## Lists of tokens -/

def isKeyword (keyword : Keyword) (token : Token) : Bool :=
  token.kind = .word && Keyword.ofWord? token.text = some keyword

/--
The spans of column definitions up to the closing parenthesis, and the tokens after it. A
span runs from the first to the last of the words between two commas; without a word there
is none.
-/
def definitionSpans : Option (Nat × Nat) → List Token →
    Option (List (Option (Nat × Nat)) × List Token)
  | _, [] => none
  | span, ⟨.word, _, start, stop⟩ :: rest =>
      definitionSpans (some ((span.map Prod.fst).getD start, stop)) rest
  | span, ⟨.comma, _, _, _⟩ :: rest =>
      (definitionSpans none rest).map fun (spans, rest) => (span :: spans, rest)
  | span, ⟨.rightParen, _, _, _⟩ :: rest => some ([span], rest)
  | _, _ :: _ => none

/-- The first `from` among the tokens, and the tokens after it. -/
def splitAtFrom? : List Token → Option (Token × List Token)
  | [] => none
  | token :: rest =>
      if isKeyword .fromWord token then some (token, rest) else splitAtFrom? rest

/-- Table names with commas between them, and the tokens after the last name. -/
def tableNames? : List Token → Option (List Text × List Token)
  | ⟨.word, name, _, _⟩ :: ⟨.comma, _, _, _⟩ :: rest =>
      (tableNames? rest).map fun (names, rest) => (name :: names, rest)
  | ⟨.word, name, _, _⟩ :: rest => some ([name], rest)
  | _ => none

/-! ## The forms of the commands -/

def name (r : Reading) : Except Error Text :=
  match r.tokens with
  | ⟨.word, name, _, _⟩ :: rest => do
      r.finish rest
      return name
  | _ => .error r.failure

def columns (r : Reading) (tokens : List Token) : Except Error (List Column) :=
  match definitionSpans none tokens with
  | none => .error r.failure
  | some (spans, rest) => do
      let definitions ← spans.mapM fun span =>
        match span with
        | some (start, stop) => r.cut start stop
        | none => .ok []
      let columns ← Column.readAll definitions
      r.finish rest
      return columns

/-- The conditions after the tables of a select, if there are any. -/
def conditions (r : Reading) : List Token → Except Error (List Condition)
  | [] => do
      r.finish []
      return []
  | token :: rest =>
      if isKeyword .whereWord token then
        match rest with
        | [] => .error r.failure
        | first :: _ => do
            let clause ← r.cutToEnd first.start
            Condition.readAll clause
      else
        .error r.failure

def select (r : Reading) (tokens : List Token) : Except Error Select :=
  match tokens.head?, splitAtFrom? tokens with
  | some first, some (fromToken, rest) => do
      let text ← r.cut first.start fromToken.start
      if text.trim = [] then .error r.failure
      let projection ← Projection.read r.failure text.trim
      match tableNames? rest with
      | none => .error r.failure
      | some (tables, rest) => do
          let conditions ← r.conditions rest
          return ⟨projection, tables, conditions⟩
  | _, _ => .error r.failure

/-- What follows `create table`: column definitions, or a select to take the rows from. -/
def create (r : Reading) : Except Error Statement :=
  match r.tokens with
  | ⟨.word, name, _, _⟩ :: ⟨.leftParen, _, _, _⟩ :: rest => do
      let columns ← r.columns rest
      return .createTable name columns
  | ⟨.word, name, _, _⟩ :: second :: third :: rest =>
      if isKeyword .asWord second && isKeyword .select third then do
        let select ← r.select rest
        return .createFrom name select
      else
        .error r.failure
  | _ => .error r.failure

/-- What follows `insert into`: a table and the literals of a row. -/
def insert (r : Reading) : Except Error Statement :=
  match r.tokens with
  | ⟨.word, table, _, _⟩ :: second :: first :: _ =>
      if isKeyword .values second then do
        let text ← r.cutToEnd first.start
        return .insert table text.fields
      else
        .error r.failure
  | _ => .error r.failure

def statement (r : Reading) : Except Error Statement :=
  match r.command with
  | .create => r.create
  | .insert => r.insert
  | .select => .select <$> r.select r.tokens
  | .load => .load <$> r.name
  | .store => .store <$> r.name
  | .drop => .drop <$> r.name
  | .print => .print <$> r.name

end Reading

namespace Statement

def readCollapsed (source : Text) : Except Error Statement := do
  let reading ← Reading.ofText source
  reading.statement

def read (query : Text) : Except Error Statement :=
  readCollapsed query.collapse

end Statement

end Relata
