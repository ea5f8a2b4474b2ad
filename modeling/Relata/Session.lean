import Relata.World

/-!
# Sessions

A session reads queries line by line, with a prompt before each line, and shows what they
answer. A line is read with the line feed after it. The session ends at the end of the input,
at the line `exit`, or at a line that is not UTF-8, which alone ends it with a failure.
-/

namespace Relata

namespace Session

def prompt : Text :=
  "> ".toList

def exitWord : Text :=
  "exit".toList

def isLineEnd (c : Char) : Bool :=
  c = '\n' || c = '\r'

def stripLineEnd (line : Text) : Text :=
  (line.reverse.dropWhile isLineEnd).reverse

/-- What comes of a line: the end of the session, or a request and then what to show. -/
inductive Step where
  | stop (exitCode : Nat)
  | next (request : FileRequest (Text × Database))

/-- The text to show for an answer: nothing, or the answer on a line of its own. -/
def shown (answer : Text) : Text :=
  if answer = [] then [] else answer ++ ['\n']

def step (db : Database) (line : Bytes) : Step :=
  match Text.decode line with
  | none => .stop 1
  | some t =>
      let query := stripLineEnd t
      if query = exitWord then .stop 0
      else if query.isBlankOnly then .next (.done ([], db))
      else .next ((db.transact query).map fun (answer, next) => (shown answer, next))

def lineFeed : UInt8 := 0x0A

/-- The bytes up to and with the first line feed, or else all of them, and the bytes after. -/
def nextLine (input : Bytes) : Bytes × Bytes :=
  let rest := input.dropWhile (· != lineFeed)
  (input.takeWhile (· != lineFeed) ++ rest.take 1, rest.drop 1)

theorem length_nextLine {input : Bytes} (h : input ≠ []) :
    (nextLine input).2.length < input.length := by
  have hpos : 0 < input.length := List.length_pos_iff.2 h
  have hrest := (List.dropWhile_sublist (· != lineFeed) (l := input)).length_le
  rw [nextLine, List.length_drop]
  omega

/-- All that a session shows, its exit code, and the state that it leaves. -/
structure Transcript where
  output : Text
  exitCode : Nat
  final : World

/-- Runs a session on its input: shows a prompt, reads a line, answers it, and so on. -/
def run (w : World) (input : Bytes) : Transcript :=
  if _ : input = [] then ⟨prompt, 0, w⟩
  else
    match step w.database (nextLine input).1 with
    | .stop exitCode => ⟨prompt, exitCode, w⟩
    | .next request =>
        let (answer, next) := w.answer request
        let transcript := run next (nextLine input).2
        { transcript with output := prompt ++ answer ++ transcript.output }
termination_by input.length
decreasing_by exact length_nextLine ‹_›

end Session

end Relata
