import Relata.Session

/-!
# Command line

Runs a session on the terminal. Table files are in the directory that the variable
`RELATA_DATA_DIR` names, or else in the working directory.
-/

namespace Relata

namespace CommandLine

def answer : FileRequest α → IO α
  | .done result => return result
  | .read path next => do
      let content ←
        try
          some <$> IO.FS.readBinFile (String.ofList path)
        catch _ =>
          pure none
      return next (content.map ByteArray.toList)
  | .write path content next => do
      let written ←
        try
          IO.FS.writeBinFile (String.ofList path) content.toByteArray
          pure true
        catch _ =>
          pure false
      return next written

/-- Reads the bytes of a line, with its line feed; none at all at the end of the input. -/
partial def readLine (input : IO.FS.Stream) (reversed : Bytes) : IO Bytes := do
  let chunk ← input.read 1
  match chunk.toList with
  | [] => return reversed.reverse
  | byte :: _ =>
      if byte = Session.lineFeed then return (byte :: reversed).reverse
      else readLine input (byte :: reversed)

/-- Reads and answers lines until the session ends, and returns its exit code. -/
partial def serve (input output : IO.FS.Stream) (db : Database) : IO Nat := do
  output.putStr (String.ofList Session.prompt)
  output.flush
  let line ← readLine input []
  if line = [] then return 0
  match Session.step db line with
  | .stop exitCode => return exitCode
  | .next request => do
      let (shown, next) ← answer request
      output.putStr (String.ofList shown)
      serve input output next

def settings : IO FileSettings := do
  match ← IO.getEnv "RELATA_DATA_DIR" with
  | some directory => return { FileSettings.default with directory := directory.toList }
  | none => return FileSettings.default

end CommandLine

end Relata

def main : IO UInt32 := do
  let input ← IO.getStdin
  let output ← IO.getStdout
  let settings ← Relata.CommandLine.settings
  let exitCode ← Relata.CommandLine.serve input output (Relata.Database.empty settings)
  return exitCode.toUInt32
