import AsmLens.Command.Run
import AsmLens.Json.Basic
import AsmLens.Json.Parser
import AsmLens.Server.Session
import AsmLens.Server.Wire

/-!
# The program

`check` and `catalog` read their files, run and end. `languageServer` holds one session over standard input and output:
every message is preceded by a header with its length.
-/

namespace AsmLens.Main

/-- The text of a path or a message, as the surrounding system wants it. -/
def ofBytes (s : Bytes) : String := String.ofList (Utf8.chars s)

/-- The octets of a text, packed. -/
def packed (s : Bytes) : ByteArray := ⟨s.toArray⟩

/-- Why the system could not read a file. -/
def reasonOf : IO.Error → Files.Reason
  | .noFileOrDirectory .. => .noEntry
  | .inappropriateType _ 21 _ => .isDirectory
  | .inappropriateType .. => .notDirectory
  | .invalidArgument .. => .nameTooLong
  | .permissionDenied _ _ details => .other (utf8 details)
  | e => .other (utf8 (toString e))

/-- Reads one file. -/
def readFile (path : Bytes) : IO (Except Files.Reason Bytes) := do
  if path.isEmpty then return .error .noEntry
  if path.contains 0 then return .error .invalidArgument
  try
    return .ok (← IO.FS.readBinFile (ofBytes path)).data.toList
  catch e =>
    return .error (reasonOf e)

/-- A reader that knows the files that were read before. -/
def readerOf (files : List (Bytes × Except Files.Reason Bytes)) : Files.Reader := fun path =>
  (files.lookup path).getD (.error .noEntry)

def readAll (paths : List Bytes) : IO Files.Reader := do
  return readerOf (← paths.mapM fun path => return (path, ← readFile path))

def write (out : IO.FS.Stream) (s : Bytes) : IO Unit := do
  out.write (packed s)
  out.flush

/-- Writes what a command leaves behind and gives its exit status. -/
def finish (o : Command.Outcome) : IO UInt32 := do
  write (← IO.getStdout) o.output
  write (← IO.getStderr) o.errors
  return UInt32.ofNat o.status

/-! ## The language server -/

/-- The length in a header line, if it tells one. -/
def contentLength? (line : Bytes) : Option Nat :=
  let line := line.filter (!isSpace ·)
  if (Bytes.before 58 line).map lowercase == utf8 "content-length" then
    (Numeral.decimalMagnitude ((Bytes.after? 58 line).getD [])).toOption
  else none

/-- Reads a header; nothing at the end of input. -/
partial def readHeader (input : IO.FS.Stream) (length : Option Nat) : IO (Option Nat) := do
  let line ← input.getLine
  if line.isEmpty then return none
  if (utf8 line).all isSpace then return some (length.getD 0)
  readHeader input ((contentLength? (utf8 line)).or length)

/-- Reads a given number of octets. -/
partial def readExactly (input : IO.FS.Stream) (count : Nat) (got : Bytes) : IO Bytes := do
  if count = 0 then return got
  let chunk ← input.read (USize.ofNat count)
  if chunk.isEmpty then return got
  readExactly input (count - chunk.size) (got ++ chunk.data.toList)

/-- A message with its header. -/
def framed (m : Server.Outgoing) : Bytes :=
  let body :=
    match m.toJson with
    | .object members => Json.render (.object ((utf8 "jsonrpc", .string (utf8 "2.0")) :: members))
    | other => other.render
  utf8 "Content-Length: " ++ Bytes.decimal body.length ++ utf8 "\r\n\r\n" ++ body

/-- Carries out an event; whether the conversation goes on. -/
def perform (debug : Bool) : Server.Event → IO Bool
  | .send m => do
    write (← IO.getStdout) (framed m)
    return true
  | .log line => do
    if debug then write (← IO.getStderr) (line ++ utf8 "\n")
    return true
  | .hangUp => return false

/-- Takes messages until the client hangs up. -/
partial def serve (debug : Bool) (input : IO.FS.Stream) (s : Server.Session) : IO Unit := do
  match ← readHeader input none with
  | none => return
  | some length =>
    let arrival := ((Json.parse? (← readExactly input length [])).map Server.Arrival.ofJson).getD .garbled
    let (s, events) := s.take (← readAll (s.fileFor? arrival).toList) arrival
    if (← events.mapM (perform debug)).all id then serve debug input s

/-- Runs the language server with its arguments. -/
def serverMain (arguments : List Bytes) : IO UInt32 := do
  match Command.parseFlags Command.Flag.shared arguments with
  | .error message => finish (.failed [] message)
  | .ok (_, extra :: _) =>
    finish (.failed [] (utf8 "unknown command " ++ Quoted.text extra ++ utf8 " for \"cs2200asm languageServer\""))
  | .ok (options, []) =>
    serve options.debug (← IO.getStdin) .fresh
    return 0

end AsmLens.Main

def main (arguments : List String) : IO UInt32 := do
  match arguments.map AsmLens.utf8 with
  | [] => AsmLens.Main.finish (.failed [] (AsmLens.utf8 "no command given"))
  | command :: rest =>
    match AsmLens.Command.Name.ofBytes? command with
    | some name =>
      AsmLens.Main.finish (AsmLens.Command.run (← AsmLens.Main.readAll (AsmLens.Command.filesOf name rest)) name rest)
    | none =>
      if command == AsmLens.utf8 "languageServer" then AsmLens.Main.serverMain rest
      else
        AsmLens.Main.finish (.failed [] (AsmLens.utf8 "unknown command " ++ AsmLens.Quoted.text command ++
          AsmLens.utf8 " for \"cs2200asm\""))
