import AsmLens.Json.Decode
import AsmLens.Server.Message

/-!
# Requests

A message is decoded in full before anything is done about it: what comes out is one of the things that can be asked of
a session, or the reason why the message is refused.
-/

namespace AsmLens.Server

/-- What can be asked of a session. -/
inductive Request
  /-- A new workspace, by identifier and by path, perhaps with the setting that names the table. -/
  | start (rootUri rootPath : Bytes) (setting : Option Bytes)
  | started
  | open (uri language : Bytes) (version : Int) (text : Bytes)
  | close (uri : Bytes)
  /-- New texts of a document, the last of which counts. -/
  | change (uri : Bytes) (version : Int) (texts : List Bytes)
  | diagnose (uri : Bytes)
  | willSave (uri : Bytes)
  | hover (uri : Bytes) (position : Position)
  | complete
  /-- The setting that names the table, if the client sent it. -/
  | configure (setting : Option Bytes)
  | selectTable (path : Bytes)
  | reloadTable
  | resetTable
  | shutdown
  | exit
deriving DecidableEq

namespace Request

open Json (Reader)

/-! ## Parameters -/

/-- The parameters of an opened document. -/
structure OpenParams where
  uri : Bytes
  language : Bytes
  version : Int
  text : Bytes

def OpenParams.read : Reader OpenParams :=
  .object [("textDocument", .object [
    ("uri", .part OpenParams.uri (fun p v => { p with uri := v }) .text),
    ("languageId", .part OpenParams.language (fun p v => { p with language := v }) .text),
    ("version", .part OpenParams.version (fun p v => { p with version := v }) .integer),
    ("text", .part OpenParams.text (fun p v => { p with text := v }) .text)])]

/-- The parameters of a changed document. -/
structure ChangeParams where
  uri : Bytes
  version : Int
  texts : Json.Row Bytes

def ChangeParams.read : Reader ChangeParams :=
  .object [
    ("textDocument", .object [
      ("uri", .part ChangeParams.uri (fun p v => { p with uri := v }) .text),
      ("version", .part ChangeParams.version (fun p v => { p with version := v }) .integer)]),
    ("contentChanges",
      .part ChangeParams.texts (fun p v => { p with texts := v }) (.row [] (.object [("text", .text)])))]

/-- The document that is meant. -/
def documentUri : Reader Bytes := .object [("uri", .text)]

def readUri : Reader Bytes := .object [("textDocument", documentUri)]

def readSave : Reader Bytes := .object [("textDocument", documentUri), ("reason", .unused 0 .integer)]

/-- A place in a document. -/
structure PointParams where
  uri : Bytes
  line : Int
  character : Int

def PointParams.read : Reader PointParams :=
  .object [
    ("textDocument", .part PointParams.uri (fun p v => { p with uri := v }) documentUri),
    ("position", .object [
      ("line", .part PointParams.line (fun p v => { p with line := v }) .integer),
      ("character", .part PointParams.character (fun p v => { p with character := v }) .integer)])]

/-- The settings of the client, if there are any. -/
def readSettings : Reader (Option Bytes) := .optional [] (.object [("isaFilePath", .text)])

def readConfiguration : Reader (Option Bytes) := .object [("settings", .object [("cs2200asm", readSettings)])]

/-- The parameters of a new workspace. -/
structure StartParams where
  rootUri : Bytes
  rootPath : Bytes
  setting : Option Bytes

def StartParams.read : Reader StartParams :=
  .object [
    ("processId", .unused 0 .integer),
    ("rootUri", .part StartParams.rootUri (fun p v => { p with rootUri := v }) .text),
    ("rootPath", .part StartParams.rootPath (fun p v => { p with rootPath := v }) .text),
    ("initializationOptions", .part StartParams.setting (fun p v => { p with setting := v }) readSettings)]

/-- A command with its arguments. -/
structure CommandParams where
  command : Bytes
  arguments : Json.Row Json

def CommandParams.read : Reader CommandParams :=
  .object [
    ("command", .part CommandParams.command (fun p v => { p with command := v }) .text),
    ("arguments", .part CommandParams.arguments (fun p v => { p with arguments := v }) (.row .null .raw))]

/-! ## Commands -/

def selectCommand : Bytes := utf8 "cs2200asm.selectIsaFile"

def reloadCommand : Bytes := utf8 "cs2200asm.reloadIsa"

def resetCommand : Bytes := utf8 "cs2200asm.resetIsa"

/-- The commands that can be executed. -/
def commands : List Bytes := [selectCommand, reloadCommand, resetCommand]

/-- What a command asks for. -/
def ofCommand (p : CommandParams) : Except Refusal Request :=
  if p.command == selectCommand then
    match p.arguments.items with
    | [] => .error .noSelection
    | path :: _ =>
      match Reader.text [] path with
      | some path => .ok (.selectTable path)
      | none => .error .undecodable
  else if p.command == reloadCommand then .ok .reloadTable
  else if p.command == resetCommand then .ok .resetTable
  else .error (.unknownCommand p.command)

/-! ## Methods -/

/-- Reads the parameters, which must be there, starting from `fresh`. -/
def decode {α : Type} (fresh : α) (read : Reader α) (params : Option Json) : Except Refusal α :=
  match params with
  | none => .error .missingParams
  | some json =>
    match read fresh json with
    | none => .error .undecodable
    | some p => .ok p

/-- The methods that a session understands, each with the reading of its parameters. -/
def methods : List (Bytes × (Option Json → Except Refusal Request)) := [
  (utf8 "initialize", fun params =>
    (decode ⟨[], [], none⟩ StartParams.read params).map fun p => .start p.rootUri p.rootPath p.setting),
  (utf8 "initialized", fun _ => .ok .started),
  (utf8 "textDocument/didOpen", fun params =>
    (decode ⟨[], [], 0, []⟩ OpenParams.read params).map fun p => .open p.uri p.language p.version p.text),
  (utf8 "textDocument/didClose", fun params => (decode [] readUri params).map .close),
  (utf8 "textDocument/didChange", fun params =>
    (decode ⟨[], 0, .empty⟩ ChangeParams.read params).map fun p => .change p.uri p.version p.texts.items),
  (utf8 "textDocument/diagnostic", fun params => (decode [] readUri params).map .diagnose),
  (utf8 "textDocument/willSaveWaitUntil", fun params => (decode [] readSave params).map .willSave),
  (utf8 "textDocument/hover", fun params =>
    (decode ⟨[], 0, 0⟩ PointParams.read params).map fun p => .hover p.uri ⟨p.line, p.character⟩),
  (utf8 "textDocument/completion", fun params =>
    (decode ⟨[], 0, 0⟩ PointParams.read params).map fun _ => .complete),
  (utf8 "workspace/didChangeConfiguration", fun params => (decode none readConfiguration params).map .configure),
  (utf8 "workspace/executeCommand", fun params => (decode ⟨[], .empty⟩ CommandParams.read params).bind ofCommand),
  (utf8 "shutdown", fun _ => .ok .shutdown),
  (utf8 "exit", fun _ => .ok .exit)]

/-- What a message asks for. -/
def ofMessage (m : Message) : Except Refusal Request :=
  match methods.lookup m.method with
  | none => .error (.unsupported m.method)
  | some decode => decode m.params

end Request

end AsmLens.Server
