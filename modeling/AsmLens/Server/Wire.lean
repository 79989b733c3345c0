import AsmLens.Json.Basic
import AsmLens.Server.Request

/-!
# Messages as JSON

The written form of messages, as the language server protocol has it.
-/

namespace AsmLens

open Json (ofMembers)

/-- A place, by line and column. -/
def Json.ofPlace (line column : Nat) : Json := ofMembers [("line", .ofNat line), ("character", .ofNat column)]

/-- A stretch from one place to another. -/
def Json.ofRange (startLine startColumn stopLine stopColumn : Nat) : Json :=
  ofMembers [("start", ofPlace startLine startColumn), ("end", ofPlace stopLine stopColumn)]

def Diagnostic.toJson (d : Diagnostic) : Json :=
  ofMembers [
    ("range", .ofRange d.line d.start d.line d.stop),
    ("message", .string d.message),
    ("source", .string Diagnostic.source),
    ("severity", .ofNat d.severity.code)]

namespace Server

def Id.toJson : Id → Json
  | number n => .ofNat n
  | text s => .string s

/-- The identity with a given number; the numbers below zero are those at the end of 64 bits. -/
def Id.ofInt (n : Int) : Id := number (n % Int.ofNat Numeral.magnitudeLimit).toNat

/-- The identity of a request: an integer of 64 bits or a text. -/
def Id.ofJson? : Json → Option Id
  | .number literal => (Numeral.readDecimal literal).toOption.map ofInt
  | .string s => some (text s)
  | _ => none

/-- Whether a message tells a result or an error. -/
def isAnswer (json : Json) : Bool :=
  (json.member? (utf8 "result")).isSome ||
    match json.member? (utf8 "error") with
    | none | some .null => false
    | some _ => true

/-- A message by its members: what names a method is no answer, and the other way round. -/
def Arrival.ofJson (json : Json) : Arrival :=
  match json.member? (utf8 "method"), isAnswer json with
  | some (.string method), false =>
    let params := (json.member? (utf8 "params")).map Json.sorted
    match json.member? (utf8 "id") with
    | none | some .null => .message ⟨method, none, params⟩
    | some id =>
      match Id.ofJson? id with
      | some id => .message ⟨method, some id, params⟩
      | none => .garbled
  | none, true | some .null, true => .answer
  | _, _ => .garbled

def TextEdit.toJson (e : TextEdit) : Json :=
  ofMembers [
    ("range", .ofRange e.startLine e.startColumn e.stopLine e.stopColumn),
    ("newText", .string e.newText)]

/-- An entry of a catalogue as a completion: a keyword whose text is a template. -/
def completion (e : Catalog.Entry) : Json :=
  ofMembers [
    ("label", .string e.mnemonic),
    ("kind", .ofNat 14),
    ("detail", .string e.detail),
    ("insertText", .string e.snippet),
    ("insertTextFormat", .ofNat 2)]

/-- What the server says it can do. -/
def capabilities : Json :=
  ofMembers [
    ("capabilities", ofMembers [
      ("textDocumentSync", .ofNat 1),
      ("diagnosticProvider", ofMembers [
        ("workDoneProgress", .bool false),
        ("interFileDependencies", .bool false),
        ("workspaceDiagnostics", .bool false)]),
      ("hoverProvider", .bool true),
      ("completionProvider", ofMembers [("resolveProvider", .bool false)]),
      ("executeCommandProvider", ofMembers [("commands", .array (Request.commands.map .string))])]),
    ("serverInfo", ofMembers [("name", .string (utf8 "cs2200asm"))])]

def Result.toJson : Result → Json
  | nothing => .null
  | capabilities => Server.capabilities
  | report ds => ofMembers [("kind", .string (utf8 "full")), ("items", .array (ds.map Diagnostic.toJson))]
  | edits es => .array (es.map TextEdit.toJson)
  | hover markdown =>
    ofMembers [("contents", ofMembers [("kind", .string (utf8 "markdown")), ("value", .string markdown)])]
  | completions entries => ofMembers [("isIncomplete", .bool false), ("items", .array (entries.map completion))]
  | setting path => .string path

def Notice.code : Notice → Nat
  | error => 1
  | info => 3

def Refusal.toJson (r : Refusal) : Json :=
  ofMembers [("code", .number (Bytes.signedDecimal r.code)), ("message", .string r.message)]

/-- The wish to be asked for edits before an assembly document is saved. -/
def registration : Json :=
  ofMembers [("registrations", .array [ofMembers [
    ("id", .string (utf8 "textDocumentSync.willSaveWaitUntil")),
    ("method", .string (utf8 "textDocument/willSaveWaitUntil")),
    ("registerOptions", ofMembers [("documentSelector", .array [ofMembers [
      ("language", .string (utf8 "cs2200asm")),
      ("scheme", .string (utf8 "file"))]])])]])]

def Outgoing.toJson : Outgoing → Json
  | result id r => ofMembers [("id", id.toJson), ("result", r.toJson)]
  | refusal id r => ofMembers [("id", id.toJson), ("error", r.toJson)]
  | publish uri version ds =>
    ofMembers [
      ("method", .string (utf8 "textDocument/publishDiagnostics")),
      ("params", ofMembers (
        [("uri", .string uri)] ++
        (if version = 0 then [] else [("version", .number (Bytes.signedDecimal version))]) ++
        [("diagnostics", .array (ds.map Diagnostic.toJson))]))]
  | notify notice text =>
    ofMembers [
      ("method", .string (utf8 "window/showMessage")),
      ("params", ofMembers [("type", .ofNat notice.code), ("message", .string text)])]
  | register number =>
    ofMembers [
      ("id", .ofNat number),
      ("method", .string (utf8 "client/registerCapability")),
      ("params", registration)]

end Server

end AsmLens
