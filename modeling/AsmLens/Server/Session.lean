import AsmLens.Isa.Load
import AsmLens.Layout
import AsmLens.Path
import AsmLens.Server.Request
import AsmLens.Uri

/-!
# Sessions

One client talks to one session. It keeps the open documents, the table they are checked against, the workspace and the
setting that names the table. Every change of a text or of the table checks the documents concerned again and publishes
what was found. A message that is refused changes nothing.
-/

namespace AsmLens.Server

/-- The language of the documents that are checked. -/
def assemblyLanguage : Bytes := utf8 "cs2200asm"

/-- An open document. -/
structure Document where
  language : Bytes
  version : Int
  text : Bytes
  /-- What the last check gave. -/
  analysis : Option Analysis

namespace Document

def isAssembly (d : Document) : Bool := d.language == assemblyLanguage

/-- The document checked against a table; one in another language stays as it is. -/
def check (isa : Isa) (d : Document) : Document :=
  if d.isAssembly then { d with analysis := some (Analysis.ofText isa d.text) } else d

/-- What a check against a table finds; nothing in another language. -/
def diagnostics (isa : Isa) (d : Document) : List Diagnostic :=
  if d.isAssembly then (Analysis.ofText isa d.text).diagnostics else []

end Document

/-- The state of a conversation. -/
structure Session where
  documents : Dictionary Document
  active : Active
  root : Bytes
  /-- The setting that names the table, as the client sent it. -/
  setting : Bytes
  /-- How many requests the server made. -/
  registrations : Nat

/-- What the server does because of a message. -/
inductive Event
  | send (message : Outgoing)
  | log (line : Bytes)
  /-- The end of the conversation. -/
  | hangUp

namespace Event

/-- An entry of the log. A line feed at its end belongs to the log and not to the entry. -/
def note (line : Bytes) : Event :=
  log (utf8 "CS2200 Language Server: " ++ if line.getLast? = some 10 then line.dropLast else line)

def message? : Event → Option Outgoing
  | send message => some message
  | _ => none

def line? : Event → Option Bytes
  | log line => some line
  | _ => none

end Event

namespace Session

open Event (note)

/-- A new conversation: no documents, the built-in table. -/
def fresh : Session := ⟨.empty, .builtIn, [], [], 0⟩

/-! ## Diagnostics -/

/-- What a check of a document finds; nothing if it is not open. -/
def diagnostics (s : Session) (uri : Bytes) : List Diagnostic :=
  match s.documents.find? uri with
  | some d => d.diagnostics s.active.isa
  | none => []

/-- The session with one document checked again. -/
def checkDocument (s : Session) (uri : Bytes) : Session :=
  match s.documents.find? uri with
  | some d => { s with documents := s.documents.insert uri (d.check s.active.isa) }
  | none => s

/-- Checks an open document again and publishes what was found. -/
def publish (s : Session) (uri : Bytes) (d : Document) : Session × List Event :=
  (s.checkDocument uri, [.send (.publish uri d.version (s.diagnostics uri))])

/-- Checks every open document again and publishes what was found, in order of identifier. Requests take this as a
parameter: the order may be another one each time. -/
def publishAll (s : Session) : Session × List Event :=
  ({ s with documents := s.documents.map (·.check s.active.isa) },
    (s.documents.entries.filter (·.2.isAssembly)).map fun (uri, d) =>
      .send (.publish uri d.version (d.diagnostics s.active.isa)))

/-! ## Tables -/

/-- Makes the table that the setting names the active one. -/
def reload (read : Files.Reader) (s : Session) : Session × List Event :=
  let path := Path.resolve s.root s.setting
  if path.isEmpty then ({ s with active := .builtIn }, [note (utf8 "using the default instruction table")])
  else
    match Active.load read path with
    | (active, some e) =>
      ({ s with active }, [.send (.notify .error (utf8 "Failed to load ISA file: " ++ e.summary))])
    | (active, none) =>
      ({ s with active }, [.send (.notify .info (utf8 "Loaded ISA specs from: " ++ s.setting))])

/-- The workspace that the client names, and what is noted about it. -/
def rootOf (rootUri rootPath : Bytes) : Bytes × List Event :=
  if rootUri.isEmpty then (rootPath, [])
  else
    match Uri.filePath? rootUri with
    | some path => (path, [])
    | none => (rootPath, [note (utf8 "ignoring root uri " ++ rootUri)])

/-! ## Requests -/

/-- The edits that lay out a text: none if it is laid out, else one that replaces it as a whole. -/
def layoutEdits (text : Bytes) : List TextEdit :=
  let formatted := Layout.format text
  if formatted = text then []
  else
    let lines := Source.lines text
    [⟨0, 0, lines.length - 1, (lines.getLast?.getD []).length, formatted⟩]

/-- The description of what stands under a position of an open document. -/
def hoverText? (s : Session) (uri : Bytes) (p : Position) : Option Bytes := do
  let d ← s.documents.find? uri
  let analysis ← d.analysis
  let hover ← analysis.hover? p
  return hover.markdown

/-- Carries out a request. Answers go to `id`. After a change of the table, `publishAll` takes care of all documents. -/
def handleWith (publishAll : Session → Session × List Event) (read : Files.Reader) (s : Session) (id : Id) :
    Request → Session × List Event
  | .start rootUri rootPath setting =>
    let (root, notes) := rootOf rootUri rootPath
    let (s, events) := reload read { s with root, setting := setting.getD s.setting }
    ({ s with registrations := s.registrations + 1 },
      notes ++ [.send (.result id .capabilities)] ++ events ++
        [note (utf8 "registering remaining capabilities"), note (utf8 "registered remaining capabilities"),
          .send (.register s.registrations)])
  | .started => (s, [])
  | .open uri language version text =>
    let d : Document := ⟨language, version, text, none⟩
    let s := { s with documents := s.documents.insert uri d }
    if d.isAssembly then s.publish uri d
    else (s, [note (utf8 "ignoring " ++ language ++ utf8 " document " ++ uri)])
  | .close uri => ({ s with documents := s.documents.erase uri }, [.send (.publish uri 0 [])])
  | .change uri version texts =>
    match s.documents.find? uri, texts.getLast? with
    | some d, some text =>
      let d := { d with text, version }
      let s := { s with documents := s.documents.insert uri d }
      if d.isAssembly then s.publish uri d else (s, [])
    | _, _ => (s, [])
  | .diagnose uri => (s.checkDocument uri, [.send (.result id (.report (s.diagnostics uri)))])
  | .willSave uri =>
    match s.documents.find? uri with
    | some d =>
      if d.isAssembly then
        (s, [.send (.result id (.edits (layoutEdits d.text))), note (utf8 "reformatted document " ++ uri)])
      else (s, [.send (.result id (.edits []))])
    | none => (s, [.send (.result id (.edits []))])
  | .hover uri position =>
    match s.hoverText? uri position with
    | some markdown => (s, [.send (.result id (.hover markdown))])
    | none => (s, [.send (.result id .nothing)])
  | .complete => (s, [.send (.result id (.completions (Catalog.ofIsa s.active.isa)))])
  | .configure setting =>
    match setting with
    | none => (s, [])
    | some setting =>
      if setting = s.setting then (s, [])
      else
        let (s, notices) := reload read { s with setting }
        let (s, published) := publishAll s
        (s, notices ++ published)
  | .selectTable path =>
    let (s, notices) := reload read { s with setting := Path.relativeTo s.root path }
    let (s, published) := publishAll s
    (s, notices ++ published ++ [.send (.result id (.setting s.setting))])
  | .reloadTable =>
    let (s, notices) := reload read s
    let (s, published) := publishAll s
    (s, notices ++ published ++ [.send (.result id (.setting s.setting))])
  | .resetTable =>
    let s := { s with setting := [], active := .builtIn }
    let (s, published) := publishAll s
    (s, .send (.notify .info (utf8 "Using the default CS2200 instruction table")) :: published ++
      [.send (.result id (.setting s.setting))])
  | .shutdown => (s, [.send (.result id .nothing)])
  | .exit => (s, [.hangUp])

def handle (read : Files.Reader) (s : Session) (id : Id) (request : Request) : Session × List Event :=
  s.handleWith publishAll read id request

/-- The file that a request makes the session load. -/
def fileOf? (s : Session) : Request → Option Bytes
  | .start rootUri rootPath setting => some (Path.resolve (rootOf rootUri rootPath).1 (setting.getD s.setting))
  | .configure setting => setting.map (Path.resolve s.root)
  | .selectTable path => some (Path.resolve s.root (Path.relativeTo s.root path))
  | .reloadTable => some (Path.resolve s.root s.setting)
  | _ => none

/-! ## Messages -/

/-- What a refusal causes: a note, unless the method is unknown, and an answer to a request. -/
def refuse (m : Message) (refusal : Refusal) : List Event :=
  (match refusal with
    | .unsupported _ => []
    | _ => [note (utf8 "invalid parameters for " ++ m.method ++ utf8 ": " ++ refusal.reason)]) ++
  match m.id with
  | some id => [.send (.refusal id refusal)]
  | none => []

/-- Takes a message. Answers to a notification go to the number 0. -/
def receiveWith (publishAll : Session → Session × List Event) (read : Files.Reader) (s : Session) (m : Message) :
    Session × List Event :=
  let (s, events) :=
    match Request.ofMessage m with
    | .error refusal => (s, refuse m refusal)
    | .ok request => s.handleWith publishAll read (m.id.getD (.number 0)) request
  (s, note (utf8 "received request: " ++ m.method) :: events)

def receive (read : Files.Reader) (s : Session) (m : Message) : Session × List Event :=
  s.receiveWith publishAll read m

/-- Takes what comes from the client. The conversation ends with what cannot be understood. -/
def takeWith (publishAll : Session → Session × List Event) (read : Files.Reader) (s : Session) :
    Arrival → Session × List Event
  | .message m => s.receiveWith publishAll read m
  | .answer => (s, [])
  | .garbled => (s, [.hangUp])

def take (read : Files.Reader) (s : Session) (a : Arrival) : Session × List Event :=
  s.takeWith publishAll read a

/-- The file that has to be read for what comes from the client. -/
def fileFor? (s : Session) : Arrival → Option Bytes
  | .message m => (Request.ofMessage m).toOption.bind s.fileOf?
  | _ => none

end Session

end AsmLens.Server
