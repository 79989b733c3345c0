import AsmLens.Check.Hover
import AsmLens.Json.Basic

/-!
# Messages

What a client sends and what the server sends back. A message with an identity is a request, one without is a
notification; an answer carries the identity of the request it answers.
-/

namespace AsmLens.Server

/-- The identity of a request. -/
inductive Id
  | number (n : Nat)
  | text (s : Bytes)
deriving DecidableEq

/-- A message from the client. -/
structure Message where
  method : Bytes
  /-- Nothing for a notification. -/
  id : Option Id
  params : Option Json

/-- What comes from a client. -/
inductive Arrival
  | message (m : Message)
  /-- The answer to a request of the server. -/
  | answer
  /-- Something that is neither. -/
  | garbled

/-- Why a message is refused. -/
inductive Refusal
  /-- No such method. -/
  | unsupported (method : Bytes)
  | missingParams
  /-- The parameters are not of the right shape. -/
  | undecodable
  /-- A file was to be selected and none is named. -/
  | noSelection
  | unknownCommand (command : Bytes)
deriving DecidableEq

namespace Refusal

/-- What is wrong with the parameters, in words. -/
def reason : Refusal → Bytes
  | unsupported method => method
  | missingParams => utf8 "missing parameters"
  | undecodable => utf8 "json"
  | noSelection => utf8 "expected the selected file path"
  | unknownCommand command => utf8 "unknown command " ++ command

def message : Refusal → Bytes
  | unsupported method => utf8 "method not supported: " ++ method
  | refusal => utf8 "invalid parameters: " ++ refusal.reason

def code : Refusal → Int
  | unsupported _ => -32601
  | _ => -32602

end Refusal

/-- The replacement of a stretch of a document. -/
structure TextEdit where
  startLine : Nat
  startColumn : Nat
  stopLine : Nat
  stopColumn : Nat
  newText : Bytes
deriving DecidableEq

/-- What answers a request. -/
inductive Result
  | nothing
  | capabilities
  | report (diagnostics : List Diagnostic)
  | edits (edits : List TextEdit)
  | hover (markdown : Bytes)
  | completions (entries : List Catalog.Entry)
  | setting (path : Bytes)
deriving DecidableEq

/-- How a message is shown to the user. -/
inductive Notice
  | error
  | info
deriving DecidableEq

/-- A message to the client. -/
inductive Outgoing
  | result (id : Id) (result : Result)
  | refusal (id : Id) (refusal : Refusal)
  /-- The diagnostics of a document that now count; a version of 0 is none. -/
  | publish (uri : Bytes) (version : Int) (diagnostics : List Diagnostic)
  | notify (notice : Notice) (text : Bytes)
  /-- A request of the server to be asked before documents are saved. -/
  | register (number : Nat)
deriving DecidableEq

end AsmLens.Server
