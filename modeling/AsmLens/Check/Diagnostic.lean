import AsmLens.Isa.Table

/-!
# Diagnostics

What the checker can find wrong, how bad it is, where it stands and how it is put into words. Only a missing label is a
warning where an operand is expected to be one: the name may be known to the assembler from elsewhere.
-/

namespace AsmLens

/-- How bad a finding is. -/
inductive Severity
  | error
  | warning
  | information
  | hint
deriving DecidableEq, Repr

namespace Severity

def name : Severity → Bytes
  | error => utf8 "error"
  | warning => utf8 "warning"
  | information => utf8 "info"
  | hint => utf8 "hint"

/-- The number of a severity, the worst being 1. -/
def code : Severity → Nat
  | error => 1
  | warning => 2
  | information => 3
  | hint => 4

def ofCode? (k : Int) : Option Severity := [error, warning, information, hint].find? fun s => (s.code : Int) == k

end Severity

/-- What is wrong with a stretch of a line. -/
inductive Finding
  /-- The first word is neither in the table nor a directive. -/
  | illegalMnemonic (mnemonic : Bytes)
  /-- The number of operands is not the expected one. -/
  | operandCount (mnemonic : Bytes) (expected got : Nat)
  /-- The operand at a position, counted from 1, is not of the expected kind. -/
  | operandKind (expected : Kind) (position : Nat) (operand : Bytes)
  /-- The operand at a position is not a label of the document. -/
  | expectedLabel (position : Nat) (operand : Bytes)
  /-- A name that begins with `$` is no register. -/
  | invalidRegister (name : Bytes)
  /-- A branch or jump goes to a name that the document does not define. -/
  | undefinedLabel (name : Bytes)
deriving DecidableEq

namespace Finding

def severity : Finding → Severity
  | expectedLabel .. => .warning
  | _ => .error

def message : Finding → Bytes
  | illegalMnemonic mnemonic => utf8 "Illegal mnemonic: " ++ mnemonic
  | operandCount mnemonic expected got =>
    utf8 "Expected " ++ Bytes.decimal expected ++ utf8 " operand(s) for '" ++ mnemonic ++ utf8 "', got " ++
      Bytes.decimal got
  | operandKind expected position operand =>
    utf8 "Expected " ++ expected.name ++ (if expected = .based then utf8 " format" else []) ++ utf8 " at position " ++
      Bytes.decimal position ++ utf8 ", got '" ++ operand ++ utf8 "'"
  | expectedLabel position operand =>
    utf8 "Expected " ++ Kind.label.name ++ utf8 " at position " ++ Bytes.decimal position ++ utf8 ", got '" ++
      operand ++ utf8 "'"
  | invalidRegister name => utf8 "Invalid register: " ++ name
  | undefinedLabel name => utf8 "Undefined label: " ++ name

end Finding

/-- A finding with its place: the columns `start` up to `stop` of a line, all counted from 0. -/
structure Diagnostic where
  line : Nat
  start : Nat
  stop : Nat
  finding : Finding
deriving DecidableEq

namespace Diagnostic

def severity (d : Diagnostic) : Severity := d.finding.severity

def message (d : Diagnostic) : Bytes := d.finding.message

/-- Who reports diagnostics. -/
def source : Bytes := utf8 "cs2200asm"

end Diagnostic

end AsmLens
