import AsmLens.Check.Analysis
import AsmLens.Command.Flags
import AsmLens.Isa.Load

/-!
# Commands

The arguments of a command are read first, then counted, and only then is anything done. A command leaves its output
behind and, if it failed, one line about the failure.

* `check` checks files one after the other, and every diagnostic is one line of output. The first file that cannot be
  read ends the command; what was found before it stays. The command fails if there was an error, not if there were
  warnings.
* `catalog` lists a table: mnemonics and operands in two columns, or the whole table with sizes.
-/

namespace AsmLens.Command

/-! ## Outcomes -/

/-- The outcome of a command. -/
structure Outcome where
  output : Bytes
  /-- What failed. -/
  failure : Option Bytes
deriving DecidableEq

namespace Outcome

def success (output : Bytes) : Outcome := ⟨output, none⟩

def failed (output message : Bytes) : Outcome := ⟨output, some message⟩

/-- The exit status. -/
def status (o : Outcome) : Nat := if o.failure.isSome then 1 else 0

/-- What is written about a failure. -/
def errors (o : Outcome) : Bytes :=
  match o.failure with
  | some message => utf8 "Error: " ++ message ++ utf8 "\n"
  | none => []

end Outcome

/-- The table of a command: the built-in one if no file is named. -/
def table (read : Files.Reader) (path : Bytes) : Except LoadError Isa :=
  if path.isEmpty then .ok Isa.default else Isa.load read path

/-! ## Checking files -/

/-- The line of output for a diagnostic, its place counted from 1. -/
def diagnosticLine (path : Bytes) (d : Diagnostic) : Bytes :=
  path ++ utf8 ":" ++ Bytes.decimal (d.line + 1) ++ utf8 ":" ++ Bytes.decimal (d.start + 1) ++ utf8 ": " ++
    d.severity.name ++ utf8 ": " ++ d.message ++ utf8 "\n"

/-- The diagnostics of files with the paths they belong to, up to the first file that cannot be read, and the
failure of that file. -/
def fileDiagnostics (read : Files.Reader) (isa : Isa) : List Bytes → List (Bytes × Diagnostic) × Option Bytes
  | [] => ([], none)
  | path :: paths =>
    match read path with
    | .error reason => ([], some (reason.message path))
    | .ok text =>
      let (later, failure) := fileDiagnostics read isa paths
      ((Analysis.ofText isa text).diagnostics.map (path, ·) ++ later, failure)

/-- Checks files against a table. -/
def checkFiles (read : Files.Reader) (isa : Isa) (paths : List Bytes) : Outcome :=
  let (found, failure) := fileDiagnostics read isa paths
  let output := found.flatMap fun (path, d) => diagnosticLine path d
  let errors := (found.filter fun (_, d) => d.severity == .error).length
  match failure with
  | some message => .failed output message
  | none => if errors = 0 then .success output else .failed output (Bytes.decimal errors ++ utf8 " error(s)")

/-- Checks files against the table that a file describes. -/
def check (read : Files.Reader) (isaPath : Bytes) (paths : List Bytes) : Outcome :=
  match table read isaPath with
  | .error e => .failed [] e.message
  | .ok isa => checkFiles read isa paths

/-! ## Listing a table -/

/-- Mnemonics and operands in two columns. -/
def listing (isa : Isa) : Bytes := Columns.layout ((Catalog.ofIsa isa).map fun e => (e.mnemonic, e.detail))

/-- The size of something, if it is not empty. -/
def dumpSize (n : Nat) : Bytes := if n = 0 then [] else utf8 "(len=" ++ Bytes.decimal n ++ utf8 ") "

/-- An entry of a table with sizes. -/
def dumpEntry (mnemonic : Bytes) (kinds : List Kind) : Bytes :=
  utf8 " (string) " ++ dumpSize mnemonic.length ++ Quoted.text mnemonic ++ utf8 ": ([]isa.OperandType) " ++
    dumpSize kinds.length ++ utf8 "\x7b\n" ++
    Bytes.join (utf8 ",\n") (kinds.map fun k => utf8 "  (isa.OperandType) " ++ k.name) ++
    (if kinds.isEmpty then [] else utf8 "\n") ++ utf8 " \x7d"

/-- A whole table with sizes, its entries in the order of their written forms. -/
def dump (isa : Isa) : Bytes :=
  let entries := (isa.entries.map fun (mnemonic, kinds) => dumpEntry mnemonic kinds).mergeSort
  utf8 "(isa.InstructionSpec) " ++ dumpSize isa.entries.length ++ utf8 "\x7b\n" ++
    Bytes.join (utf8 ",\n") entries ++ (if entries.isEmpty then [] else utf8 "\n") ++ utf8 "\x7d\n"

/-- Lists the table that a file describes. -/
def catalog (read : Files.Reader) (isaPath : Bytes) (whole : Bool) : Outcome :=
  match table read isaPath with
  | .error e => .failed [] e.message
  | .ok isa => .success (if whole then dump isa else listing isa)

/-! ## Running a command -/

/-- A command that runs once and ends. -/
inductive Name
  | check
  | catalog
deriving DecidableEq

namespace Name

def ofBytes? (s : Bytes) : Option Name :=
  if s == utf8 "check" then some check else if s == utf8 "catalog" then some catalog else none

def flags : Name → List Flag
  | check => .isa :: Flag.shared
  | catalog => .isa :: .dump :: Flag.shared

end Name

/-- Runs a command with its arguments, which are told apart as `parse` does it. -/
def runWith (parse : FlagReader) (read : Files.Reader) (name : Name) (arguments : List Bytes) : Outcome :=
  match parse name.flags arguments with
  | .error message => .failed [] message
  | .ok (options, arguments) =>
    if options.help then .success []
    else
      match name, arguments with
      | .check, [] => .failed [] (utf8 "requires at least 1 arg(s), only received 0")
      | .check, paths => check read options.isa paths
      | .catalog, [] => catalog read options.isa options.dump
      | .catalog, extra :: _ =>
        .failed [] (utf8 "unknown command " ++ Quoted.text extra ++ utf8 " for \"cs2200asm catalog\"")

/-- Runs a command with its arguments. -/
def run : Files.Reader → Name → List Bytes → Outcome := runWith parseFlags

/-- The files that a command may read. -/
def filesOf (name : Name) (arguments : List Bytes) : List Bytes :=
  match parseFlags name.flags arguments with
  | .error _ => []
  | .ok (options, arguments) => options.isa :: arguments

end AsmLens.Command
