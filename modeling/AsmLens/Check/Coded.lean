import AsmLens.Check.Hover

/-!
# Tables with operands given by number

A table from outside may give its operands by number, and a number need not name a kind. The numbers of an entry are
looked at in three places only: where a catalogue is drawn up, under a mnemonic that is pointed at, and on a line that
has as many operands as the entry lists. There they are looked at from the left, the first that names no kind is a
fault, and a fault ends the whole operation. Anywhere else a number is never looked at.

* `mapM_kindOf_map_code`: the numbers of kinds name those kinds.
-/

namespace AsmLens.Coded

/-- Why a table could not be used: an operand number that names no kind, met while a catalogue was drawn up or while
source was looked at. -/
inductive Fault
  | undescribed (code : Int)
  | unchecked (code : Int)
deriving DecidableEq

def Fault.message : Fault → Bytes
  | undescribed code => utf8 "isa: unknown operand type " ++ Bytes.signedDecimal code
  | unchecked code => utf8 "assembler: unhandled operand type " ++ Bytes.signedDecimal code

/-- A table with operands given by number. -/
abbrev CodeTable := Table Int

/-- The table of an instruction set by number. -/
def ofIsa (isa : Isa) : CodeTable := Table.mapOperands Kind.code isa

/-- The kind that a number names. -/
def kindOf (fault : Int → Fault) (code : Int) : Except Fault Kind :=
  match Kind.ofCode? code with
  | some kind => .ok kind
  | none => .error (fault code)

theorem mapM_kindOf_map_code (fault : Int → Fault) (kinds : List Kind) :
    (kinds.map Kind.code).mapM (kindOf fault) = .ok kinds := by
  induction kinds with
  | nil => rfl
  | cons kind kinds ih =>
    rw [List.map_cons, List.mapM_cons, ih, kindOf, Kind.ofCode?_code]
    rfl

/-! ## Catalogues -/

/-- The kinds of an entry that is to be described. -/
def described (codes : List Int) : Except Fault (List Kind) := codes.mapM (kindOf .undescribed)

def detail (codes : List Int) : Except Fault Bytes := (described codes).map Catalog.detail

def snippet (mnemonic : Bytes) (codes : List Int) : Except Fault Bytes :=
  (described codes).map (Catalog.snippet mnemonic)

/-- The entries of a table, in order of mnemonic. -/
def catalog (t : CodeTable) : Except Fault (List Catalog.Entry) :=
  t.entries.mapM fun (mnemonic, codes) => (described codes).map (Catalog.entry mnemonic)

/-! ## Documents -/

/-- The findings about operands, one expected kind for each. -/
def operandDiagnostics (labels : Labels) (line : Nat) (codes : List Int) (operands : List Word) :
    Except Fault (List Diagnostic) :=
  (codes.zip operands).zipIdx.filterMapM fun ((code, w), i) =>
    (kindOf .unchecked code).map fun kind =>
      (Check.operandFinding? labels kind (i + 1) w.text).map (Check.about line w)

/-- The findings about the operands of a mnemonic that the table declares. -/
def declaredDiagnostics (labels : Labels) (line : Nat) (mnemonic : Word) (codes : List Int) (operands : List Word) :
    Except Fault (List Diagnostic) :=
  if operands.length = codes.length then operandDiagnostics labels line codes operands
  else return [Check.about line mnemonic (.operandCount mnemonic.text codes.length operands.length)]

/-- Everything wrong with a line. -/
def lineDiagnostics (t : CodeTable) (labels : Labels) (number : Nat) (line : Line) : Except Fault (List Diagnostic) :=
  match line.words with
  | [] => return []
  | mnemonic :: operands =>
    match t.find? mnemonic.text with
    | some codes => do
      let found ← declaredDiagnostics labels number mnemonic codes operands
      return found ++ Check.generalDiagnostics labels number mnemonic operands
    | none => return Check.undeclaredDiagnostics labels number mnemonic operands

/-- The instruction set of a table, in which a number that names no kind stands for a number operand. -/
def toIsa (t : CodeTable) : Isa := Table.mapOperands (fun code => (Kind.ofCode? code).getD .number) t

/-- A document checked against a table, which is kept for later questions. -/
structure Checked where
  table : CodeTable
  analysis : Analysis

/-- Checks the lines of a document. The first line on which an unknown number matters is a fault. -/
def check (t : CodeTable) (raw : List Bytes) : Except Fault Checked := do
  let labels := Labels.ofLines raw
  let lines := raw.map Line.ofBytes
  let found ← lines.zipIdx.mapM fun (line, i) => lineDiagnostics t labels i line
  return ⟨t, toIsa t, lines, labels, found.flatten⟩

/-! ## Positions -/

/-- The kinds of an entry whose mnemonic is pointed at. -/
def checked (codes : List Int) : Except Fault (List Kind) := codes.mapM (kindOf .unchecked)

/-- What stands under a position. -/
def Checked.hover? (c : Checked) (p : Position) : Except Fault (Option Hover) :=
  match c.analysis.hover? p with
  | some (.instruction mnemonic _) =>
    (checked ((c.table.find? mnemonic).getD [])).map fun kinds => some (.instruction mnemonic kinds)
  | other => .ok other

end AsmLens.Coded
