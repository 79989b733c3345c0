import AsmLens.Check.Diagnostic
import AsmLens.Isa.Register
import AsmLens.Isa.Table
import AsmLens.Numeral
import AsmLens.Source.Line

/-!
# Checking a document

A line whose first word is unknown gets that one finding. Otherwise three checks look at it, one after the other: the
operands against the table, every register-shaped name, and the target of a branch or jump. Labels may be used before
they are defined, so all labels of the document are collected first.
-/

namespace AsmLens

namespace Check

/-! ## Operands against the table -/

/-- The register inside `12($name)`: an optional sign, digits, and the name in parentheses. -/
def basedRegister? (s : Bytes) : Option Bytes :=
  let unsigned := (Numeral.splitSign s).2
  if (unsigned.takeWhile isDigit).isEmpty then none
  else
    match unsigned.dropWhile isDigit with
    | 40 :: 36 :: rest =>
      let name := rest.takeWhile isWordByte
      if !name.isEmpty && rest.dropWhile isWordByte == [41] then some (36 :: name) else none
    | _ => none

def isParenthesis (b : UInt8) : Bool := b == 40 || b == 41

/-- What is wrong with the operand at a position, counted from 1. Parentheses around a register do not matter. -/
def operandFinding? (labels : Labels) (kind : Kind) (position : Nat) (operand : Bytes) : Option Finding :=
  match kind with
  | .register =>
    if Register.isName (operand.filter (!isParenthesis ·)) then none else some (.operandKind kind position operand)
  | .number => if Numeral.isNumber operand then none else some (.operandKind kind position operand)
  | .label => if labels.isDefined operand then none else some (.expectedLabel position operand)
  | .based => if (basedRegister? operand).any Register.isName then none else some (.operandKind kind position operand)

/-- The finding about a whole word. -/
def about (line : Nat) (w : Word) (finding : Finding) : Diagnostic := ⟨line, w.start, w.stop, finding⟩

/-- The findings about operands, one expected kind for each. -/
def operandDiagnostics (labels : Labels) (line : Nat) (kinds : List Kind) (operands : List Word) : List Diagnostic :=
  (kinds.zip operands).zipIdx.filterMap fun ((kind, w), i) =>
    (operandFinding? labels kind (i + 1) w.text).map (about line w)

/-- The findings about the operands of a mnemonic that the table declares. -/
def declaredDiagnostics (labels : Labels) (line : Nat) (mnemonic : Word) (kinds : List Kind) (operands : List Word) :
    List Diagnostic :=
  if operands.length = kinds.length then operandDiagnostics labels line kinds operands
  else [about line mnemonic (.operandCount mnemonic.text kinds.length operands.length)]

/-! ## Register-shaped names -/

/-- Every `$` of a text that starts at column `start`, with the word characters behind it. -/
def dollarNames (start : Nat) : Bytes → List Word
  | [] => []
  | b :: rest =>
    if b = 36 then ⟨36 :: rest.takeWhile isWordByte, start⟩ :: dollarNames (start + 1) rest
    else dollarNames (start + 1) rest

/-- The names in a word that have to be registers: the whole word if it begins with `$`, else every `$` name in it. -/
def registerNames (w : Word) : List Word := if w.text.head? = some 36 then [w] else dollarNames w.start w.text

/-- The findings about names that should be registers. -/
def registerDiagnostics (line : Nat) (words : List Word) : List Diagnostic :=
  ((words.flatMap registerNames).filter (!Register.isName ·.text)).map fun w => about line w (.invalidRegister w.text)

/-! ## Branch and jump targets -/

/-- The stems of the mnemonics whose last operand is a target. -/
def targetStems : List Bytes := [utf8 "beq", utf8 "bgt", utf8 "lea", utf8 "jalr", utf8 "jmp"]

/-- Whether the last operand of a mnemonic is a target: it begins with a stem that no word character follows. -/
def takesTarget (mnemonic : Bytes) : Bool :=
  targetStems.any fun stem => stem.isPrefixOf mnemonic && !(mnemonic.drop stem.length).head?.any isWordByte

/-- The finding about a target that is neither a register, a number nor a label of the document. A target is a word, so
it is not empty and no comma at its end has to be taken off. -/
def targetDiagnostics (labels : Labels) (line : Nat) (mnemonic : Bytes) (operands : List Word) : List Diagnostic :=
  match operands.getLast? with
  | none => []
  | some target =>
    if takesTarget mnemonic && target.text.head? != some 36 && !Numeral.isNumber target.text &&
        !labels.isDefined target.text then
      [about line target (.undefinedLabel target.text)]
    else []

/-! ## Lines and documents -/

/-- The findings that do not depend on the table. -/
def generalDiagnostics (labels : Labels) (number : Nat) (mnemonic : Word) (operands : List Word) : List Diagnostic :=
  registerDiagnostics number (mnemonic :: operands) ++ targetDiagnostics labels number mnemonic.text operands

/-- Everything wrong with a line whose mnemonic the table does not declare. -/
def undeclaredDiagnostics (labels : Labels) (number : Nat) (mnemonic : Word) (operands : List Word) :
    List Diagnostic :=
  if Directive.isName mnemonic.text then generalDiagnostics labels number mnemonic operands
  else [about number mnemonic (.illegalMnemonic mnemonic.text)]

/-- Everything wrong with a line. -/
def lineDiagnostics (isa : Isa) (labels : Labels) (number : Nat) (line : Line) : List Diagnostic :=
  match line.words with
  | [] => []
  | mnemonic :: operands =>
    match isa.find? mnemonic.text with
    | some kinds =>
      declaredDiagnostics labels number mnemonic kinds operands ++ generalDiagnostics labels number mnemonic operands
    | none => undeclaredDiagnostics labels number mnemonic operands

end Check

/-- All that one pass over a document gives. -/
structure Analysis where
  isa : Isa
  lines : List Line
  labels : Labels
  diagnostics : List Diagnostic
deriving DecidableEq

namespace Analysis

/-- Checks the lines of a document. -/
def ofLines (isa : Isa) (raw : List Bytes) : Analysis :=
  let labels := Labels.ofLines raw
  let lines := raw.map Line.ofBytes
  ⟨isa, lines, labels, lines.zipIdx.flatMap fun (line, i) => Check.lineDiagnostics isa labels i line⟩

/-- Checks a document. -/
def ofText (isa : Isa) (text : Bytes) : Analysis := ofLines isa (Source.lines text)

end Analysis

end AsmLens
