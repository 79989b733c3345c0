import AsmLens.Check.Analysis

/-!
# What stands under a position

A position in a checked document may be over a label definition, a mnemonic or an operand. In an operand such as
`4($t0)` the parentheses divide the pieces that can be pointed at.
-/

namespace AsmLens

/-- A place in a document, counted from 0; it need not exist. -/
structure Position where
  line : Int
  character : Int
deriving DecidableEq

/-- What a position can be over. Lines are counted from 0. -/
inductive Hover
  | labelDefinition (name : Bytes) (line : Nat)
  | labelReference (name : Bytes) (line : Nat)
  | instruction (mnemonic : Bytes) (kinds : List Kind)
  | directive (name : Bytes)
  | register (r : Register)
  | number (value : Int)
deriving DecidableEq

namespace Kind

/-- The place of an operand in the format of an instruction. -/
def placeholder : Kind → Bytes
  | register => utf8 "<reg>"
  | number => utf8 "<imm>"
  | label => utf8 "<label>"
  | based => utf8 "<imm>(<reg>)"

end Kind

namespace Hover

/-- The format of an instruction. -/
def format (mnemonic : Bytes) : List Kind → Bytes
  | [] => mnemonic
  | kinds => mnemonic ++ utf8 " " ++ Bytes.join (utf8 ", ") (kinds.map Kind.placeholder)

/-- A value in hexadecimal; of a negative one, the low 32 bits. -/
def hexadecimal (value : Int) : Bytes :=
  utf8 "0x" ++ Bytes.digits 16 (if value < 0 then value % 4294967296 else value).toNat

/-- The text between code quotes. -/
def quoted (s : Bytes) : Bytes := utf8 "`" ++ s ++ utf8 "`"

/-- The description shown to a reader. Lines are counted from 1. -/
def markdown : Hover → Bytes
  | labelDefinition name line =>
    utf8 "Definition of label " ++ quoted name ++ utf8 ".\n\nLine " ++ Bytes.decimal (line + 1)
  | labelReference name line =>
    utf8 "Reference to label " ++ quoted name ++ utf8 "\n\nDefined on line " ++ Bytes.decimal (line + 1)
  | instruction mnemonic kinds =>
    utf8 "Instruction " ++ quoted mnemonic ++ utf8 "\n\nFormat: " ++ quoted (format mnemonic kinds) ++
      utf8 "\n\nOperands: " ++ Catalog.detail kinds
  | directive name => utf8 "Directive " ++ quoted name ++ utf8 "\n\nOperands are not checked."
  | register r => utf8 "Register " ++ quoted r.name ++ utf8 "\n\n" ++ r.description
  | number value =>
    utf8 "Integer Literal " ++ quoted (Bytes.signedDecimal value) ++ utf8 " (" ++ quoted (hexadecimal value) ++ utf8 ")"

end Hover

namespace Word

/-- Whether a column lies in the word. -/
def covers (w : Word) (column : Int) : Bool := w.start ≤ column && column < w.stop

/-- The piece of an operand around its `i`-th octet, up to the nearest parentheses; nothing if that octet is one and
another stands right before it. -/
def pieceAt (w : Word) (i : Nat) : Bytes :=
  ((w.text.take i).reverse.takeWhile (!Check.isParenthesis ·)).reverse ++
    (w.text.drop i).takeWhile (!Check.isParenthesis ·)

end Word

namespace Analysis

/-- What is known of a mnemonic. -/
def hoverMnemonic? (a : Analysis) (mnemonic : Bytes) : Option Hover :=
  match a.isa.find? mnemonic with
  | some kinds => some (.instruction mnemonic kinds)
  | none => if Directive.isName mnemonic then some (.directive mnemonic) else none

/-- What is known of a piece of an operand. -/
def hoverPiece? (a : Analysis) (piece : Bytes) : Option Hover :=
  if piece.isEmpty then none
  else if piece.head? = some 36 then (Register.ofName? piece).map .register
  else
    match a.labels.line? piece with
    | some line => some (.labelReference piece line)
    | none => (Numeral.value? piece).map .number

/-- The word of a line that a column lies in, and whether it is the mnemonic. -/
def wordAt? (line : Line) (column : Int) : Option (Word × Bool) :=
  (line.words.zipIdx.find? fun (w, _) => w.covers column).map fun (w, i) => (w, i == 0)

/-- What stands under a column of a line. -/
def hoverLine? (a : Analysis) (number : Nat) (line : Line) (column : Int) : Option Hover :=
  match line.label.filter (·.covers column) with
  | some name => some (.labelDefinition name.text number)
  | none =>
    match wordAt? line column with
    | none => none
    | some (w, true) => a.hoverMnemonic? w.text
    | some (w, false) => a.hoverPiece? (w.pieceAt (column - w.start).toNat)

/-- What stands under a position. -/
def hover? (a : Analysis) (p : Position) : Option Hover :=
  if p.line < 0 then none
  else
    match a.lines[p.line.toNat]? with
    | none => none
    | some line => a.hoverLine? p.line.toNat line p.character

end Analysis

end AsmLens
