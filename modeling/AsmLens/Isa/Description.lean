import AsmLens.Isa.Table
import AsmLens.Text.Blank
import AsmLens.Text.Lexer

/-!
# Written tables

A table is written one declaration a line, `MNEMONIC pattern : anything`. A line that is blank, that begins with `#` or
that has no mnemonic declares nothing. Of two declarations of a mnemonic the later counts.

The pattern stands for the operands of an instruction. Four kinds of marker in it are operands: `#I ( $name )` is a
number with a register, `$name` a register, `#I` a number and `%O` a label. Everything between markers is filling.
Before it is searched the pattern is stripped of its escapes: `\s*` stands for nothing, and a backslash before any other
character is dropped. Then rules take lexemes off its head, one after the other, until nothing is left.
-/

namespace AsmLens.Marker

/-! ## Escapes -/

/-- The pattern with `\s*` removed and parentheses freed of their backslashes. -/
def expandEscapes : Bytes → Bytes
  | 92 :: 115 :: 42 :: rest => expandEscapes rest
  | 92 :: 40 :: rest => 40 :: expandEscapes rest
  | 92 :: 41 :: rest => 41 :: expandEscapes rest
  | b :: rest => b :: expandEscapes rest
  | [] => []

/-- The pattern without blanks at its ends and without escapes. -/
def normalize (s : Bytes) : Bytes := (expandEscapes (Blank.trim s)).filter (· != 92)

/-! ## Markers and filling -/

/-- What follows `$name`, the name being letters and digits, at least one. -/
def afterRegister? : Bytes → Option Bytes
  | 36 :: rest => if (rest.takeWhile isAlnum).isEmpty then none else some (rest.dropWhile isAlnum)
  | _ => none

/-- What follows `#I`. -/
def afterNumber? : Bytes → Option Bytes
  | 35 :: 73 :: rest => some rest
  | _ => none

/-- What follows `%O`. -/
def afterLabel? : Bytes → Option Bytes
  | 37 :: 79 :: rest => some rest
  | _ => none

/-- What follows `b`, after any spaces. -/
def afterByte? (b : UInt8) (s : Bytes) : Option Bytes :=
  match s.dropWhile isSpace with
  | b' :: rest => if b' == b then some rest else none
  | [] => none

/-- What follows `#I ( $name )`, with any spaces around the parentheses. -/
def afterBased? (s : Bytes) : Option Bytes :=
  (afterNumber? s).bind fun s =>
  (afterByte? 40 s).bind fun s =>
  (afterRegister? (s.dropWhile isSpace)).bind fun s =>
  afterByte? 41 s

/-- An octet that a marker can begin with. -/
def isSigil (b : UInt8) : Bool := b == 36 || b == 35 || b == 37

/-- What follows filling: a sigil by itself, or everything up to the next sigil. -/
def afterFilling? : Bytes → Option Bytes
  | [] => none
  | b :: rest => some (if isSigil b then rest else rest.dropWhile (!isSigil ·))

/-! ## Division into lexemes -/

/-- A stretch of a pattern: a marker, or filling. -/
abbrev Lexeme := Lexer.Lexeme (Option Kind)

/-- A rule that takes a marker or filling off the head of a pattern. -/
abbrev Rule := Lexer.Rule (Option Kind)

/-- The rules of patterns, in the order in which they are tried. -/
def rules : List Rule := [
  ⟨some .based, afterBased?⟩,
  ⟨some .register, afterRegister?⟩,
  ⟨some .number, afterNumber?⟩,
  ⟨some .label, afterLabel?⟩,
  ⟨none, afterFilling?⟩]

/-- The operands that a pattern describes. One that cannot be divided describes none. -/
def kinds (s : Bytes) : List Kind :=
  match Lexer.lex? rules (normalize s) with
  | none => []
  | some lexemes => lexemes.filterMap (·.kind)

end AsmLens.Marker

namespace AsmLens.Description

/-- The mnemonic that a line declares, with its operands. -/
def declaration? (line : Bytes) : Option (Bytes × List Kind) :=
  let line := Blank.trim line
  if line.head? == some 35 then none
  else
    let part := Bytes.before 58 line
    match Blank.fields part with
    | [] => none
    | mnemonic :: _ => some (mnemonic, Marker.kinds ((Blank.trim part).drop mnemonic.length))

/-- The table that a text describes. -/
def parse (text : Bytes) : Isa := Dictionary.ofList ((text.splitOn 10).filterMap declaration?)

end AsmLens.Description
