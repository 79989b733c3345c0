import AsmLens.Source.Line

/-!
# Layout

A document is laid out by its labels. Label definitions go to column 0, instructions one column past the longest label
definition, words are one space apart, and a comment follows its line one space behind. A line with neither label
nor instruction keeps its indentation. Spaces and tabs at line ends go.
-/

namespace AsmLens.Layout

/-- The column of instructions: two more than the longest label. -/
def indent (lines : List Bytes) : Nat :=
  ((Labels.ofLines lines).definitions.map fun d => d.1.length).foldl max 0 + 2

/-- The words of the instruction on a line, with what stands between them cut down to one space. -/
def body (line : Bytes) : Bytes := Bytes.join [32] (Blank.fields (Source.instruction line))

/-- The comment of a line behind one space. -/
def comment (line : Bytes) : Bytes :=
  match Bytes.trimEnd isFilling (Source.comment line) with
  | [] => []
  | comment => 32 :: comment

/-- How many spaces go between a label definition and an instruction at column `indent`. There would be less than none
if the definition reached beyond the column. -/
def padding (indent : Nat) (name : Bytes) : Int := indent - name.length - 1

/-- A line with instructions at column `indent`. -/
def line (indent : Nat) (raw : Bytes) : Bytes :=
  match Source.label? (Source.code raw), body raw with
  | none, [] => Bytes.trimEnd isFilling raw
  | none, body => List.replicate indent 32 ++ body ++ comment raw
  | some name, [] => name.text ++ [58] ++ comment raw
  | some name, body =>
    name.text ++ [58] ++ List.replicate (padding indent name.text).toNat 32 ++ body ++ comment raw

/-- Whether a carriage return and a line feed stand together somewhere. -/
def hasCrLf : Bytes → Bool
  | 13 :: 10 :: _ => true
  | _ :: rest => hasCrLf rest
  | [] => false

/-- What ends the lines of a text that is laid out. -/
def lineEnd (text : Bytes) : Bytes := if hasCrLf text then [13, 10] else [10]

/-- The text laid out. -/
def format (text : Bytes) : Bytes :=
  let lines := Source.lines text
  Bytes.join (lineEnd text) (lines.map (line (indent lines)))

end AsmLens.Layout
