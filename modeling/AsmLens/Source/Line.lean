import AsmLens.Dictionary
import AsmLens.Text.Blank
import AsmLens.Text.Lexer

/-!
# Source lines

A line of assembly may begin with a label definition `name:` and ends at the first `!`, which starts a comment. Between
the two stand words, separated by spaces, commas or both; the first is the mnemonic, the others are its operands. Every
word keeps the column it has in the line as written.

The label definitions of a document are kept in order of line. A name that is defined more than once means its first
definition.
-/

namespace AsmLens

/-- A stretch of a line with the column of its first octet. -/
structure Word where
  text : Bytes
  start : Nat
deriving DecidableEq

namespace Word

/-- The column behind the last octet. -/
def stop (w : Word) : Nat := w.start + w.text.length

end Word

namespace Source

/-- The line up to its comment. -/
def code (line : Bytes) : Bytes := Bytes.before 33 line

/-- The comment of a line, from its `!` on. -/
def comment (line : Bytes) : Bytes := line.dropWhile (· != 33)

/-- The name in the label definition that a line begins with: spaces, word characters, a colon. -/
def label? (line : Bytes) : Option Word :=
  let indent := line.takeWhile isSpace
  let name := (line.dropWhile isSpace).takeWhile isWordByte
  let behind := (line.dropWhile isSpace).dropWhile isWordByte
  if !name.isEmpty && behind.head? == some 58 then some ⟨name, indent.length⟩ else none

/-- The column behind the label definition of a line, 0 if there is none. -/
def labelEnd (line : Bytes) : Nat :=
  match label? line with
  | some name => name.stop + 1
  | none => 0

/-- What stands between the label definition and the comment of a line. -/
def instruction (line : Bytes) : Bytes := (code line).drop (labelEnd (code line))

/-- Spaces and the comma, which separate words. -/
def isSeparator (b : UInt8) : Bool := isSpace b || b == 44

/-- What a line is divided into. -/
inductive Part
  | separator
  | word
deriving DecidableEq

/-- The rules of lines, in the order in which they are tried: separators, then anything up to the next of them. -/
def rules : List (Lexer.Rule Part) := [
  ⟨.separator, Lexer.afterRun? (Utf8.asciiClass isSeparator)⟩,
  ⟨.word, Lexer.afterRun? (!Utf8.asciiClass isSeparator ·)⟩]

/-- The words among lexemes, of which the first starts at column `start`. -/
def wordsAmong (start : Nat) : List (Lexer.Lexeme Part) → List Word
  | [] => []
  | lexeme :: rest =>
    let later := wordsAmong (start + lexeme.text.length) rest
    match lexeme.kind with
    | .separator => later
    | .word => ⟨lexeme.text, start⟩ :: later

/-- The words of a text that starts at column `start`. A text of nothing but blanks has none, nor has one that cannot be
divided. -/
def words (start : Nat) (s : Bytes) : List Word :=
  if Blank.isBlankText s then []
  else
    match Lexer.lex? rules s with
    | none => []
    | some lexemes => wordsAmong start lexemes

/-- A line without the carriage return at its end. -/
def chomp (line : Bytes) : Bytes := if line.getLast? = some 13 then line.dropLast else line

/-- The lines of a text. Each ends before a line feed, and a carriage return at its end is dropped. -/
def lines (text : Bytes) : List Bytes := (text.splitOn 10).map chomp

end Source

/-- A line taken apart. -/
structure Line where
  /-- The name that the line defines as a label. -/
  label : Option Word
  words : List Word
deriving DecidableEq

namespace Line

/-- Takes a line apart. -/
def ofBytes (raw : Bytes) : Line :=
  let code := Source.code raw
  ⟨Source.label? code, Source.words (Source.labelEnd code) (Source.instruction raw)⟩

def mnemonic? (l : Line) : Option Word := l.words.head?

def operands (l : Line) : List Word := l.words.tail

end Line

/-! ## Labels -/

/-- The defined names with their lines, in order of line. -/
structure Labels where
  definitions : List (Bytes × Nat)
deriving DecidableEq

namespace Labels

/-- The definitions of a list of lines. -/
def ofLines (lines : List Bytes) : Labels :=
  ⟨lines.zipIdx.filterMap fun (line, i) => (Source.label? line).map fun name => (name.text, i)⟩

/-- The line that defines a name. -/
def line? (labels : Labels) (name : Bytes) : Option Nat := labels.definitions.lookup name

def isDefined (labels : Labels) (name : Bytes) : Bool := (labels.line? name).isSome

/-- The definitions that count, one for each name. -/
def toDictionary (labels : Labels) : Dictionary Nat :=
  Dictionary.ofList labels.definitions.reverse

end Labels

end AsmLens
