import AsmLens.Dictionary

/-!
# Instruction tables

A table says of each mnemonic, exactly as it is spelled, which operands it takes and in which order. `Table α` leaves
open how an operand place is described; the tables that programs are checked against describe it by its `Kind`. Each
kind has a number, by which tables may be given (`Kind.ofCode?_code`: the number of a kind names that kind).

A catalogue lists the mnemonics of a table in order, each with its operands spelled out for reading and as a fill-in
template. In a template the places are numbered from 1 and hold a sample operand; a dollar sign of the sample is
escaped.
-/

namespace AsmLens

/-! ## Operand kinds -/

/-- What an operand must be. -/
inductive Kind
  | register
  | number
  | label
  /-- A number with a register in parentheses, as in `4($t0)`. -/
  | based
deriving DecidableEq, Repr

namespace Kind

def name : Kind → Bytes
  | register => utf8 "register"
  | number => utf8 "number"
  | label => utf8 "label"
  | based => utf8 "number(register)"

/-- The number of a kind. -/
def code : Kind → Int
  | register => 0
  | number => 1
  | label => 2
  | based => 3

/-- The kind with a given number. -/
def ofCode? (k : Int) : Option Kind :=
  if k = 0 then some register
  else if k = 1 then some number
  else if k = 2 then some label
  else if k = 3 then some based
  else none

@[simp]
theorem ofCode?_code (k : Kind) : ofCode? k.code = some k := by cases k <;> rfl

theorem ofCode?_eq_none_iff (k : Int) : ofCode? k = none ↔ k < 0 ∨ 3 < k := by
  simp only [ofCode?]
  split
  · simp; omega
  · split
    · simp; omega
    · split
      · simp; omega
      · split
        · simp; omega
        · simp only [true_iff]; omega

end Kind

/-! ## Tables -/

/-- The operands of each mnemonic, in order. -/
abbrev Table (α : Type) := Dictionary (List α)

/-- A table of instructions whose operand places have known kinds. -/
abbrev Isa := Table Kind

namespace Table

/-- The table with every operand place described anew. -/
def mapOperands {α β : Type} (f : α → β) (t : Table α) : Table β := Dictionary.map (List.map f) t

/-- Whether two tables list as many mnemonics, and each of the one has the same operands in the other. -/
def sameAs {α : Type} [DecidableEq α] (a b : Table α) : Bool :=
  a.entries.length == b.entries.length &&
    a.entries.all fun (mnemonic, operands) => b.find? mnemonic == some operands

end Table

namespace Isa

/-- The built-in instruction table. -/
def default : Isa := Dictionary.ofList [
  (utf8 "add", [.register, .register, .register]),
  (utf8 "nand", [.register, .register, .register]),
  (utf8 "addi", [.register, .register, .number]),
  (utf8 "lw", [.register, .based]),
  (utf8 "sw", [.register, .based]),
  (utf8 "beq", [.register, .register, .label]),
  (utf8 "lea", [.register, .label]),
  (utf8 "jalr", [.register, .register]),
  (utf8 "halt", [])]

end Isa

/-! ## Catalogues -/

namespace Kind

/-- A sample operand of the kind, as it stands in a template. -/
def sample : Kind → Bytes
  | register => utf8 "\\$t0"
  | number => utf8 "0"
  | label => utf8 "label"
  | based => utf8 "0(\\$t0)"

end Kind

namespace Catalog

/-- One mnemonic of a table. -/
structure Entry where
  mnemonic : Bytes
  /-- The operand kinds by name. -/
  detail : Bytes
  /-- The instruction as a template. -/
  snippet : Bytes
deriving DecidableEq

/-- The operand kinds by name, in order. -/
def detail : List Kind → Bytes
  | [] => utf8 "no operands"
  | kinds => Bytes.join (utf8 ", ") (kinds.map Kind.name)

/-- The `i`-th place of a template. -/
def place (i : Nat) (kind : Kind) : Bytes := utf8 "$\x7b" ++ Bytes.decimal i ++ utf8 ":" ++ kind.sample ++ utf8 "\x7d"

/-- The instruction as a template. -/
def snippet (mnemonic : Bytes) : List Kind → Bytes
  | [] => mnemonic
  | kinds => mnemonic ++ utf8 " " ++ Bytes.join (utf8 ", ") (kinds.zipIdx.map fun (kind, i) => place (i + 1) kind)

def entry (mnemonic : Bytes) (kinds : List Kind) : Entry := ⟨mnemonic, detail kinds, snippet mnemonic kinds⟩

/-- The entries of a table, in order of mnemonic. -/
def ofIsa (isa : Isa) : List Entry := isa.entries.map fun (mnemonic, kinds) => entry mnemonic kinds

end Catalog

end AsmLens
