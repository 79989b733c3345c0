import AsmLens.Bytes

/-!
# Registers and directives

The sixteen registers of the machine and the two data directives. Both are known by their exact names.
-/

namespace AsmLens

/-- A register of the machine, in order of name. -/
inductive Register
  | a0
  | a1
  | a2
  | assembler
  | frame
  | k0
  | returnAddress
  | s0
  | s1
  | s2
  | stack
  | t0
  | t1
  | t2
  | v0
  | zero
deriving DecidableEq, Repr

namespace Register

def name : Register → Bytes
  | a0 => utf8 "$a0"
  | a1 => utf8 "$a1"
  | a2 => utf8 "$a2"
  | assembler => utf8 "$at"
  | frame => utf8 "$fp"
  | k0 => utf8 "$k0"
  | returnAddress => utf8 "$ra"
  | s0 => utf8 "$s0"
  | s1 => utf8 "$s1"
  | s2 => utf8 "$s2"
  | stack => utf8 "$sp"
  | t0 => utf8 "$t0"
  | t1 => utf8 "$t1"
  | t2 => utf8 "$t2"
  | v0 => utf8 "$v0"
  | zero => utf8 "$zero"

/-- What the register is for, in a sentence for readers. -/
def description : Register → Bytes
  | a0 => utf8 "Argument Register. First function argument"
  | a1 => utf8 "Argument Register. Second function argument"
  | a2 => utf8 "Argument Register. Third function argument"
  | assembler => utf8 "Assembler Temporary. Reserved for pseudo-instruction expansion"
  | frame => utf8 "Frame Pointer Register. Contains the address of the current stack frame"
  | k0 => utf8 "Kernel Register. Reserved for the interrupt handler"
  | returnAddress => utf8 "Return Address Register. Contains the return address of the current function"
  | s0 | s1 | s2 => utf8 "Saved Register. Callee-saved"
  | stack => utf8 "Stack Pointer Register. Contains the address of the top of the stack"
  | t0 | t1 | t2 => utf8 "Temporary Register. Caller-saved"
  | v0 => utf8 "Return Value Register. Holds the value returned by a function"
  | zero => utf8 "Zero Register. Always evaluates to `0`"

/-- All registers, in order of name. -/
def all : List Register :=
  [a0, a1, a2, assembler, frame, k0, returnAddress, s0, s1, s2, stack, t0, t1, t2, v0, zero]

theorem mem_all (r : Register) : r ∈ all := by cases r <;> decide

def ofName? (s : Bytes) : Option Register := all.find? (·.name == s)

/-- Whether a text is the name of a register. -/
def isName (s : Bytes) : Bool := (ofName? s).isSome

theorem isName_iff (s : Bytes) : isName s = true ↔ ∃ r : Register, r.name = s := by
  simp only [isName, ofName?, List.find?_isSome, beq_iff_eq]
  exact ⟨fun ⟨r, _, h⟩ => ⟨r, h⟩, fun ⟨r, h⟩ => ⟨r, mem_all r, h⟩⟩

end Register

/-- A directive, which lays down data and whose operands are not checked. -/
inductive Directive
  | fill
  | word
deriving DecidableEq, Repr

namespace Directive

def name : Directive → Bytes
  | fill => utf8 ".fill"
  | word => utf8 ".word"

/-- All directives, in order of name. -/
def all : List Directive := [fill, word]

theorem mem_all (d : Directive) : d ∈ all := by cases d <;> decide

/-- Whether a text is the name of a directive. -/
def isName (s : Bytes) : Bool := all.any (·.name == s)

theorem isName_iff (s : Bytes) : isName s = true ↔ ∃ d : Directive, d.name = s := by
  simp only [isName, List.any_eq_true, beq_iff_eq]
  exact ⟨fun ⟨d, _, h⟩ => ⟨d, h⟩, fun ⟨d, h⟩ => ⟨d, mem_all d, h⟩⟩

end Directive

end AsmLens
