import AsmLens.Text.Utf8

/-!
# Division into lexemes

Rules take lexemes off the head of a text, one after the other, until nothing is left. They are tried in a fixed order,
and the first that applies counts. A text has no division if at some point no rule applies, or the first that does takes
nothing.
-/

namespace AsmLens.Lexer

variable {κ : Type}

/-- A stretch of a text, of some kind. -/
structure Lexeme (κ : Type) where
  kind : κ
  text : Bytes
deriving DecidableEq

/-- A rule that takes a lexeme off the head of a text. -/
structure Rule (κ : Type) where
  kind : κ
  /-- What follows the lexeme, if one stands there. -/
  after? : Bytes → Option Bytes

/-- What the first rule that applies takes off the head of a text, and what follows it. -/
def firstMatch? (rules : List (Rule κ)) (s : Bytes) : Option (κ × Bytes) :=
  rules.findSome? fun rule => (rule.after? s).map (rule.kind, ·)

/-- The lexemes of a text whose first `k` octets were read already. -/
def lexFrom? (rules : List (Rule κ)) : Nat → Bytes → Option (List (Lexeme κ))
  | _, [] => some []
  | k + 1, _ :: rest => lexFrom? rules k rest
  | 0, b :: rest =>
    match firstMatch? rules (b :: rest) with
    | none => none
    | some (kind, after) =>
      let n := rest.length - after.length
      if after.length ≤ rest.length then (lexFrom? rules n rest).map (⟨kind, b :: rest.take n⟩ :: ·) else none

/-- The lexemes of a text: at each point the first rule that applies takes one off. -/
def lex? (rules : List (Rule κ)) (s : Bytes) : Option (List (Lexeme κ)) := lexFrom? rules 0 s

/-- What follows the longest run of characters of a class, if one stands there. -/
def afterRun? (p : Char → Bool) : Bytes → Option Bytes
  | [] => none
  | b :: rest =>
    if p (Utf8.charAt b rest) then some (Utf8.dropWhileFrom p (Utf8.tailLength b rest) rest) else none

end AsmLens.Lexer
