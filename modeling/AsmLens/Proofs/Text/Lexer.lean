import AsmLens.Proofs.Text.Utf8
import AsmLens.Text.Lexer

/-!
# What divisions are made of

Whatever the rules, the lexemes of a text spell it out (`flatten_of_lex?`): nothing is skipped and nothing read twice.
A division goes on behind the lexeme that is taken off as if the rest stood alone (`lex?_append`). A rule that takes
runs of a class told by octets takes runs of octets (`afterRun?_cons`).
-/

namespace AsmLens.Lexer

variable {κ : Type} {rules : List (Rule κ)}

theorem lexFrom?_eq_drop (rules : List (Rule κ)) (k : Nat) (s : Bytes) :
    lexFrom? rules k s = lex? rules (s.drop k) := by
  induction s generalizing k with
  | nil => cases k <;> rfl
  | cons b rest ih =>
    cases k with
    | zero => rfl
    | succ k => exact ih k

/-- Behind the lexeme that the first rule takes off, the rest is divided as if it stood alone. -/
theorem lex?_append {kind : κ} {text after : Bytes} (hne : text ≠ [])
    (h : firstMatch? rules (text ++ after) = some (kind, after)) :
    lex? rules (text ++ after) = (lex? rules after).map (⟨kind, text⟩ :: ·) := by
  obtain ⟨b, text, rfl⟩ := List.exists_cons_of_ne_nil hne
  have hlen : (text ++ after).length - after.length = text.length := by simp
  have hle : after.length ≤ (text ++ after).length := by simp
  rw [List.cons_append] at h ⊢
  simp only [lex?, lexFrom?, h, hlen, if_pos hle, List.take_left]
  rw [lexFrom?_eq_drop, List.drop_left]
  rfl

theorem flatten_of_lexFrom? {s : Bytes} : ∀ {k : Nat} {lexemes : List (Lexeme κ)}, lexFrom? rules k s = some lexemes →
    (lexemes.map (·.text)).flatten = s.drop k := by
  induction s with
  | nil =>
    intro k lexemes h
    obtain rfl : [] = lexemes := by cases k <;> exact Option.some.inj h
    simp
  | cons b rest ih =>
    intro k lexemes h
    cases k with
    | succ k => exact ih h
    | zero =>
      simp only [lexFrom?] at h
      split at h
      · cases h
      · split at h
        · obtain ⟨later, hlater, rfl⟩ := Option.map_eq_some_iff.1 h
          simp [ih hlater]
        · cases h

/-- The lexemes of a text spell it out. -/
theorem flatten_of_lex? {s : Bytes} {lexemes : List (Lexeme κ)} (h : lex? rules s = some lexemes) :
    (lexemes.map (·.text)).flatten = s := flatten_of_lexFrom? h

/-- A rule for a class that is told by octets takes the longest run of octets. -/
theorem afterRun?_cons {p : Char → Bool} {q : UInt8 → Bool} (h : Utf8.IsTold p q) (b : UInt8) (rest : Bytes) :
    afterRun? p (b :: rest) = if q b then some (rest.dropWhile q) else none := by
  rw [afterRun?, h.first]
  split
  · next hb =>
    rw [h.dropWhileFrom_eq, ← List.dropWhile_append_of_pos (h.others b rest hb), List.take_append_drop]
  · rfl

end AsmLens.Lexer
