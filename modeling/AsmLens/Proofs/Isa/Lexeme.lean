import AsmLens.Isa.Description
import AsmLens.Proofs.Text.Lexer

/-!
# Every pattern can be divided

The rules take either the first marker that stands at a point, or filling: a sigil that begins no marker, or everything
up to the next sigil. `lexemes` says so without going through the rules, and it cannot fail.

* What a rule leaves is a proper end of the pattern (`suffix_of_marker?`), so no rule takes nothing.
* Some rule applies wherever there is anything left, and takes what `next` says (`firstMatch?_cons`).
* `lex?_rules`: a division is always found, and it is `lexemes`.
* `flatten_lexemes`: the lexemes of a pattern spell it out.
-/

namespace AsmLens.Marker

open Lexer (firstMatch? lexFrom? lex?)

/-! ## The lexemes of a pattern -/

/-- The first marker that stands at the head of a pattern, and what follows it. -/
def marker? (s : Bytes) : Option (Kind × Bytes) :=
  match afterBased? s with
  | some rest => some (.based, rest)
  | none =>
    match afterRegister? s with
    | some rest => some (.register, rest)
    | none =>
      match afterNumber? s with
      | some rest => some (.number, rest)
      | none => (afterLabel? s).map ((.label, ·))

/-- The kind of the lexeme at the head of `b :: rest`, and how many octets of `rest` belong to it. -/
def next (b : UInt8) (rest : Bytes) : Option Kind × Nat :=
  match marker? (b :: rest) with
  | some (kind, after) => (some kind, rest.length - after.length)
  | none => (none, if isSigil b then 0 else (rest.takeWhile (!isSigil ·)).length)

/-- The lexemes of a pattern whose first `k` octets were read already. -/
def lexemesFrom : Nat → Bytes → List Lexeme
  | _, [] => []
  | k + 1, _ :: rest => lexemesFrom k rest
  | 0, b :: rest =>
    let (kind, n) := next b rest
    ⟨kind, b :: rest.take n⟩ :: lexemesFrom n rest

/-- The lexemes of a pattern: at each point the first marker that stands there, or filling up to the next sigil. -/
def lexemes (s : Bytes) : List Lexeme := lexemesFrom 0 s

/-! ## What rules leave -/

theorem suffix_of_afterRegister? {b : UInt8} {s after : Bytes} (h : afterRegister? (b :: s) = some after) :
    after <:+ s := by
  unfold afterRegister? at h
  split at h
  · next rest hs =>
    obtain ⟨-, rfl⟩ := List.cons.inj hs
    split at h
    · cases h
    · rw [← Option.some.inj h]
      exact List.dropWhile_suffix _
  · cases h

theorem eq_of_afterNumber? {s after : Bytes} (h : afterNumber? s = some after) : s = 35 :: 73 :: after := by
  unfold afterNumber? at h
  split at h
  · rw [Option.some.inj h]
  · cases h

theorem eq_of_afterLabel? {s after : Bytes} (h : afterLabel? s = some after) : s = 37 :: 79 :: after := by
  unfold afterLabel? at h
  split at h
  · rw [Option.some.inj h]
  · cases h

theorem suffix_of_cons_eq {b c d : UInt8} {s after : Bytes} (h : b :: s = c :: d :: after) : after <:+ s := by
  rw [(List.cons.inj h).2]
  exact List.suffix_cons d after

theorem suffix_of_afterByte? {b : UInt8} {s after : Bytes} (h : afterByte? b s = some after) : after <:+ s := by
  unfold afterByte? at h
  split at h
  · next c rest hs =>
    split at h
    · rw [← Option.some.inj h]
      exact (List.suffix_cons c rest).trans (hs ▸ List.dropWhile_suffix _)
    · cases h
  · cases h

theorem suffix_of_afterBased? {b : UInt8} {s after : Bytes} (h : afterBased? (b :: s) = some after) : after <:+ s := by
  obtain ⟨s₁, h₁, h⟩ := Option.bind_eq_some_iff.1 h
  obtain ⟨s₂, h₂, h⟩ := Option.bind_eq_some_iff.1 h
  obtain ⟨s₃, h₃, h₄⟩ := Option.bind_eq_some_iff.1 h
  have hname : s₃ <:+ s₂ := by
    cases hs : s₂.dropWhile isSpace with
    | nil =>
      rw [hs] at h₃
      cases h₃
    | cons c rest =>
      rw [hs] at h₃
      exact (suffix_of_afterRegister? h₃).trans ((List.suffix_cons c rest).trans (hs ▸ List.dropWhile_suffix _))
  have hclose : after <:+ s₂ := (suffix_of_afterByte? h₄).trans hname
  exact hclose.trans ((suffix_of_afterByte? h₂).trans (suffix_of_cons_eq (eq_of_afterNumber? h₁)))

theorem suffix_of_marker? {b : UInt8} {s after : Bytes} {kind : Kind} (h : marker? (b :: s) = some (kind, after)) :
    after <:+ s := by
  unfold marker? at h
  split at h
  · next hm =>
    obtain ⟨-, rfl⟩ : Kind.based = kind ∧ _ = after := by simpa using h
    exact suffix_of_afterBased? hm
  · split at h
    · next hm =>
      obtain ⟨-, rfl⟩ : Kind.register = kind ∧ _ = after := by simpa using h
      exact suffix_of_afterRegister? hm
    · split at h
      · next hm =>
        obtain ⟨-, rfl⟩ : Kind.number = kind ∧ _ = after := by simpa using h
        exact suffix_of_cons_eq (eq_of_afterNumber? hm)
      · obtain ⟨rest, hm, hr⟩ := Option.map_eq_some_iff.1 h
        obtain ⟨-, rfl⟩ : Kind.label = kind ∧ rest = after := by simpa using hr
        exact suffix_of_cons_eq (eq_of_afterLabel? hm)

/-! ## The rules applied -/

/-- The rules before the last find the first marker, and the last takes what begins no marker. -/
theorem firstMatch?_rules (s : Bytes) :
    firstMatch? rules s = ((marker? s).map fun m => (some m.1, m.2)).or ((afterFilling? s).map (none, ·)) := by
  simp only [firstMatch?, rules, List.findSome?_cons, List.findSome?_nil, marker?]
  cases afterBased? s with
  | some rest => rfl
  | none =>
    cases afterRegister? s with
    | some rest => rfl
    | none =>
      cases afterNumber? s with
      | some rest => rfl
      | none =>
        cases afterLabel? s with
        | some rest => rfl
        | none => cases afterFilling? s <;> rfl

/-- Wherever anything is left some rule applies. -/
theorem firstMatch?_cons (b : UInt8) (rest : Bytes) :
    firstMatch? rules (b :: rest) = some ((next b rest).1, rest.drop (next b rest).2) ∧
      (next b rest).2 ≤ rest.length := by
  rw [firstMatch?_rules, next]
  cases hm : marker? (b :: rest) with
  | some m =>
    obtain ⟨kind, after⟩ := m
    have hsuffix := suffix_of_marker? hm
    exact ⟨by rw [← List.suffix_iff_eq_drop.1 hsuffix]; rfl, Nat.sub_le _ _⟩
  | none =>
    cases hb : isSigil b with
    | true => simp [afterFilling?, hb]
    | false =>
      refine ⟨by simp [afterFilling?, hb, drop_length_takeWhile], ?_⟩
      exact (List.takeWhile_prefix _).length_le

/-- The division is found and cannot fail. -/
theorem lexFrom?_rules (k : Nat) (s : Bytes) : lexFrom? rules k s = some (lexemesFrom k s) := by
  induction s generalizing k with
  | nil => cases k <;> rfl
  | cons b rest ih =>
    cases k with
    | succ k => exact ih k
    | zero =>
      obtain ⟨hmatch, hle⟩ := firstMatch?_cons b rest
      have hn : rest.length - (rest.drop (next b rest).2).length = (next b rest).2 := by
        rw [List.length_drop]
        omega
      have hshort : (rest.drop (next b rest).2).length ≤ rest.length := by
        rw [List.length_drop]
        omega
      simp only [lexFrom?, lexemesFrom, hmatch, hn, if_pos hshort, ih, Option.map_some]

/-- Every pattern has a division, its lexemes. -/
theorem lex?_rules (s : Bytes) : lex? rules s = some (lexemes s) := lexFrom?_rules 0 s

theorem flatten_lexemes (s : Bytes) : ((lexemes s).map (·.text)).flatten = s := Lexer.flatten_of_lex? (lex?_rules s)

end AsmLens.Marker
