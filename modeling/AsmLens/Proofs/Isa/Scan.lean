import AsmLens.Proofs.Isa.Marker
import AsmLens.Proofs.Text.Utf8

/-!
# Patterns scanned character by character

The division of a pattern takes filling off in long stretches. No marker is lost by that: the markers are those that a
plain scan finds, which looks for a marker at each character and goes on behind it, or to the next character if there is
none (`kindsIn_eq_scan`).

Likewise the escapes of a pattern are replaced all at once, three kinds of them side by side. The outcome is that of
removing `\s*` first and every backslash then (`normalize_eq_without`).

* `lexer_findsMarkers`: both for every pattern, with the division that never fails.
-/

namespace AsmLens

/-! ## Occurrences removed -/

namespace Bytes

/-- The text without the leftmost occurrences of `w` that do not overlap. The first `k` octets belong to one. -/
def withoutFrom (w : Bytes) : Nat → Bytes → Bytes
  | _, [] => []
  | k + 1, _ :: rest => withoutFrom w k rest
  | 0, b :: rest =>
    if w.isPrefixOf (b :: rest) then withoutFrom w (w.length - 1) rest else b :: withoutFrom w 0 rest

/-- The text without the leftmost occurrences of `w` that do not overlap. -/
def without (w s : Bytes) : Bytes := withoutFrom w 0 s

theorem withoutFrom_eq_drop (w : Bytes) (k : Nat) (s : Bytes) : withoutFrom w k s = without w (s.drop k) := by
  induction s generalizing k with
  | nil => cases k <;> rfl
  | cons b s ih =>
    cases k with
    | zero => rfl
    | succ k => exact ih k

theorem without_append {w : Bytes} (hw : w ≠ []) (s : Bytes) : without w (w ++ s) = without w s := by
  obtain ⟨b, w', rfl⟩ := List.exists_cons_of_ne_nil hw
  have hmatch : (b :: w').isPrefixOf (b :: (w' ++ s)) = true := List.isPrefixOf_iff_prefix.2 (List.prefix_append _ _)
  rw [without, List.cons_append, withoutFrom, if_pos hmatch, withoutFrom_eq_drop]
  simp

theorem without_cons {w : Bytes} {b : UInt8} {s : Bytes} (h : ¬w <+: b :: s) :
    without w (b :: s) = b :: without w s := by
  rw [without, withoutFrom, if_neg (by simpa [List.isPrefixOf_iff_prefix] using h)]
  rfl

end Bytes

namespace Marker

open Lexer (lex?)

/-! ## Escapes -/

/-- Escapes replaced side by side are escapes removed one kind after the other. -/
theorem filter_expandEscapes (s : Bytes) :
    (expandEscapes s).filter (· != 92) = (Bytes.without (utf8 "\\s*") s).filter (· != 92) := by
  have hspaces : utf8 "\\s*" = [92, 115, 42] := by decide
  rw [hspaces]
  fun_induction expandEscapes s with
  | case1 rest ih => rw [ih, ← Bytes.without_append (w := [92, 115, 42]) (by decide) rest]; rfl
  | case2 rest ih =>
    rw [Bytes.without_cons (by simp), Bytes.without_cons (by simp)]
    simp [ih]
  | case3 rest ih =>
    rw [Bytes.without_cons (by simp), Bytes.without_cons (by simp)]
    simp [ih]
  | case4 b rest h₁ h₂ h₃ ih =>
    have hb : ¬[92, 115, 42] <+: b :: rest := by
      rintro ⟨t, ht⟩
      obtain ⟨rfl, rfl⟩ := List.cons.inj ht
      exact h₁ t rfl rfl
    rw [Bytes.without_cons hb, List.filter_cons, List.filter_cons, ih]
  | case5 => rfl

/-- A pattern is stripped of its escapes by removing `\s*` and then every backslash. -/
theorem normalize_eq_without (s : Bytes) :
    normalize s = (Bytes.without (utf8 "\\s*") (Blank.trim s)).filter (· != 92) :=
  filter_expandEscapes (Blank.trim s)

example : normalize (utf8 " \\\\s*s* ") = utf8 "s*" := by decide +kernel

/-! ## The scan -/

/-- The markers that a scan finds in a text whose first `k` octets were read already. -/
def scanFrom : Nat → Bytes → List Kind
  | _, [] => []
  | k + 1, _ :: rest => scanFrom k rest
  | 0, b :: rest =>
    match marker? (b :: rest) with
    | some (kind, after) => kind :: scanFrom (rest.length - after.length) rest
    | none => scanFrom (Utf8.tailLength b rest) rest

/-- The markers that a scan from left to right finds: at each point the first of the four kinds of marker that stands
there, behind which it goes on; if none does it goes on to the next character. -/
def scan (s : Bytes) : List Kind := scanFrom 0 s

theorem isSigil_of_le {b : UInt8} (h : 0x80 ≤ b) : isSigil b = false := by
  simp only [isSigil]
  grind

/-- Filling is skipped octet by octet as well as in one stretch. -/
theorem kindsIn_cons_of_marker?_eq_none {b : UInt8} {s : Bytes} (h : marker? (b :: s) = none) :
    kindsIn (b :: s) = kindsIn s := by
  cases hb : isSigil b with
  | true =>
    have hnext : next b s = (none, 0) := by simp only [next, h, hb, if_true]
    rw [kindsIn_cons, hnext]
    rfl
  | false =>
    have hnext : next b s = (none, (s.takeWhile (!isSigil ·)).length) := by
      simp only [next, h, hb, Bool.false_eq_true, if_false]
    have hrun : ∀ c ∈ s.takeWhile (!isSigil ·), isSigil c = false := fun c hc => by
      simpa using List.mem_takeWhile_imp hc
    have hstop : ∀ c ∈ (s.dropWhile (!isSigil ·)).head?, isSigil c = true := fun c hc => by
      simpa using head?_dropWhile_false (!isSigil ·) s c hc
    have hskip := kindsIn_append_filling hrun hstop
    rw [List.takeWhile_append_dropWhile] at hskip
    rw [kindsIn_cons, hnext, drop_length_takeWhile, hskip]
    rfl

theorem kindsIn_drop {s : Bytes} {k : Nat} (h : ∀ c ∈ s.take k, isSigil c = false) :
    kindsIn (s.drop k) = kindsIn s := by
  induction s generalizing k with
  | nil => simp
  | cons b s ih =>
    cases k with
    | zero => rfl
    | succ k =>
      have hb : isSigil b = false := h b (by simp)
      rw [List.drop_succ_cons, ih fun c hc => h c (by simp [hc]),
        kindsIn_cons_of_marker?_eq_none (marker?_cons_of_not_isSigil hb s)]

theorem scanFrom_eq (k : Nat) (s : Bytes) : scanFrom k s = kindsIn (s.drop k) := by
  induction s generalizing k with
  | nil => cases k <;> rfl
  | cons b s ih =>
    cases k with
    | succ k => exact ih k
    | zero =>
      rw [scanFrom, List.drop_zero]
      cases hm : marker? (b :: s) with
      | some m =>
        obtain ⟨kind, after⟩ := m
        have hnext : next b s = (some kind, s.length - after.length) := by rw [next, hm]
        rw [kindsIn_cons, hnext]
        simp only [ih]
        rfl
      | none =>
        have htail : ∀ c ∈ s.take (Utf8.tailLength b s), isSigil c = false := fun c hc =>
          isSigil_of_le (Utf8.le_of_mem_take_tailLength hc)
        simp only [ih]
        rw [kindsIn_drop htail, kindsIn_cons_of_marker?_eq_none hm]

/-- The markers of a text are those that a scan finds. -/
theorem kindsIn_eq_scan (s : Bytes) : kindsIn s = scan s := (scanFrom_eq 0 s).symm

/-- For every pattern: its escapes are removed as if `\s*` went first and then every backslash, what is left is divided
without fail into lexemes that spell it out, and its operands are the markers that a scan from left to right finds. -/
theorem lexer_findsMarkers (s : Bytes) :
    normalize s = (Bytes.without (utf8 "\\s*") (Blank.trim s)).filter (· != 92) ∧
      (∃ lexemes, lex? rules (normalize s) = some lexemes ∧ (lexemes.map (·.text)).flatten = normalize s) ∧
      kinds s = scan (normalize s) := by
  refine ⟨normalize_eq_without s, ⟨lexemes (normalize s), lex?_rules _, flatten_lexemes _⟩, ?_⟩
  rw [kinds_eq, kindsIn_eq_scan]
  rfl

end Marker

end AsmLens
