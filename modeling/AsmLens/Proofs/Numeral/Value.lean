import AsmLens.Check.Hover
import AsmLens.Proofs.Bytes
import AsmLens.Proofs.Numeral.Literal

/-!
# The value of a number

A number under a position is described by its value, which is read from the literal that announces its base and, should
that fail for whatever reason, from decimal digits. A literal out of range also fails; but then its digits, read as
decimals, are out of range as well (`le_of_literal_of_padded`), so that no literal is ever taken for another number
(`value?_eq_some_iff`).

The value is written in base ten and in base sixteen. Written digits make the number that they are written for
(`value_digits`), so both are literals of that number (`literal_decimal`, `literal_hexadecimal`).

* `hoverPiece?_number`: which pieces are described as numbers, and what the description shows.
-/

namespace AsmLens

namespace Numeral

/-- The integer that a text denotes: as a literal that announces its base or, if it is none, as a decimal. -/
def Denotes (s : Bytes) (v : Int) : Prop :=
  Signed Literal s v ∨ (¬ ∃ w, Signed Literal s w) ∧ Signed Padded s v

/-! ## One text, two readings -/

/-- Only a zero announces a base in digits. -/
theorem lead_eq_zero {lead : Bytes} {base : Nat} (h : (lead, base) ∈ leads) (hd : ∀ b ∈ lead, isDigit b = true) :
    lead = [48] ∧ base = 8 := by
  simp only [leads, List.mem_cons, Prod.mk.injEq, List.not_mem_nil, or_false] at h
  rcases h with ⟨rfl, rfl⟩ | ⟨rfl, rfl⟩ | ⟨rfl, rfl⟩ | ⟨rfl, rfl⟩ | ⟨rfl, rfl⟩ | ⟨rfl, rfl⟩ | ⟨rfl, rfl⟩
  iterate 6 exact absurd (hd _ (List.mem_cons_of_mem _ List.mem_cons_self)) (by decide)
  exact ⟨rfl, rfl⟩

/-- Digits that announce a base make at least as much in base ten. -/
theorem le_of_literal_of_padded {s : Bytes} {n m : Nat} (hn : Literal s n) (hm : Padded s m) : n ≤ m := by
  obtain ⟨-, hd, rfl⟩ := hm
  cases hn with
  | zero => exact Nat.zero_le _
  | decimal _ _ => exact Nat.le_refl _
  | @based lead base s hl _ =>
    obtain ⟨rfl, rfl⟩ := lead_eq_zero hl fun b hb => hd b (List.mem_append_left s hb)
    rw [List.singleton_append, value_zero_cons]
    exact Nat.ofDigits_monotone _ (by omega)

theorem Literal.unique {s : Bytes} {n m : Nat} (hn : Literal s n) (hm : Literal s m) : n = m := by
  rw [(literal_iff.1 hn).2.2.2, (literal_iff.1 hm).2.2.2]

theorem inRange_of_le {negative : Bool} {n m : Nat} (h : n ≤ m) (hm : InRange (withSign negative m)) :
    InRange (withSign negative n) := by
  cases negative <;> simp only [InRange, withSign, Bool.false_eq_true, if_false, if_true] at hm ⊢ <;> omega

/-- A literal whose digits are a decimal in range is itself in range. -/
theorem inRange_of_signed_padded {s : Bytes} {v w : Int} (hw : Signed Literal s w) (hv : Signed Padded s v)
    (hr : InRange v) : InRange w := by
  obtain ⟨n, hn, rfl⟩ := (signed_iff isUnsigned_literal).1 hw
  obtain ⟨m, hm, rfl⟩ := (signed_iff isUnsigned_padded).1 hv
  exact inRange_of_le (le_of_literal_of_padded hn hm) hr

theorem value?_eq_some_iff {s : Bytes} {v : Int} : value? s = some v ↔ Denotes s v ∧ InRange v := by
  have hsteps : value? s = some v ↔
      readLiteral s = .ok v ∨ (∀ w, readLiteral s ≠ .ok w) ∧ readDecimal s = .ok v := by
    rw [value?]
    cases readLiteral s with
    | ok w => simp
    | error e => cases readDecimal s <;> simp
  simp only [hsteps, Denotes, ne_eq, readLiteral_eq_ok_iff, readDecimal_eq_ok_iff]
  constructor
  · rintro (⟨hs, hv⟩ | ⟨hnone, hs, hv⟩)
    · exact ⟨.inl hs, hv⟩
    · exact ⟨.inr ⟨fun ⟨w, hw⟩ => hnone w ⟨hw, inRange_of_signed_padded hw hs hv⟩, hs⟩, hv⟩
  · rintro ⟨hs | ⟨hnone, hs⟩, hv⟩
    · exact .inl ⟨hs, hv⟩
    · exact .inr ⟨fun w hw => hnone ⟨w, hw.1⟩, hs, hv⟩

/-- A literal out of range has no value in any base. -/
theorem value?_eq_none_of_not_inRange {s : Bytes} {w : Int} (hw : Signed Literal s w) (hr : ¬ InRange w) :
    value? s = none := by
  rw [Option.eq_none_iff_forall_not_mem]
  intro v hv
  obtain ⟨hs | ⟨hnone, -⟩, hv⟩ := value?_eq_some_iff.1 hv
  · obtain ⟨n, hn, rfl⟩ := (signed_iff isUnsigned_literal).1 hs
    obtain ⟨m, hm, rfl⟩ := (signed_iff isUnsigned_literal).1 hw
    exact hr (hn.unique hm ▸ hv)
  · exact hnone ⟨w, hw⟩

/-! ## Written numbers -/

theorem value_concat {base d : Nat} {b : UInt8} (hd : digitValue? b = some d) (s : Bytes) :
    value base (s ++ [b]) = value base s * base + d := by
  simp only [value_eq_valueFrom, valueFrom, List.filterMap_append, List.foldl_append, List.filterMap_cons_some hd,
    List.filterMap_nil, List.foldl_cons, List.foldl_nil]

section Written

variable {base : Nat}

/-- The last digit comes off the end. -/
theorem digits_eq (hb : 1 < base) (n : Nat) : Bytes.digits base n =
    if n < base then [(Nat.digitChar n).toUInt8]
    else Bytes.digits base (n / base) ++ [(Nat.digitChar (n % base)).toUInt8] := by
  rw [Bytes.digits, Nat.toDigits_eq_if hb]
  split
  · rfl
  · rw [List.map_append]
    rfl

theorem digitValue?_digitChar {d : Nat} (h : d < 16) : digitValue? (Nat.digitChar d).toUInt8 = some d := by
  revert d
  decide

theorem digitChar_ne_zero {d : Nat} (hd : 0 < d) (h : d < 16) : (Nat.digitChar d).toUInt8 ≠ 48 := by
  intro hz
  have := digitValue?_digitChar h
  rw [hz] at this
  cases this
  exact absurd hd (by decide)

variable (hb : 1 < base) (h16 : base ≤ 16)

include hb h16

theorem value_digits (n : Nat) : value base (Bytes.digits base n) = n := by
  induction n using Nat.strongRecOn with
  | ind n ih =>
    rw [digits_eq hb]
    split
    · next h =>
      have := @value_concat base _ _ (digitValue?_digitChar (h.trans_le h16)) []
      rw [List.nil_append] at this
      rw [this]
      show 0 * base + n = n
      omega
    · next h =>
      have hlt : n / base < n := Nat.div_lt_self (by omega) hb
      rw [value_concat (digitValue?_digitChar ((Nat.mod_lt n (by omega)).trans_le h16)), ih _ hlt]
      exact Nat.div_add_mod' n base

theorem isDigitOf_of_mem_digits (n : Nat) : ∀ b ∈ Bytes.digits base n, IsDigitOf base b := by
  have hdigit {d : Nat} (hd : d < base) : IsDigitOf base (Nat.digitChar d).toUInt8 :=
    ⟨d, digitValue?_digitChar (hd.trans_le h16), hd⟩
  induction n using Nat.strongRecOn with
  | ind n ih =>
    rw [digits_eq hb]
    split
    · next h => exact List.forall_mem_singleton.2 (hdigit h)
    · next h =>
      have hlt : n / base < n := Nat.div_lt_self (by omega) hb
      rw [List.forall_mem_append, List.forall_mem_singleton]
      exact ⟨ih _ hlt, hdigit (Nat.mod_lt n (by omega))⟩

theorem head?_digits_ne_zero {n : Nat} (hn : 0 < n) : (Bytes.digits base n).head? ≠ some 48 := by
  induction n using Nat.strongRecOn with
  | ind n ih =>
    rw [digits_eq hb]
    split
    · next h => simpa using digitChar_ne_zero hn (h.trans_le h16)
    · next h =>
      have hlt : n / base < n := Nat.div_lt_self hn hb
      have hpos : 0 < n / base := Nat.div_pos (Nat.not_lt.1 h) (by omega)
      have hlater := ih _ hlt hpos
      cases hd : Bytes.digits base (n / base) with
      | nil => simp [Bytes.digits, Nat.toDigits_ne_nil] at hd
      | cons b s =>
        rw [hd] at hlater
        exact hlater

theorem grouped_digits (n : Nat) : Grouped base (Bytes.digits base n) :=
  grouped_of_isDigitOf (by simp [Bytes.digits, Nat.toDigits_ne_nil]) (isDigitOf_of_mem_digits hb h16 n)

end Written

theorem literal_decimal (n : Nat) : Literal (Bytes.decimal n) n := by
  by_cases hn : n = 0
  · rw [hn]
    exact .zero
  · have h := Literal.decimal (grouped_digits (by omega) (by omega) n)
      (head?_digits_ne_zero (by omega) (by omega) (Nat.pos_of_ne_zero hn))
    rwa [value_digits (by omega) (by omega)] at h

theorem literal_hexadecimal (n : Nat) : Literal (utf8 "0x" ++ Bytes.digits 16 n) n := by
  have hl : (utf8 "0x", 16) ∈ leads := by decide
  have h := Literal.based hl (.inl (grouped_digits (by omega) (by omega) n))
  rwa [value_digits (by omega) (by omega)] at h

theorem readLiteral_signedDecimal {v : Int} (h : InRange v) : readLiteral (Bytes.signedDecimal v) = .ok v := by
  refine readLiteral_eq_ok_iff.2 ⟨?_, h⟩
  have hlit := literal_decimal v.natAbs
  rw [Bytes.signedDecimal]
  split
  · next hneg =>
    have hv : v = -(v.natAbs : Int) := by omega
    conv_rhs => rw [hv]
    exact .minus hlit
  · next hpos =>
    have hv : v = (v.natAbs : Int) := by omega
    conv_rhs => rw [hv]
    exact .bare hlit

theorem readLiteral_hexadecimal {v : Int} (h : InRange v) :
    readLiteral (Hover.hexadecimal v) = .ok (if 0 ≤ v then v else v % 2 ^ 32) := by
  have hshown : (if 0 ≤ v then v else v % 2 ^ 32) = ((if v < 0 then v % 4294967296 else v).toNat : Int) := by
    split <;> split <;> omega
  rw [hshown, readLiteral_eq_ok_iff]
  refine ⟨.bare (literal_hexadecimal _), ?_⟩
  simp only [InRange] at h ⊢
  split <;> omega

end Numeral

open Numeral

/-! ## What is shown -/

namespace Analysis

theorem hoverPiece?_eq_value? (a : Analysis) {piece : Bytes} (hd : piece.head? ≠ some 36)
    (hl : a.labels.line? piece = none) : a.hoverPiece? piece = (value? piece).map .number := by
  rw [hoverPiece?, if_neg hd, hl]
  split
  · next h =>
    rw [List.isEmpty_iff.1 h]
    rfl
  · rfl

theorem markdown_number (v : Int) : (Hover.number v).markdown =
    utf8 "Integer Literal `" ++ Bytes.signedDecimal v ++ utf8 "` (`" ++ Hover.hexadecimal v ++ utf8 "`)" := by
  have hopen : utf8 "Integer Literal `" = utf8 "Integer Literal " ++ utf8 "`" := rfl
  have hbetween : utf8 "` (`" = utf8 "`" ++ (utf8 " (" ++ utf8 "`") := rfl
  have hclose : utf8 "`)" = utf8 "`" ++ utf8 ")" := rfl
  simp only [Hover.markdown, Hover.quoted, hopen, hbetween, hclose, List.append_assoc]

/-- A piece that begins with no `$` and is no label is described just if it denotes an integer of 64 bits, and as that
integer. The description shows it in base ten and in base sixteen, if it is negative by its low 32 bits; both are
literals that are read back as what they show. -/
theorem hoverPiece?_number (a : Analysis) {piece : Bytes} (hd : piece.head? ≠ some 36)
    (hl : a.labels.line? piece = none) :
    (∀ hover, a.hoverPiece? piece = some hover ↔ ∃ v, hover = .number v ∧ Denotes piece v ∧ InRange v) ∧
    (∀ v, Signed Literal piece v → ¬ InRange v → a.hoverPiece? piece = none) ∧
    ∀ v, a.hoverPiece? piece = some (.number v) → ∃ shown hex,
      (Hover.number v).markdown = utf8 "Integer Literal `" ++ shown ++ utf8 "` (`" ++ hex ++ utf8 "`)" ∧
      readLiteral shown = .ok v ∧ readLiteral hex = .ok (if 0 ≤ v then v else v % 2 ^ 32) := by
  have hsome (hover : Hover) :
      a.hoverPiece? piece = some hover ↔ ∃ v, hover = .number v ∧ Denotes piece v ∧ InRange v := by
    rw [hoverPiece?_eq_value? a hd hl, Option.map_eq_some_iff]
    simp only [value?_eq_some_iff]
    exact exists_congr fun v => by rw [and_comm, eq_comm]
  refine ⟨hsome, fun v hv hr => ?_, fun v hv => ?_⟩
  · rw [hoverPiece?_eq_value? a hd hl, value?_eq_none_of_not_inRange hv hr]
    rfl
  · obtain ⟨w, hw, -, hr⟩ := (hsome _).1 hv
    cases hw
    exact ⟨_, _, markdown_number v, readLiteral_signedDecimal hr, readLiteral_hexadecimal hr⟩

/-- A document with a negative operand in base sixteen. -/
def negativeOperand : Analysis := ofLines Isa.default [utf8 "addi $t0, $t0, -0x2A"]

theorem hoverPiece?_number_negativeOperand :
    (utf8 "-0x2A").head? ≠ some 36 ∧ negativeOperand.labels.line? (utf8 "-0x2A") = none ∧
      ∃ v, Denotes (utf8 "-0x2A") v ∧ v = -42 ∧ ∃ shown hex,
        (Hover.number v).markdown = utf8 "Integer Literal `" ++ shown ++ utf8 "` (`" ++ hex ++ utf8 "`)" ∧
        readLiteral shown = .ok v ∧ readLiteral hex = .ok 4294967254 := by
  have hd : (utf8 "-0x2A").head? ≠ some 36 := by decide
  have hl : negativeOperand.labels.line? (utf8 "-0x2A") = none := by decide
  obtain ⟨hsome, -, hshown⟩ := hoverPiece?_number negativeOperand hd hl
  have hhover : negativeOperand.hoverPiece? (utf8 "-0x2A") = some (.number (-42)) := by decide
  obtain ⟨v, hv, hdenotes, -⟩ := (hsome _).1 hhover
  cases hv
  exact ⟨hd, hl, -42, hdenotes, rfl, hshown _ hhover⟩

end Analysis

end AsmLens
