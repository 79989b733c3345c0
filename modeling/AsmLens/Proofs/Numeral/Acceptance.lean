import AsmLens.Proofs.Numeral.Literal

/-!
# What is taken for a number

A text is taken for a number if one of its two readings gets through it, or runs out of range on the way. All integers
are taken for numbers, however large they are. But a reading ends with the first digit that is too much for 64 bits and
does not look at what follows, so that a text which begins with such digits is taken for a number too, whatever its
end is (`Overlong`).

* `isNumber_iff_magnitude`: the two readings, behind the sign that they share.
* `isNumber_iff_isInteger_or_overlong`: the texts taken for numbers are the integers and those texts.
-/

namespace AsmLens.Numeral

/-- An integer: an optional sign, and a literal that announces its base or decimal digits. -/
def IsInteger (s : Bytes) : Prop := ∃ v, Signed Literal s v ∨ Signed Padded s v

/-- An unsigned text that begins with digits too much for 64 bits, in the base that it announces with underscores
anywhere among them, or in base ten without; and the number that these digits make. -/
inductive Overlong : Bytes → Nat → Prop
  | decimal {s : Bytes} {n : Nat} (hz : s.head? ≠ some 48) (h : RunsOver 10 true s n) : Overlong s n
  | based {lead : Bytes} {base : Nat} {s : Bytes} {n : Nat} (hl : (lead, base) ∈ leads) (h : RunsOver base true s n) :
    Overlong (lead ++ s) n
  | padded {s : Bytes} {n : Nat} (h : RunsOver 10 false s n) : Overlong s n

theorem RunsOver.exists_cons {base : Nat} {underscores : Bool} {s : Bytes} {n : Nat}
    (h : RunsOver base underscores s n) : ∃ b t, s = b :: t ∧ IsReadable base underscores b := by
  obtain ⟨front, back, rfl, hread, rfl, hlimit⟩ := h
  cases front with
  | nil => exact absurd hlimit (Nat.not_le.2 magnitudeLimit_pos)
  | cons b front => exact ⟨b, front ++ back, rfl, hread b List.mem_cons_self⟩

theorem isUnsigned_overlong : IsUnsigned Overlong := by
  intro s n h
  cases h with
  | decimal hz h =>
    obtain ⟨b, t, rfl, hb⟩ := h.exists_cons
    exact ⟨b, t, rfl, ne_sign_of_isReadable hb⟩
  | @based lead base s n hl h =>
    obtain ⟨t, rfl⟩ := lead_eq_cons hl
    exact ⟨48, t ++ s, rfl, by decide⟩
  | padded h =>
    obtain ⟨b, t, rfl, hb⟩ := h.exists_cons
    exact ⟨b, t, rfl, ne_sign_of_isReadable hb⟩

/-! ## The two readings -/

/-- A sign and the signed range make no number of what is none. -/
theorem isRead_bind_signed {x : Except Failure Nat} {negative : Bool} :
    isRead (x.bind (signed negative)) = true ↔ (∃ n, x = .ok n) ∨ x = .error .outOfRange := by
  cases x with
  | error e => cases e <;> simp [Except.bind, isRead]
  | ok n =>
    refine iff_of_true ?_ (.inl ⟨n, rfl⟩)
    simp only [Except.bind, signed]
    split <;> split <;> rfl

theorem isNumber_iff_magnitude {s : Bytes} : isNumber s = true ↔
    ((∃ n, literalMagnitude (splitSign s).2 = .ok n) ∨ literalMagnitude (splitSign s).2 = .error .outOfRange) ∨
      (∃ n, decimalMagnitude (splitSign s).2 = .ok n) ∨ decimalMagnitude (splitSign s).2 = .error .outOfRange := by
  rw [isNumber, Bool.or_eq_true, readLiteral, readDecimal, isRead_bind_signed, isRead_bind_signed]

theorem literalMagnitude_of_literal {s : Bytes} {n : Nat} (h : Literal s n) :
    (∃ n, literalMagnitude s = .ok n) ∨ literalMagnitude s = .error .outOfRange := by
  by_cases hn : n < magnitudeLimit
  · exact .inl ⟨n, literalMagnitude_eq_ok_iff.2 ⟨h, hn⟩⟩
  · obtain ⟨-, hread, -, hvalue⟩ := literal_iff.1 h
    exact .inr (literalMagnitude_eq_outOfRange_iff.2 ⟨n, _, [], (List.append_nil _).symm, hread, hvalue, by omega⟩)

theorem decimalMagnitude_of_padded {s : Bytes} {n : Nat} (h : Padded s n) :
    (∃ n, decimalMagnitude s = .ok n) ∨ decimalMagnitude s = .error .outOfRange := by
  by_cases hn : n < magnitudeLimit
  · exact .inl ⟨n, decimalMagnitude_eq_ok_iff.2 ⟨h, hn⟩⟩
  · refine .inr (decimalMagnitude_eq_outOfRange_iff.2 ⟨n, s, [], (List.append_nil _).symm, ?_, h.2.2, by omega⟩)
    exact fun b hb => isReadable_ten_iff.2 (h.2.1 b hb)

theorem overlong_of_literalMagnitude {s : Bytes} (h : literalMagnitude s = .error .outOfRange) :
    ∃ n, Overlong s n := by
  obtain ⟨n, h⟩ := literalMagnitude_eq_outOfRange_iff.1 h
  by_cases hz : s.head? = some 48
  · obtain ⟨lead, base, digits, hl, hsplit, hs, -⟩ := exists_lead hz
    rw [hsplit] at h
    exact ⟨n, hs ▸ .based hl h⟩
  · rw [splitBase_of_head?_ne hz] at h
    exact ⟨n, .decimal hz h⟩

theorem literalMagnitude_of_runsOver_decimal {s : Bytes} {n : Nat} (hz : s.head? ≠ some 48)
    (h : RunsOver 10 true s n) : literalMagnitude s = .error .outOfRange := by
  rw [literalMagnitude_eq_outOfRange_iff, splitBase_of_head?_ne hz]
  exact ⟨n, h⟩

theorem literalMagnitude_of_runsOver_based {lead : Bytes} {base : Nat} {s : Bytes} {n : Nat}
    (hl : (lead, base) ∈ leads) (h : RunsOver base true s n) : literalMagnitude (lead ++ s) = .error .outOfRange := by
  obtain ⟨b, t, rfl, hb⟩ := h.exists_cons
  rw [literalMagnitude_eq_outOfRange_iff, splitBase_append hl hb]
  exact ⟨n, h⟩

/-- The texts that are taken for numbers are the integers, of any magnitude, and the texts that begin with digits too
much for 64 bits. -/
theorem isNumber_iff_isInteger_or_overlong (s : Bytes) :
    isNumber s = true ↔ IsInteger s ∨ ∃ v, Signed Overlong s v := by
  simp only [isNumber_iff_magnitude, IsInteger, signed_iff isUnsigned_literal, signed_iff isUnsigned_padded,
    signed_iff isUnsigned_overlong]
  constructor
  · rintro ((⟨n, h⟩ | h) | ⟨n, h⟩ | h)
    · exact .inl ⟨_, .inl ⟨n, (literalMagnitude_eq_ok_iff.1 h).1, rfl⟩⟩
    · obtain ⟨n, h⟩ := overlong_of_literalMagnitude h
      exact .inr ⟨_, n, h, rfl⟩
    · exact .inl ⟨_, .inr ⟨n, (decimalMagnitude_eq_ok_iff.1 h).1, rfl⟩⟩
    · obtain ⟨n, h⟩ := decimalMagnitude_eq_outOfRange_iff.1 h
      exact .inr ⟨_, n, .padded h, rfl⟩
  · rintro (⟨v, ⟨n, h, -⟩ | ⟨n, h, -⟩⟩ | ⟨v, n, h, -⟩)
    · exact .inl (literalMagnitude_of_literal h)
    · exact .inr (decimalMagnitude_of_padded h)
    · generalize (splitSign s).2 = t at h
      cases h with
      | decimal hz h => exact .inl (.inr (literalMagnitude_of_runsOver_decimal hz h))
      | based hl h => exact .inl (.inr (literalMagnitude_of_runsOver_based hl h))
      | padded h => exact .inr (.inr (decimalMagnitude_eq_outOfRange_iff.2 ⟨_, h⟩))

/-- Twenty digits and a letter. -/
def overlongTail : Bytes := utf8 "99999999999999999999z"

/-- The letter behind the digits goes unseen. -/
theorem not_isInteger_overlongTail : isNumber overlongTail = true ∧ ¬ IsInteger overlongTail := by
  refine ⟨by decide, ?_⟩
  have hz : ¬ IsReadable 10 true 122 := by
    rintro (⟨d, hd, hlt⟩ | ⟨-, hb⟩)
    · cases hd
      exact absurd hlt (by decide)
    · cases hb
  rintro ⟨v, h | h⟩
  · obtain ⟨n, h, -⟩ := (signed_iff isUnsigned_literal).1 h
    exact hz ((literal_iff.1 h).2.1 122 (by decide))
  · obtain ⟨n, h, -⟩ := (signed_iff isUnsigned_padded).1 h
    exact absurd (h.2.1 122 (by decide)) (by decide)

end AsmLens.Numeral
