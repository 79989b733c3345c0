import AsmLens.Proofs.Check.Accepted
import AsmLens.Proofs.Check.Reported
import AsmLens.Proofs.Numeral.Acceptance

/-!
# Targets that fit and are unknown

The last operand of a branch or jump is looked at twice: against the kind that the table declares for its place, and as
a target, which has to begin with `$`, to be a number or to be a label. What fits its kind is a known target, with two
exceptions (`isKnownTarget_iff_of_fits`). The first check does not mind parentheses around a register, the second does
not look behind them; and a number with a register in parentheses is nothing to the second. An offset too large for
64 bits escapes even so, as its digits alone are taken for a number (`isNumber_based`). There is nothing to trim off a
target (`trimEnd_comma_of_mem_words`).

* `undefinedLabel_iff_of_fits`: on a line whose operands all fit, a target is reported as an undefined label just if it
  is one of the exceptions.
-/

namespace AsmLens

namespace Numeral

section Based

variable {digits rest : Bytes} (hd : ∀ b ∈ digits, isDigit b = true)

theorem not_isReadable_parenthesis {base : Nat} {underscores : Bool} : ¬ IsReadable base underscores 40 := by
  rintro (⟨d, hd, -⟩ | ⟨-, hb⟩)
  · cases hd
  · cases hb

/-- No digit that runs over stands behind the parenthesis. -/
theorem le_value_of_runsOver {base : Nat} {underscores : Bool} {n : Nat} (hbase : base ≤ 10)
    (h : RunsOver base underscores (digits ++ 40 :: rest) n) : magnitudeLimit ≤ value 10 digits := by
  obtain ⟨front, back, hs, hread, rfl, hlimit⟩ := h
  have hfront : ∃ x, digits = front ++ x := by
    rcases List.append_eq_append_iff.1 hs with ⟨x, hf, hx⟩ | ⟨x, hf, -⟩
    · cases x with
      | nil => exact ⟨[], by rw [hf]; simp⟩
      | cons b x =>
        obtain ⟨rfl, -⟩ := List.cons.inj hx
        exact absurd (hread 40 (by rw [hf]; simp)) not_isReadable_parenthesis
    · exact ⟨x, hf⟩
  obtain ⟨x, rfl⟩ := hfront
  calc magnitudeLimit ≤ value base front := hlimit
    _ ≤ value 10 front := Nat.ofDigits_monotone _ hbase
    _ ≤ value 10 (front ++ x) := value_le_append (by omega) front x

include hd

/-- Digits in front of a parenthesis announce base ten, or base eight by a zero in front of them. -/
theorem splitBase_based (hne : digits ≠ []) : ∃ base later, base ≤ 10 ∧ value 10 later = value 10 digits ∧
    splitBase (digits ++ 40 :: rest) = (base, later ++ 40 :: rest) := by
  obtain ⟨b, later, rfl⟩ := List.exists_cons_of_ne_nil hne
  obtain ⟨-, hlater⟩ := List.forall_mem_cons.1 hd
  by_cases hb : b = 48
  · subst hb
    refine ⟨8, later, by omega, (value_zero_cons 10 later).symm, ?_⟩
    cases later with
    | nil => exact splitBase_zero (by decide) rest
    | cons c later => exact splitBase_zero (lowercase_ne_of_isDigit (hlater c List.mem_cons_self)) _
  · exact ⟨10, b :: later, by omega, rfl, splitBase_of_head?_ne (by simpa using hb)⟩

/-- A number with something in parentheses behind it is taken for a number just if its digits run over. -/
theorem isNumber_based {sign : Bytes} (hs : sign = [] ∨ sign = [43] ∨ sign = [45]) (hne : digits ≠ []) :
    isNumber (sign ++ (digits ++ 40 :: rest)) = true ↔ magnitudeLimit ≤ value 10 digits := by
  obtain ⟨base, later, hbase, hvalue, hsplit⟩ := @splitBase_based digits rest hd hne
  rw [isNumber_iff_magnitude, Check.splitSign_append hs hne hd]
  constructor
  · rintro ((⟨n, h⟩ | h) | ⟨n, h⟩ | h)
    · have hread := (literal_iff.1 (literalMagnitude_eq_ok_iff.1 h).1).2.1
      rw [hsplit] at hread
      exact absurd (hread 40 (by simp)) not_isReadable_parenthesis
    · rw [literalMagnitude_eq_outOfRange_iff, hsplit] at h
      obtain ⟨n, h⟩ := h
      exact hvalue ▸ le_value_of_runsOver hbase h
    · have hread := (decimalMagnitude_eq_ok_iff.1 h).1.2.1
      exact absurd (hread 40 (by simp)) (by decide)
    · obtain ⟨n, h⟩ := decimalMagnitude_eq_outOfRange_iff.1 h
      exact le_value_of_runsOver (Nat.le_refl 10) h
  · intro hlimit
    refine .inr (.inr (decimalMagnitude_eq_outOfRange_iff.2 ⟨_, digits, _, rfl, ?_, rfl, hlimit⟩))
    exact fun b hb => isReadable_ten_iff.2 (hd b hb)

end Based

end Numeral

namespace Check

open Shape

/-- The operands that fit their kind and are unknown as targets: a register behind a parenthesis, and a number that 64
bits hold with a register in parentheses. -/
inductive Mistaken : Kind → Bytes → Prop
  | wrapped {b : UInt8} {s : Bytes} (hb : isParenthesis b = true) : Mistaken .register (b :: s)
  | based {sign digits rest : Bytes} (hs : sign = [] ∨ sign = [43] ∨ sign = [45]) (hne : digits ≠ [])
    (hd : ∀ b ∈ digits, isDigit b = true) (hv : Numeral.value 10 digits < 2 ^ 64) :
    Mistaken .based (sign ++ (digits ++ 40 :: rest))

theorem not_isDefined_of_mem {lines : List Bytes} {t : Bytes} {b : UInt8} (hb : b ∈ t) (hw : isWordByte b = false) :
    (Labels.ofLines lines).isDefined t = false := by
  rw [Bool.eq_false_iff]
  intro hc
  rw [(Labels.isWordByte_of_isDefined hc).2 b hb] at hw
  cases hw

/-- A register in parentheses is a known target just if no parenthesis stands in front. -/
theorem isKnownTarget_iff_of_register {lines : List Bytes} {t : Bytes}
    (h : fits (Labels.ofLines lines) .register t = true) :
    isKnownTarget (Labels.ofLines lines) t = true ↔ ¬ Mistaken .register t := by
  rw [fits, isName_eq_true_iff] at h
  obtain ⟨r, hr⟩ := h
  obtain ⟨tail, hname, -, -⟩ := r.name_eq_cons
  rw [hname] at hr
  cases t with
  | nil => cases hr
  | cons b s =>
    cases hb : isParenthesis b with
    | true =>
      have hhead : ((b :: s).head? == some 36) = false := by simpa using isParenthesis_ne_dollar hb
      refine iff_of_false ?_ fun hm => hm (.wrapped hb)
      rw [isKnownTarget, hhead, isNumber_parenthesis hb,
        not_isDefined_of_mem List.mem_cons_self (isParenthesis_not_isWordByte hb)]
      decide
    | false =>
      rw [List.filter_cons_of_pos (by simp [hb])] at hr
      obtain ⟨rfl, -⟩ := List.cons.inj hr
      refine iff_of_true rfl ?_
      rintro ⟨hc⟩
      rw [hb] at hc
      cases hc

/-- A number with a register is a known target just if its digits run over. -/
theorem isKnownTarget_iff_of_based {lines : List Bytes} {t : Bytes} (h : fits (Labels.ofLines lines) .based t = true) :
    isKnownTarget (Labels.ofLines lines) t = true ↔ ¬ Mistaken .based t := by
  obtain ⟨sign, digits, r, hs, hne, hd, rfl⟩ := fits_based_iff.1 h
  rw [List.append_assoc]
  have hlimit : Numeral.magnitudeLimit = 2 ^ 64 := rfl
  have hhead : ((sign ++ (digits ++ 40 :: (r.name ++ [41]))).head? == some 36) = false := by
    obtain ⟨b, digits, rfl⟩ := List.exists_cons_of_ne_nil hne
    rcases hs with rfl | rfl | rfl
    · have hb : b ≠ 36 := by
        rintro rfl
        exact absurd (hd 36 List.mem_cons_self) (by decide)
      simpa using hb
    · rfl
    · rfl
  rw [isKnownTarget, hhead, not_isDefined_of_mem (b := 40) (by simp) (by decide), Bool.false_or, Bool.or_false]
  constructor
  · intro hnumber hm
    generalize sign ++ (digits ++ 40 :: (r.name ++ [41])) = t at hnumber hm
    cases hm with
    | based hs hne hd hv =>
      have hover := (Numeral.isNumber_based hd hs hne).1 hnumber
      omega
  · intro hm
    rw [Numeral.isNumber_based hd hs hne]
    by_contra hlt
    exact hm (.based hs hne hd (by omega))

/-- What fits its kind is a known target or one of the exceptions. -/
theorem isKnownTarget_iff_of_fits {lines : List Bytes} {kind : Kind} {t : Bytes}
    (h : fits (Labels.ofLines lines) kind t = true) :
    isKnownTarget (Labels.ofLines lines) t = true ↔ ¬ Mistaken kind t := by
  cases kind with
  | register => exact isKnownTarget_iff_of_register h
  | based => exact isKnownTarget_iff_of_based h
  | number =>
    rw [fits] at h
    refine iff_of_true (by rw [isKnownTarget, h, Bool.or_true, Bool.true_or]) ?_
    rintro ⟨⟩
  | label =>
    rw [fits] at h
    refine iff_of_true (by rw [isKnownTarget, h, Bool.or_true]) ?_
    rintro ⟨⟩

/-! ## Lines and documents -/

/-- A word is not empty and ends in no comma, so a target is looked at as it stands. -/
theorem trimEnd_comma_of_mem_words {line : Bytes} {w : Word} (h : w ∈ (Line.ofBytes line).words) :
    w.text ≠ [] ∧ Bytes.trimEnd (· == 44) w.text = w.text := by
  refine ⟨(Line.standsIn_of_mem_words h).2, Bytes.trimEnd_eq_self_iff.2 fun b hb => ?_⟩
  have hsep := Source.not_isSeparator_of_mem_runs (Source.mem_runs_of_mem_words h) b (List.mem_of_getLast? hb)
  refine beq_eq_false_iff_ne.2 ?_
  rintro rfl
  cases hsep

/-- Nothing but a target is reported as an undefined label. -/
theorem reported_undefinedLabel_iff {isa : Isa} {labels : Labels} {mnemonic w : Word} {operands : List Word}
    {name : Bytes} (hl : IsLegal isa mnemonic.text) :
    Reported isa labels (mnemonic :: operands) w (.undefinedLabel name) ↔ takesTarget mnemonic.text = true ∧
      operands.getLast? = some w ∧ ¬ isKnownTarget labels w.text = true ∧ w.text = name := by
  constructor
  · intro h
    obtain ⟨rfl, hlast, ⟨m, hm, ht⟩, hu⟩ := h.justified
    cases hm
    exact ⟨ht, hlast, hu, rfl⟩
  · rintro ⟨ht, hlast, hu, rfl⟩
    exact .undefinedLabel hl ht hlast hu

end Check

open Check

/-- On a line whose mnemonic is declared with as many operands as it has, and whose operands all fit, an undefined
label is reported just if the mnemonic takes a target and that is a register behind a parenthesis, or a number that 64
bits hold with a register in parentheses. -/
theorem undefinedLabel_iff_of_fits (isa : Isa) (raw : List Bytes) {i : Nat} {line : Bytes} (hline : raw[i]? = some line)
    {mnemonic : Word} {operands : List Word} (hwords : (Line.ofBytes line).words = mnemonic :: operands)
    {kinds : List Kind} (hdeclared : isa.find? mnemonic.text = some kinds) (hcount : operands.length = kinds.length)
    (hfits : ∀ k kind operand, kinds[k]? = some kind → operands[k]? = some operand →
      operandFinding? (Analysis.ofLines isa raw).labels kind (k + 1) operand.text = none) :
    (∃ d ∈ (Analysis.ofLines isa raw).diagnostics, d.line = i ∧ ∃ name, d.finding = .undefinedLabel name) ↔
      takesTarget mnemonic.text = true ∧ ∃ kind target, kinds.getLast? = some kind ∧
        operands.getLast? = some target ∧ Mistaken kind target.text := by
  have hreported (name : Bytes) :
      (∃ d ∈ (Analysis.ofLines isa raw).diagnostics, d.line = i ∧ d.finding = .undefinedLabel name) ↔
        takesTarget mnemonic.text = true ∧ ∃ target, operands.getLast? = some target ∧
          ¬ isKnownTarget (Labels.ofLines raw) target.text = true ∧ target.text = name := by
    have hl : IsLegal isa mnemonic.text := .inl (by rw [hdeclared]; rfl)
    simp only [Analysis.exists_diagnostic_iff hline, hwords, reported_undefinedLabel_iff hl, exists_and_left]
  -- The last operand fits the last kind.
  have hlast {kind : Kind} {target : Word} (hk : kinds.getLast? = some kind) (ht : operands.getLast? = some target) :
      isKnownTarget (Labels.ofLines raw) target.text = true ↔ ¬ Mistaken kind target.text := by
    rw [List.getLast?_eq_getElem?] at hk ht
    rw [hcount] at ht
    exact isKnownTarget_iff_of_fits (operandFinding?_eq_none_iff.1 (hfits _ kind target hk ht))
  constructor
  · rintro ⟨d, hd, hi, name, hname⟩
    obtain ⟨htakes, target, ht, hunknown, -⟩ := (hreported name).1 ⟨d, hd, hi, hname⟩
    have hne : kinds ≠ [] := by
      rintro rfl
      rw [List.length_eq_zero_iff.1 hcount] at ht
      cases ht
    refine ⟨htakes, _, target, List.getLast?_eq_getLast_of_ne_nil hne, ht, ?_⟩
    by_contra hm
    exact hunknown ((hlast (List.getLast?_eq_getLast_of_ne_nil hne) ht).2 hm)
  · rintro ⟨htakes, kind, target, hk, ht, hm⟩
    have hunknown : ¬ isKnownTarget (Labels.ofLines raw) target.text = true := fun hc => (hlast hk ht).1 hc hm
    obtain ⟨d, hd, hi, hname⟩ := (hreported target.text).2 ⟨htakes, target, ht, hunknown, rfl⟩
    exact ⟨d, hd, hi, target.text, hname⟩

/-- A jump to a register in parentheses. -/
def wrappedTarget : Bytes := utf8 "jalr $ra, ($t0)"

/-- The operands of the jump. -/
def wrappedOperands : List Word := [⟨utf8 "$ra", 5⟩, ⟨utf8 "($t0)", 10⟩]

theorem undefinedLabel_iff_of_fits_wrappedTarget :
    (∀ k kind operand, [Kind.register, .register][k]? = some kind → wrappedOperands[k]? = some operand →
      operandFinding? (Analysis.ofLines Isa.default [wrappedTarget]).labels kind (k + 1) operand.text = none) ∧
      ∃ d ∈ (Analysis.ofLines Isa.default [wrappedTarget]).diagnostics,
        d.line = 0 ∧ ∃ name, d.finding = .undefinedLabel name := by
  have hfits (k : Nat) (kind : Kind) (operand : Word) (hk : [Kind.register, .register][k]? = some kind)
      (ho : wrappedOperands[k]? = some operand) :
      operandFinding? (Analysis.ofLines Isa.default [wrappedTarget]).labels kind (k + 1) operand.text = none := by
    match k with
    | 0 | 1 =>
      cases hk
      cases ho
      decide +kernel
    | k + 2 => cases hk
  have hwords : (Line.ofBytes wrappedTarget).words = ⟨utf8 "jalr", 0⟩ :: wrappedOperands := by decide +kernel
  have h := undefinedLabel_iff_of_fits Isa.default [wrappedTarget] (i := 0) rfl hwords (by decide +kernel) rfl hfits
  exact ⟨hfits, h.2 ⟨by decide +kernel, _, _, rfl, rfl, .wrapped rfl⟩⟩

/-- Both operands fit their kinds, and the target is reported all the same. -/
theorem undefinedLabel_wrappedTarget :
    Isa.default.find? (utf8 "jalr") = some [.register, .register] ∧
      (Line.ofBytes wrappedTarget).words = ⟨utf8 "jalr", 0⟩ :: wrappedOperands ∧
      declaredDiagnostics (Labels.ofLines [wrappedTarget]) 0 ⟨utf8 "jalr", 0⟩ [.register, .register]
        wrappedOperands = [] ∧
      (Analysis.ofLines Isa.default [wrappedTarget]).diagnostics = [⟨0, 10, 15, .undefinedLabel (utf8 "($t0)")⟩] := by
  decide +kernel

end AsmLens
