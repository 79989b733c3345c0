import AsmLens.Proofs.Check.Findings
import Mathlib.Data.List.Basic

/-!
# The accepted language

A document gets no diagnostics under the built-in table just if every line of it is one of a few shapes (`Accepted`),
given here by the texts of its words and without reference to the checks (`no_diagnostics_iff_accepted`).

Three checks that overlap are brought together for this. Under the first, parentheses around a register do not matter;
the second wants every `$` name to be a register, so that parentheses can only stand in front of the name, or in front
of it and behind it (`fits_register_and_isClean_iff`). The third wants the last operand of a jump to begin with `$`, to
be a number or to be a label, which leaves a register alone (`isKnownTarget_iff_of_isRegisterOperand`).
-/

namespace AsmLens

/-! ## Shapes of operands -/

namespace Shape

/-- The name of a register. -/
def IsRegister (t : Bytes) : Prop := ∃ r : Register, t = r.name

/-- A register, alone or with parentheses in front of it and perhaps behind it. -/
def IsRegisterOperand (t : Bytes) : Prop :=
  IsRegister t ∨ ∃ (front back : Bytes) (r : Register), front ≠ [] ∧ (∀ b ∈ front, Check.isParenthesis b = true) ∧
    (∀ b ∈ back, Check.isParenthesis b = true) ∧ t = front ++ r.name ++ back

/-- All register-shaped names are registers: the whole text if it begins with `$`, and otherwise every `$` with the
word characters that follow it. -/
def IsRegisterClean (t : Bytes) : Prop :=
  if t.head? = some 36 then IsRegister t
  else ∀ front name back : Bytes, t = front ++ 36 :: (name ++ back) → (∀ b ∈ name, isWordByte b = true) →
    (∀ b ∈ back.head?, isWordByte b = false) → IsRegister (36 :: name)

/-- A number in which all register-shaped names, if it has any, are registers. -/
def IsNumberOperand (t : Bytes) : Prop := Numeral.isNumber t = true ∧ IsRegisterClean t

/-- An optional sign, decimal digits, and a register in parentheses. -/
def IsBasedOperand (t : Bytes) : Prop :=
  ∃ (sign digits : Bytes) (r : Register), (sign = [] ∨ sign = [43] ∨ sign = [45]) ∧ digits ≠ [] ∧
    (∀ b ∈ digits, isDigit b = true) ∧ t = sign ++ digits ++ 40 :: (r.name ++ [41])

end Shape

open Shape in
/-- The words of a line in which nothing is wrong under the built-in table, where `defined` tells the labels. -/
inductive Accepted (defined : Bytes → Prop) : List Bytes → Prop
  | blank : Accepted defined []
  | directive (d : Directive) {operands : List Bytes} :
      (∀ t ∈ operands, IsRegisterClean t) → Accepted defined (d.name :: operands)
  | add {a b c : Bytes} : IsRegisterOperand a → IsRegisterOperand b → IsRegisterOperand c →
      Accepted defined [utf8 "add", a, b, c]
  | nand {a b c : Bytes} : IsRegisterOperand a → IsRegisterOperand b → IsRegisterOperand c →
      Accepted defined [utf8 "nand", a, b, c]
  | addi {a b n : Bytes} : IsRegisterOperand a → IsRegisterOperand b → IsNumberOperand n →
      Accepted defined [utf8 "addi", a, b, n]
  | lw {a m : Bytes} : IsRegisterOperand a → IsBasedOperand m → Accepted defined [utf8 "lw", a, m]
  | sw {a m : Bytes} : IsRegisterOperand a → IsBasedOperand m → Accepted defined [utf8 "sw", a, m]
  | beq {a b l : Bytes} : IsRegisterOperand a → IsRegisterOperand b → defined l → Accepted defined [utf8 "beq", a, b, l]
  | lea {a l : Bytes} : IsRegisterOperand a → defined l → Accepted defined [utf8 "lea", a, l]
  | jalr {a b : Bytes} : IsRegisterOperand a → IsRegister b → Accepted defined [utf8 "jalr", a, b]
  | halt : Accepted defined [utf8 "halt"]

namespace Register

/-- A register is written as a `$` and word characters. -/
theorem name_eq_cons (r : Register) : ∃ tail, r.name = 36 :: tail ∧ tail ≠ [] ∧ ∀ b ∈ tail, isWordByte b = true :=
  ⟨r.name.tail, by cases r <;> decide, by cases r <;> decide, List.all_eq_true.1 (by cases r <;> decide)⟩

/-- No register name begins another. -/
theorem eq_of_name_prefix {r r' : Register} (h : r.name <+: r'.name) : r = r' := by
  have hall : ∀ r ∈ all, ∀ r' ∈ all, r.name <+: r'.name → r = r' := by decide +kernel
  exact hall r (mem_all r) r' (mem_all r') h

end Register

namespace Check

open Shape

/-! ## Register-shaped names -/

theorem isName_eq_true_iff {t : Bytes} : Register.isName t = true ↔ IsRegister t := by
  rw [Register.isName_iff, IsRegister]
  exact exists_congr fun r => eq_comm

theorem isClean_iff {t : Bytes} : isClean t = true ↔ IsRegisterClean t := by
  rw [isClean, namesIn, registerNames, IsRegisterClean]
  split
  · simp [isName_eq_true_iff]
  · simp only [List.all_map, List.all_eq_true, Function.comp_apply, isName_eq_true_iff, mem_dollarNames_iff]
    constructor
    · intro h front name back ht hn hb
      exact h _ ⟨front, name, back, ht, hn, hb, rfl⟩
    · rintro h w ⟨front, name, back, ht, hn, hb, rfl⟩
      exact h front name back ht hn hb

theorem isClean_of_not_mem {t : Bytes} (h : 36 ∉ t) : isClean t = true := by
  have hhead : t.head? ≠ some 36 := fun hc => h (List.mem_of_head? hc)
  rw [isClean, namesIn, registerNames, if_neg hhead, dollarNames_of_not_mem h]
  rfl

/-- A register with other octets around it, no `$` among them and no word character right behind it. -/
theorem isClean_of_name {front back : Bytes} (r : Register) (hne : front ≠ []) (hf : 36 ∉ front) (hb : 36 ∉ back)
    (hstop : ∀ b ∈ back.head?, isWordByte b = false) : isClean (front ++ r.name ++ back) = true := by
  obtain ⟨tail, hr, -, htail⟩ := r.name_eq_cons
  have hrest : 36 ∉ tail ++ back := by
    rw [List.mem_append, not_or]
    exact ⟨fun h => absurd (htail _ h) (by decide), hb⟩
  have hhead : (front ++ r.name ++ back).head? ≠ some 36 := by
    obtain ⟨c, cs, rfl⟩ := List.exists_cons_of_ne_nil hne
    intro h
    exact hf (by simp at h; simp [h])
  rw [isClean_iff, IsRegisterClean, if_neg hhead]
  intro front' name back' ht hn hb'
  -- The only `$` is the one that begins the register.
  rw [hr, List.append_assoc, List.cons_append] at ht
  obtain ⟨-, -, ht⟩ := (List.append_cons_inj_of_notMem hf hrest).1 ht
  have hname : tail = name := by
    rw [← takeWhile_append_stop htail hstop, ht, takeWhile_append_stop hn hb']
  exact ⟨r, by rw [← hname, hr]⟩

/-! ## Kinds of operands -/

theorem isParenthesis_ne_dollar {b : UInt8} (h : isParenthesis b = true) : b ≠ 36 := by
  rintro rfl
  exact absurd h (by decide)

theorem isParenthesis_not_isWordByte {b : UInt8} (h : isParenthesis b = true) : isWordByte b = false := by
  simp only [isParenthesis, Bool.or_eq_true, beq_iff_eq] at h
  rcases h with rfl | rfl <;> decide

theorem isWordByte_head_close : ∀ b ∈ ([41] : Bytes).head?, isWordByte b = false := by
  rintro _ ⟨⟩
  rfl

theorem filter_parentheses {s : Bytes} (h : ∀ b ∈ s, isParenthesis b = true) : s.filter (!isParenthesis ·) = [] := by
  rw [List.filter_eq_nil_iff]
  intro b hb
  simp [h b hb]

theorem filter_word {s : Bytes} (h : ∀ b ∈ s, isWordByte b = true) : s.filter (!isParenthesis ·) = s := by
  rw [List.filter_eq_self]
  intro b hb
  by_contra hc
  have := isParenthesis_not_isWordByte (by simpa using hc)
  rw [h b hb] at this
  cases this

theorem filter_name (r : Register) : r.name.filter (!isParenthesis ·) = r.name := by
  obtain ⟨tail, hr, -, htail⟩ := r.name_eq_cons
  rw [hr, List.filter_cons_of_pos (by decide), filter_word htail]

/-- Without its parentheses the operand is a register, and the first name in it is one: it is the same. -/
theorem isRegisterOperand_of_filter {t : Bytes} {r : Register} (hr : t.filter (!isParenthesis ·) = r.name)
    (hclean : IsRegisterClean t) : IsRegisterOperand t := by
  rw [IsRegisterClean] at hclean
  split at hclean
  · exact .inl hclean
  next hhead =>
  obtain ⟨tail, hrt, -, -⟩ := r.name_eq_cons
  obtain ⟨front, u, rfl, hfront, -, hu⟩ := List.filter_eq_cons_iff.1 (hr.trans hrt)
  have hname : ∀ b ∈ u.takeWhile isWordByte, isWordByte b = true := fun b => List.mem_takeWhile_imp
  have huu : u.takeWhile isWordByte ++ u.dropWhile isWordByte = u := List.takeWhile_append_dropWhile
  obtain ⟨r', hr'⟩ := hclean front _ _ (by rw [huu]) hname (head?_dropWhile_false _ u)
  have hfilter : r.name = r'.name ++ (u.dropWhile isWordByte).filter (!isParenthesis ·) := by
    rw [hrt, ← hr', List.cons_append, ← hu]
    conv_lhs => rw [← huu, List.filter_append, filter_word hname]
  have hrr : r' = r := Register.eq_of_name_prefix ⟨_, hfilter.symm⟩
  have hback : (u.dropWhile isWordByte).filter (!isParenthesis ·) = [] := by
    rw [hrr] at hfilter
    exact List.self_eq_append_right.1 hfilter
  refine .inr ⟨front, u.dropWhile isWordByte, r', ?_, fun b hb => by simpa using hfront b hb,
    fun b hb => by simpa using List.filter_eq_nil_iff.1 hback b hb, ?_⟩
  · rintro rfl
    exact hhead rfl
  · rw [← hr', List.append_assoc, List.cons_append, huu]

/-- Parentheses may stand in front of a register, or in front of it and behind it. -/
theorem fits_register_and_isClean_iff {labels : Labels} {t : Bytes} :
    fits labels .register t = true ∧ isClean t = true ↔ IsRegisterOperand t := by
  rw [fits, isName_eq_true_iff]
  constructor
  · rintro ⟨⟨r, hr⟩, hclean⟩
    exact isRegisterOperand_of_filter hr (isClean_iff.1 hclean)
  · rintro (⟨r, rfl⟩ | ⟨front, back, r, hne, hf, hb, rfl⟩)
    · refine ⟨⟨r, filter_name r⟩, ?_⟩
      have hhead : r.name.head? = some 36 := by
        obtain ⟨tail, hr, -⟩ := r.name_eq_cons
        rw [hr]
        rfl
      rw [isClean_iff, IsRegisterClean, if_pos hhead]
      exact ⟨r, rfl⟩
    · refine ⟨⟨r, ?_⟩, isClean_of_name r hne (fun h => isParenthesis_ne_dollar (hf _ h) rfl)
        (fun h => isParenthesis_ne_dollar (hb _ h) rfl) fun b h =>
          isParenthesis_not_isWordByte (hb b (List.mem_of_head? h))⟩
      rw [List.filter_append, List.filter_append, filter_parentheses hf, filter_parentheses hb, filter_name]
      simp

/-- The sign in front of a number. -/
theorem splitSign_snd (s : Bytes) :
    ∃ sign, (sign = [] ∨ sign = [43] ∨ sign = [45]) ∧ s = sign ++ (Numeral.splitSign s).2 := by
  unfold Numeral.splitSign
  split
  · exact ⟨[45], by simp, rfl⟩
  · exact ⟨[43], by simp, rfl⟩
  · exact ⟨[], by simp, rfl⟩

theorem splitSign_append {sign digits : Bytes} (hs : sign = [] ∨ sign = [43] ∨ sign = [45]) (hne : digits ≠ [])
    (hd : ∀ b ∈ digits, isDigit b = true) (rest : Bytes) :
    (Numeral.splitSign (sign ++ (digits ++ rest))).2 = digits ++ rest := by
  rcases hs with rfl | rfl | rfl
  · obtain ⟨b, digits, rfl⟩ := List.exists_cons_of_ne_nil hne
    have hb := hd b List.mem_cons_self
    have h1 : b ≠ 45 := by rintro rfl; exact absurd hb (by decide)
    have h2 : b ≠ 43 := by rintro rfl; exact absurd hb (by decide)
    rw [List.nil_append, List.cons_append, Numeral.splitSign]
    · exact fun _ h => h1 (List.cons.inj h).1
    · exact fun _ h => h2 (List.cons.inj h).1
  · rfl
  · rfl

theorem basedRegister?_eq_some_iff {t name : Bytes} :
    basedRegister? t = some name ↔ ∃ sign digits tail : Bytes, (sign = [] ∨ sign = [43] ∨ sign = [45]) ∧ digits ≠ [] ∧
      (∀ b ∈ digits, isDigit b = true) ∧ tail ≠ [] ∧ (∀ b ∈ tail, isWordByte b = true) ∧ name = 36 :: tail ∧
      t = sign ++ (digits ++ 40 :: 36 :: (tail ++ [41])) := by
  constructor
  · intro h
    obtain ⟨sign, hsign, ht⟩ := splitSign_snd t
    simp only [basedRegister?] at h
    generalize (Numeral.splitSign t).2 = u at h ht
    have hu : u.takeWhile isDigit ++ u.dropWhile isDigit = u := List.takeWhile_append_dropWhile
    split at h
    · cases h
    next hd =>
    split at h
    · next rest hrest =>
      split at h
      · next hc =>
        simp only [Bool.and_eq_true, Bool.not_eq_true', List.isEmpty_eq_false_iff, beq_iff_eq] at hc
        refine ⟨sign, u.takeWhile isDigit, rest.takeWhile isWordByte, hsign, by simpa using hd,
          fun b => List.mem_takeWhile_imp, hc.1, fun b => List.mem_takeWhile_imp, (Option.some.inj h).symm, ?_⟩
        rw [← hc.2, List.takeWhile_append_dropWhile, ← hrest, hu]
        exact ht
      · cases h
    · cases h
  · rintro ⟨sign, digits, tail, hsign, hne, hd, htne, htail, rfl, rfl⟩
    have hstop : ∀ b ∈ (40 :: 36 :: (tail ++ [41]) : Bytes).head?, isDigit b = false := by
      intro b hb
      obtain rfl : 40 = b := by simpa using hb
      decide
    simp only [basedRegister?, splitSign_append hsign hne hd, takeWhile_append_stop hd hstop,
      dropWhile_append_stop hd hstop, takeWhile_append_stop htail isWordByte_head_close,
      dropWhile_append_stop htail isWordByte_head_close]
    simp [hne, htne]

theorem fits_based_iff {labels : Labels} {t : Bytes} : fits labels .based t = true ↔ IsBasedOperand t := by
  rw [fits, Option.any_eq_true]
  simp only [basedRegister?_eq_some_iff, isName_eq_true_iff]
  constructor
  · rintro ⟨name, ⟨sign, digits, tail, hsign, hne, hd, -, -, rfl, rfl⟩, r, hr⟩
    exact ⟨sign, digits, r, hsign, hne, hd, by rw [← hr]; simp⟩
  · rintro ⟨sign, digits, r, hsign, hne, hd, rfl⟩
    obtain ⟨tail, hr, htne, htail⟩ := r.name_eq_cons
    exact ⟨r.name, ⟨sign, digits, tail, hsign, hne, hd, htne, htail, hr, by rw [hr]; simp⟩, r, rfl⟩

theorem isClean_of_isBasedOperand {t : Bytes} (h : IsBasedOperand t) : isClean t = true := by
  obtain ⟨sign, digits, r, hsign, -, hd, rfl⟩ := h
  have hdollar : 36 ∉ sign ++ digits ++ [40] := by
    simp only [List.mem_append, not_or]
    refine ⟨⟨?_, fun h => absurd (hd _ h) (by decide)⟩, by decide⟩
    rcases hsign with rfl | rfl | rfl <;> decide
  have := @isClean_of_name (sign ++ digits ++ [40]) [41] r (by simp) hdollar (by decide) isWordByte_head_close
  simpa using this

theorem isClean_of_isDefined {lines : List Bytes} {t : Bytes} (h : (Labels.ofLines lines).isDefined t = true) :
    isClean t = true := by
  obtain ⟨line, -, -, -, -, -, -, hw⟩ := Labels.isDefined_ofLines.1 h
  exact isClean_of_not_mem fun hm => absurd (hw _ hm) (by decide)

/-! ## Targets -/

/-- Parentheses make no number. -/
theorem isNumber_parenthesis {b : UInt8} (hb : isParenthesis b = true) (s : Bytes) :
    Numeral.isNumber (b :: s) = false := by
  simp only [isParenthesis, Bool.or_eq_true, beq_iff_eq] at hb
  rcases hb with rfl | rfl <;> rfl

/-- A register operand is a known target only without parentheses. -/
theorem isKnownTarget_iff_of_isRegisterOperand {lines : List Bytes} {t : Bytes} (h : IsRegisterOperand t) :
    isKnownTarget (Labels.ofLines lines) t = true ↔ IsRegister t := by
  constructor
  · intro hk
    rcases h with h | ⟨front, back, r, hne, hf, -, rfl⟩
    · exact h
    obtain ⟨b, front, rfl⟩ := List.exists_cons_of_ne_nil hne
    have hb := hf b List.mem_cons_self
    simp only [isKnownTarget, Bool.or_eq_true, beq_iff_eq] at hk
    rcases hk with (hk | hk) | hk
    · exact absurd (by simpa using hk) (isParenthesis_ne_dollar hb)
    · rw [List.cons_append, List.cons_append, isNumber_parenthesis hb] at hk
      cases hk
    · obtain ⟨line, -, -, -, -, -, -, hw⟩ := Labels.isDefined_ofLines.1 hk
      have := isParenthesis_not_isWordByte hb
      rw [hw b (by simp)] at this
      cases this
  · rintro ⟨r, rfl⟩
    obtain ⟨tail, hr, -⟩ := r.name_eq_cons
    simp [isKnownTarget, hr]

/-! ## Lines under the built-in table -/

/-- The names that a document defines as labels. -/
def DefinedIn (lines : List Bytes) (name : Bytes) : Prop := ∃ line ∈ lines, Source.Defines line name

/-- The shape that an operand of a kind must have. -/
def HasShape (lines : List Bytes) : Kind → Bytes → Prop
  | .register => IsRegisterOperand
  | .number => IsNumberOperand
  | .label => DefinedIn lines
  | .based => IsBasedOperand

theorem fits_and_isClean_iff {lines : List Bytes} {kind : Kind} {t : Bytes} :
    fits (Labels.ofLines lines) kind t = true ∧ isClean t = true ↔ HasShape lines kind t := by
  cases kind with
  | register => exact fits_register_and_isClean_iff
  | number => rw [isClean_iff]; rfl
  | label =>
    rw [HasShape, DefinedIn, ← Labels.isDefined_ofLines]
    exact ⟨fun h => h.1, fun h => ⟨h, isClean_of_isDefined h⟩⟩
  | based =>
    rw [fits_based_iff]
    exact ⟨fun h => h.1, fun h => ⟨h, isClean_of_isBasedOperand h⟩⟩

theorem forall₂_and_right {α β : Type} {R : α → β → Prop} {p : β → Prop} {xs : List α} {ys : List β} :
    List.Forall₂ R xs ys ∧ (∀ y ∈ ys, p y) ↔ List.Forall₂ (fun x y => R x y ∧ p y) xs ys := by
  constructor
  · rintro ⟨h, hp⟩
    induction h with
    | nil => exact .nil
    | cons hxy _ ih => exact .cons ⟨hxy, hp _ List.mem_cons_self⟩ (ih fun y hy => hp y (List.mem_cons_of_mem _ hy))
  · intro h
    induction h with
    | nil => exact ⟨.nil, by simp⟩
    | cons hxy _ ih => exact ⟨.cons hxy.1 ih.1, by simpa using ⟨hxy.2, ih.2⟩⟩

/-- A line with a declared mnemonic. -/
theorem lineFindings_eq_nil_iff_hasShape {isa : Isa} {mnemonic : Bytes} {kinds : List Kind}
    (h : isa.find? mnemonic = some kinds) (hm : isClean mnemonic = true) {lines operands : List Bytes} :
    lineFindings isa (Labels.ofLines lines) (mnemonic :: operands) = [] ↔
      List.Forall₂ (HasShape lines) kinds operands ∧ HasKnownTarget (Labels.ofLines lines) mnemonic operands := by
  rw [lineFindings_eq_nil_iff_of_declared h, List.forall_mem_cons, and_iff_right hm, ← and_assoc, forall₂_and_right]
  simp only [fits_and_isClean_iff]

/-- The built-in table, in order of mnemonic. -/
theorem entries_default : Isa.default.entries = [
    (utf8 "add", [.register, .register, .register]),
    (utf8 "addi", [.register, .register, .number]),
    (utf8 "beq", [.register, .register, .label]),
    (utf8 "halt", []),
    (utf8 "jalr", [.register, .register]),
    (utf8 "lea", [.register, .label]),
    (utf8 "lw", [.register, .based]),
    (utf8 "nand", [.register, .register, .register]),
    (utf8 "sw", [.register, .based])] := by
  decide +kernel

theorem find?_default_iff {mnemonic : Bytes} {kinds : List Kind} :
    Isa.default.find? mnemonic = some kinds ↔ (mnemonic, kinds) ∈ Isa.default.entries :=
  Dictionary.find?_eq_some_iff _

/-- Only branches and jumps of the built-in table take targets. -/
theorem hasKnownTarget_of_not {labels : Labels} {mnemonic : Bytes} (h : takesTarget mnemonic = false)
    (operands : List Bytes) : HasKnownTarget labels mnemonic operands := by
  intro ht
  rw [h] at ht
  cases ht

theorem isKnownTarget_of_definedIn {lines : List Bytes} {t : Bytes} (h : DefinedIn lines t) :
    isKnownTarget (Labels.ofLines lines) t = true := by
  rw [isKnownTarget, Labels.isDefined_ofLines.2 h, Bool.or_true]

theorem accepted_of_lineFindings {lines texts : List Bytes}
    (h : lineFindings Isa.default (Labels.ofLines lines) texts = []) : Accepted (DefinedIn lines) texts := by
  cases texts with
  | nil => exact .blank
  | cons mnemonic operands =>
    cases hf : Isa.default.find? mnemonic with
    | none =>
      obtain ⟨hd, hclean, -⟩ := (lineFindings_eq_nil_iff_of_undeclared hf).1 h
      obtain ⟨d, rfl⟩ := (Directive.isName_iff mnemonic).1 hd
      exact .directive d fun t ht => isClean_iff.1 (hclean t (List.mem_cons_of_mem _ ht))
    | some kinds =>
      have hmem := find?_default_iff.1 hf
      have hclean : isClean mnemonic = true := ((lineFindings_eq_nil_iff_of_declared hf).1 h).2.1 _ List.mem_cons_self
      obtain ⟨hshape, htarget⟩ := (lineFindings_eq_nil_iff_hasShape hf hclean).1 h
      simp only [entries_default, List.mem_cons, List.not_mem_nil, or_false, Prod.mk.injEq] at hmem
      rcases hmem with ⟨rfl, rfl⟩ | ⟨rfl, rfl⟩ | ⟨rfl, rfl⟩ | ⟨rfl, rfl⟩ | ⟨rfl, rfl⟩ | ⟨rfl, rfl⟩ | ⟨rfl, rfl⟩ |
        ⟨rfl, rfl⟩ | ⟨rfl, rfl⟩
      · obtain _ | ⟨ha, _ | ⟨hb, _ | ⟨hc, _ | _⟩⟩⟩ := hshape
        exact .add ha hb hc
      · obtain _ | ⟨ha, _ | ⟨hb, _ | ⟨hn, _ | _⟩⟩⟩ := hshape
        exact .addi ha hb hn
      · obtain _ | ⟨ha, _ | ⟨hb, _ | ⟨hl, _ | _⟩⟩⟩ := hshape
        exact .beq ha hb hl
      · obtain _ | _ := hshape
        exact .halt
      · obtain _ | ⟨ha, _ | ⟨hb, _ | _⟩⟩ := hshape
        exact .jalr ha ((isKnownTarget_iff_of_isRegisterOperand hb).1 (htarget (by decide) _ rfl))
      · obtain _ | ⟨ha, _ | ⟨hl, _ | _⟩⟩ := hshape
        exact .lea ha hl
      · obtain _ | ⟨ha, _ | ⟨hm, _ | _⟩⟩ := hshape
        exact .lw ha hm
      · obtain _ | ⟨ha, _ | ⟨hb, _ | ⟨hc, _ | _⟩⟩⟩ := hshape
        exact .nand ha hb hc
      · obtain _ | ⟨ha, _ | ⟨hm, _ | _⟩⟩ := hshape
        exact .sw ha hm

/-- A line of the built-in table is free of findings if its operands have their shapes and its target is known. -/
theorem lineFindings_of_hasShape {lines : List Bytes} {mnemonic : Bytes} (kinds : List Kind) {operands : List Bytes}
    (hmem : (mnemonic, kinds) ∈ Isa.default.entries) (hclean : isClean mnemonic = true)
    (hshape : List.Forall₂ (HasShape lines) kinds operands)
    (htarget : HasKnownTarget (Labels.ofLines lines) mnemonic operands) :
    lineFindings Isa.default (Labels.ofLines lines) (mnemonic :: operands) = [] :=
  (lineFindings_eq_nil_iff_hasShape (find?_default_iff.2 hmem) hclean).2 ⟨hshape, htarget⟩

theorem lineFindings_of_accepted {lines texts : List Bytes} (h : Accepted (DefinedIn lines) texts) :
    lineFindings Isa.default (Labels.ofLines lines) texts = [] := by
  cases h with
  | blank => rfl
  | directive d hclean =>
    refine (lineFindings_eq_nil_iff_of_undeclared (by cases d <;> decide +kernel)).2 ⟨?_, ?_, ?_⟩
    · exact (Directive.isName_iff _).2 ⟨d, rfl⟩
    · rw [List.forall_mem_cons]
      exact ⟨by cases d <;> decide, fun t ht => isClean_iff.2 (hclean t ht)⟩
    · exact hasKnownTarget_of_not (by cases d <;> decide) _
  | add ha hb hc =>
    exact lineFindings_of_hasShape [.register, .register, .register] (by decide +kernel) (by decide)
      (.cons ha (.cons hb (.cons hc .nil))) (hasKnownTarget_of_not (by decide) _)
  | nand ha hb hc =>
    exact lineFindings_of_hasShape [.register, .register, .register] (by decide +kernel) (by decide)
      (.cons ha (.cons hb (.cons hc .nil))) (hasKnownTarget_of_not (by decide) _)
  | addi ha hb hn =>
    exact lineFindings_of_hasShape [.register, .register, .number] (by decide +kernel) (by decide)
      (.cons ha (.cons hb (.cons hn .nil))) (hasKnownTarget_of_not (by decide) _)
  | lw ha hm =>
    exact lineFindings_of_hasShape [.register, .based] (by decide +kernel) (by decide)
      (.cons ha (.cons hm .nil)) (hasKnownTarget_of_not (by decide) _)
  | sw ha hm =>
    exact lineFindings_of_hasShape [.register, .based] (by decide +kernel) (by decide)
      (.cons ha (.cons hm .nil)) (hasKnownTarget_of_not (by decide) _)
  | beq ha hb hl =>
    refine lineFindings_of_hasShape [.register, .register, .label] (by decide +kernel) (by decide)
      (.cons ha (.cons hb (.cons hl .nil))) ?_
    rintro - target ⟨⟩
    exact isKnownTarget_of_definedIn hl
  | lea ha hl =>
    refine lineFindings_of_hasShape [.register, .label] (by decide +kernel) (by decide)
      (.cons ha (.cons hl .nil)) ?_
    rintro - target ⟨⟩
    exact isKnownTarget_of_definedIn hl
  | jalr ha hb =>
    refine lineFindings_of_hasShape [.register, .register] (by decide +kernel) (by decide)
      (.cons ha (.cons (.inl hb) .nil)) ?_
    rintro - target ⟨⟩
    exact (isKnownTarget_iff_of_isRegisterOperand (.inl hb)).2 hb
  | halt => exact lineFindings_of_hasShape [] (by decide +kernel) (by decide) .nil (hasKnownTarget_of_not (by decide) _)

end Check

/-- **The accepted language.** Under the built-in table a document gets no diagnostics just if every line has one of
the accepted shapes. -/
theorem no_diagnostics_iff_accepted (text : Bytes) :
    (Analysis.ofText Isa.default text).diagnostics = [] ↔
      ∀ line ∈ Source.lines text,
        Accepted (fun name => ∃ line ∈ Source.lines text, Source.Defines line name)
          ((Line.ofBytes line).words.map Word.text) := by
  rw [Analysis.ofText, Analysis.diagnostics_eq_nil_iff]
  constructor
  · intro h line hl
    exact Check.accepted_of_lineFindings (h line hl)
  · intro h line hl
    exact Check.lineFindings_of_accepted (h line hl)

end AsmLens
