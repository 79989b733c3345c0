import AsmLens.Proofs.Check.Place

/-!
# What is reported

`Reported` says of which stretch of a line what is reported and when, with no reference to the order of the checks;
`mem_lineDiagnostics_iff` shows that the checker reports just that. A line whose mnemonic is not legal gets one finding.
On all others the operands are held against the table if it declares the mnemonic, and names and targets are looked at
in any case. The other way round, `Reported.justified` says what each finding stands for.

As a stretch is given by its columns, a finding with the columns of a word of the line is about that word
(`Analysis.about_mem_diagnostics_iff`).
-/

namespace AsmLens

namespace Check

/-- A line may begin with a mnemonic that the table declares and with a directive. -/
def IsLegal (isa : Isa) (mnemonic : Bytes) : Prop :=
  (isa.find? mnemonic).isSome = true ∨ Directive.isName mnemonic = true

/-- What is said of an operand that is not of its kind. -/
def misfit : Kind → Nat → Bytes → Finding
  | .label, position, operand => .expectedLabel position operand
  | kind, position, operand => .operandKind kind position operand

theorem operandFinding?_eq (labels : Labels) (kind : Kind) (position : Nat) (operand : Bytes) :
    operandFinding? labels kind position operand =
      if fits labels kind operand then none else some (misfit kind position operand) := by
  cases kind <;> rfl

/-- What is reported about a line with the given words, and of which stretch. -/
inductive Reported (isa : Isa) (labels : Labels) : List Word → Word → Finding → Prop
  | illegalMnemonic {mnemonic : Word} {operands : List Word} (h : ¬ IsLegal isa mnemonic.text) :
    Reported isa labels (mnemonic :: operands) mnemonic (.illegalMnemonic mnemonic.text)
  | operandCount {mnemonic : Word} {operands : List Word} {kinds : List Kind}
    (hk : isa.find? mnemonic.text = some kinds) (hlen : operands.length ≠ kinds.length) :
    Reported isa labels (mnemonic :: operands) mnemonic
      (.operandCount mnemonic.text kinds.length operands.length)
  | operand {mnemonic : Word} {operands : List Word} {kinds : List Kind} (hk : isa.find? mnemonic.text = some kinds)
    (hlen : operands.length = kinds.length) {k : Nat} {kind : Kind} {w : Word} (hkind : kinds[k]? = some kind)
    (hw : operands[k]? = some w) (hf : ¬ fits labels kind w.text = true) :
    Reported isa labels (mnemonic :: operands) w (misfit kind (k + 1) w.text)
  | invalidRegister {mnemonic : Word} {operands : List Word} (hl : IsLegal isa mnemonic.text) {around w : Word}
    (ha : around ∈ mnemonic :: operands) (hw : w ∈ registerNames around) (hn : ¬ Register.isName w.text = true) :
    Reported isa labels (mnemonic :: operands) w (.invalidRegister w.text)
  | undefinedLabel {mnemonic : Word} {operands : List Word} (hl : IsLegal isa mnemonic.text)
    (ht : takesTarget mnemonic.text = true) {target : Word} (hlast : operands.getLast? = some target)
    (hu : ¬ isKnownTarget labels target.text = true) :
    Reported isa labels (mnemonic :: operands) target (.undefinedLabel target.text)

/-! ## The checks one by one -/

section Checks

variable {isa : Isa} {labels : Labels} {number : Nat} {d : Diagnostic}

theorem mem_operandDiagnostics_iff {kinds : List Kind} {operands : List Word} :
    d ∈ operandDiagnostics labels number kinds operands ↔ ∃ k kind w, kinds[k]? = some kind ∧ operands[k]? = some w ∧
      ¬ fits labels kind w.text = true ∧ d = about number w (misfit kind (k + 1) w.text) := by
  rw [operandDiagnostics, List.mem_filterMap]
  constructor
  · rintro ⟨⟨⟨kind, w⟩, k⟩, hmem, hd⟩
    obtain ⟨f, hf, rfl⟩ := Option.map_eq_some_iff.1 hd
    obtain ⟨hkind, hw⟩ := List.getElem?_zip_eq_some.1 (List.mem_zipIdx_iff_getElem?.1 hmem)
    rw [operandFinding?_eq] at hf
    split at hf
    · cases hf
    · next hfits =>
      cases hf
      exact ⟨k, kind, w, hkind, hw, hfits, rfl⟩
  · rintro ⟨k, kind, w, hkind, hw, hf, rfl⟩
    refine ⟨((kind, w), k), List.mem_zipIdx_iff_getElem?.2 (List.getElem?_zip_eq_some.2 ⟨hkind, hw⟩), ?_⟩
    simp only [operandFinding?_eq, if_neg hf, Option.map_some]

theorem mem_registerDiagnostics_iff {words : List Word} :
    d ∈ registerDiagnostics number words ↔ ∃ around ∈ words, ∃ w ∈ registerNames around,
      ¬ Register.isName w.text = true ∧ d = about number w (.invalidRegister w.text) := by
  simp only [registerDiagnostics, List.mem_map, List.mem_filter, List.mem_flatMap, Bool.not_eq_true', Bool.not_eq_true]
  constructor
  · rintro ⟨w, ⟨⟨around, ha, hw⟩, hn⟩, rfl⟩
    exact ⟨around, ha, w, hw, hn, rfl⟩
  · rintro ⟨around, ha, w, hw, hn, rfl⟩
    exact ⟨w, ⟨⟨around, ha, hw⟩, hn⟩, rfl⟩

theorem mem_targetDiagnostics_iff {mnemonic : Bytes} {operands : List Word} :
    d ∈ targetDiagnostics labels number mnemonic operands ↔ takesTarget mnemonic = true ∧
      ∃ target, operands.getLast? = some target ∧ ¬ isKnownTarget labels target.text = true ∧
        d = about number target (.undefinedLabel target.text) := by
  rw [targetDiagnostics]
  cases operands.getLast? with
  | none => simp
  | some target =>
    simp only [Option.some.injEq, exists_eq_left', isKnownTarget, Bool.or_eq_true, not_or, Bool.not_eq_true]
    split <;> simp_all

/-- Which checks look at a line. -/
theorem mem_lineDiagnostics_cons_iff {line : Line} {mnemonic : Word} {operands : List Word}
    (hw : line.words = mnemonic :: operands) : d ∈ lineDiagnostics isa labels number line ↔
      ¬ IsLegal isa mnemonic.text ∧ d = about number mnemonic (.illegalMnemonic mnemonic.text) ∨
      (∃ kinds, isa.find? mnemonic.text = some kinds ∧
        d ∈ declaredDiagnostics labels number mnemonic kinds operands) ∨
      IsLegal isa mnemonic.text ∧ (d ∈ registerDiagnostics number (mnemonic :: operands) ∨
        d ∈ targetDiagnostics labels number mnemonic.text operands) := by
  simp only [lineDiagnostics, hw, undeclaredDiagnostics, generalDiagnostics, IsLegal]
  cases isa.find? mnemonic.text with
  | some kinds => simp
  | none => cases hdir : Directive.isName mnemonic.text <;> simp

end Checks

/-! ## Lines and documents -/

/-- The checker reports just what is to be reported. -/
theorem mem_lineDiagnostics_iff {isa : Isa} {labels : Labels} {number : Nat} {line : Line} {d : Diagnostic} :
    d ∈ lineDiagnostics isa labels number line ↔
      ∃ w f, d = about number w f ∧ Reported isa labels line.words w f := by
  cases hw : line.words with
  | nil =>
    have hnone : lineDiagnostics isa labels number line = [] := by rw [lineDiagnostics, hw]
    rw [hnone]
    refine iff_of_false List.not_mem_nil ?_
    rintro ⟨w, f, -, ⟨⟩⟩
  | cons mnemonic operands =>
    rw [mem_lineDiagnostics_cons_iff hw, mem_registerDiagnostics_iff, mem_targetDiagnostics_iff]
    constructor
    · rintro (⟨hl, rfl⟩ | ⟨kinds, hk, hd⟩ | ⟨hl, ⟨around, ha, w, hn, hr, rfl⟩ | ⟨ht, target, hlast, hu, rfl⟩⟩)
      · exact ⟨mnemonic, _, rfl, .illegalMnemonic hl⟩
      · rw [declaredDiagnostics] at hd
        split at hd
        · next hlen =>
          obtain ⟨k, kind, w, hkind, hget, hf, rfl⟩ := mem_operandDiagnostics_iff.1 hd
          exact ⟨w, _, rfl, .operand hk hlen hkind hget hf⟩
        · next hlen =>
          obtain rfl := List.mem_singleton.1 hd
          exact ⟨mnemonic, _, rfl, .operandCount hk hlen⟩
      · exact ⟨w, _, rfl, .invalidRegister hl ha hn hr⟩
      · exact ⟨target, _, rfl, .undefinedLabel hl ht hlast hu⟩
    · rintro ⟨w, f, rfl, h⟩
      cases h with
      | illegalMnemonic hl => exact .inl ⟨hl, rfl⟩
      | operandCount hk hlen =>
        refine .inr (.inl ⟨_, hk, ?_⟩)
        rw [declaredDiagnostics, if_neg hlen]
        exact List.mem_singleton_self _
      | operand hk hlen hkind hget hf =>
        refine .inr (.inl ⟨_, hk, ?_⟩)
        rw [declaredDiagnostics, if_pos hlen]
        exact mem_operandDiagnostics_iff.2 ⟨_, _, w, hkind, hget, hf, rfl⟩
      | invalidRegister hl ha hn hr => exact .inr (.inr ⟨hl, .inl ⟨_, ha, w, hn, hr, rfl⟩⟩)
      | undefinedLabel hl ht hlast hu => exact .inr (.inr ⟨hl, .inr ⟨ht, w, hlast, hu, rfl⟩⟩)

/-- What a finding about a stretch of a line says of the stretch and of the line. -/
def Justified (isa : Isa) (labels : Labels) (words : List Word) (w : Word) : Finding → Prop
  | .illegalMnemonic name => name = w.text ∧ words.head? = some w ∧ ¬ IsLegal isa w.text
  | .operandCount name expected got => name = w.text ∧ words.head? = some w ∧ got = words.tail.length ∧
    ∃ kinds, isa.find? w.text = some kinds ∧ expected = kinds.length ∧ got ≠ expected
  | .operandKind kind position operand => operand = w.text ∧ words[position]? = some w ∧ ¬ fits labels kind w.text = true
  | .expectedLabel position operand =>
    operand = w.text ∧ words[position]? = some w ∧ ¬ labels.isDefined w.text = true
  | .invalidRegister name => name = w.text ∧ ¬ Register.isName w.text = true
  | .undefinedLabel name => name = w.text ∧ words.tail.getLast? = some w ∧
    (∃ mnemonic, words.head? = some mnemonic ∧ takesTarget mnemonic.text = true) ∧ ¬ isKnownTarget labels w.text = true

/-- Nothing is reported that is not so. -/
theorem Reported.justified {isa : Isa} {labels : Labels} {words : List Word} {w : Word} {f : Finding}
    (h : Reported isa labels words w f) : Justified isa labels words w f := by
  cases h with
  | illegalMnemonic hl => exact ⟨rfl, rfl, hl⟩
  | operandCount hk hlen => exact ⟨rfl, rfl, rfl, _, hk, rfl, hlen⟩
  | @operand _ _ _ _ _ _ kind _ _ hw hf => cases kind <;> exact ⟨rfl, hw, hf⟩
  | invalidRegister _ _ _ hn => exact ⟨rfl, hn⟩
  | undefinedLabel _ ht hlast hu => exact ⟨rfl, hlast, ⟨_, rfl, ht⟩, hu⟩

/-- Whatever is reported is reported of a stretch of a word. -/
theorem Reported.inWord {isa : Isa} {labels : Labels} {words : List Word} {w : Word} {f : Finding}
    (h : Reported isa labels words w f) : ∃ around ∈ words, w.StandsIn around.start around.text := by
  cases h with
  | illegalMnemonic => exact ⟨w, List.mem_cons_self, .self w⟩
  | operandCount => exact ⟨w, List.mem_cons_self, .self w⟩
  | operand _ _ _ hw => exact ⟨w, List.mem_cons_of_mem _ (List.mem_of_getElem? hw), .self w⟩
  | invalidRegister _ ha hw => exact ⟨_, ha, (standsIn_of_mem_registerNames hw).1⟩
  | undefinedLabel _ _ hlast => exact ⟨w, List.mem_cons_of_mem _ (List.mem_of_getLast? hlast), .self w⟩

end Check

open Check

/-- What stands at the same columns of a text is the same. -/
theorem Word.StandsIn.ext {s : Bytes} {v w : Word} (hv : v.StandsIn 0 s) (hw : w.StandsIn 0 s)
    (hstart : v.start = w.start) (hstop : v.stop = w.stop) : v = w := by
  have htext : v.text = w.text := by rw [← hv.extract_eq, ← hw.extract_eq, hstart, hstop]
  cases v
  cases w
  cases hstart
  cases htext
  rfl

namespace Analysis

variable {isa : Isa} {raw : List Bytes} {i : Nat} {line : Bytes}

/-- A diagnostic with a line and a finding is one of that line. -/
theorem exists_diagnostic_iff (hline : raw[i]? = some line) {f : Finding} :
    (∃ d ∈ (ofLines isa raw).diagnostics, d.line = i ∧ d.finding = f) ↔
      ∃ w, Reported isa (Labels.ofLines raw) (Line.ofBytes line).words w f := by
  constructor
  · rintro ⟨d, hd, rfl, rfl⟩
    obtain ⟨line', hline', hd⟩ := (mem_diagnostics_iff isa raw).1 hd
    cases hline.symm.trans hline'
    obtain ⟨w, f, hf, hr⟩ := mem_lineDiagnostics_iff.1 hd
    rw [hf]
    exact ⟨w, hr⟩
  · rintro ⟨w, hr⟩
    refine ⟨about i w f, (mem_diagnostics_iff isa raw).2 ⟨line, hline, ?_⟩, rfl, rfl⟩
    exact mem_lineDiagnostics_iff.2 ⟨w, f, rfl, hr⟩

/-- A diagnostic with the columns of a word is about that word. -/
theorem about_mem_diagnostics_iff (hline : raw[i]? = some line) {v : Word} (hv : v ∈ (Line.ofBytes line).words)
    {f : Finding} : about i v f ∈ (ofLines isa raw).diagnostics ↔
      Reported isa (Labels.ofLines raw) (Line.ofBytes line).words v f := by
  rw [mem_diagnostics_iff]
  constructor
  · rintro ⟨line', hline', hd⟩
    cases hline.symm.trans hline'
    obtain ⟨w, f', hf, hr⟩ := mem_lineDiagnostics_iff.1 hd
    obtain ⟨-, hstart, hstop, rfl⟩ := Diagnostic.mk.inj hf
    obtain ⟨around, ha, hw⟩ := hr.inWord
    have hplace := (hw.trans (Line.standsIn_of_mem_words ha).1).of_instruction
    rw [(Line.standsIn_of_mem_words hv).1.of_instruction.ext hplace hstart hstop]
    exact hr
  · intro hr
    exact ⟨line, hline, mem_lineDiagnostics_iff.2 ⟨v, f, rfl, hr⟩⟩

end Analysis

end AsmLens
