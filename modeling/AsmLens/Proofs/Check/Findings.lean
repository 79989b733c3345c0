import AsmLens.Check.Analysis
import AsmLens.Proofs.Source.Line
import Mathlib.Data.List.Forall2

/-!
# Findings without places

What is found wrong with a line depends on its words only through their texts: `lineFindings` computes it from these,
and every diagnostic of a line is one of those findings with the number of the line (`map_lineDiagnostics`). The columns
are the only thing that the places of the words decide.

* `mem_dollarNames_iff`: the `$` names of a text, without the scan.
* `lineFindings_eq_nil_iff_of_declared`, `lineFindings_eq_nil_iff_of_undeclared`: when nothing is wrong with a line.
* `Analysis.map_placeless_diagnostics`: the findings of a document are those of its lines in order.
-/

namespace AsmLens

namespace Check

/-! ## Register-shaped names -/

/-- A name is a `$` with all the word characters behind it. -/
theorem mem_dollarNames_iff {s : Bytes} {w : Word} : ∀ {start : Nat},
    w ∈ dollarNames start s ↔ ∃ before name after, s = before ++ 36 :: (name ++ after) ∧
      (∀ b ∈ name, isWordByte b = true) ∧ (∀ b ∈ after.head?, isWordByte b = false) ∧
      w = ⟨36 :: name, start + before.length⟩ := by
  induction s with
  | nil => simp [dollarNames]
  | cons b s ih =>
    intro start
    have hstep : w ∈ dollarNames start (b :: s) ↔
        (b = 36 ∧ w = ⟨36 :: s.takeWhile isWordByte, start⟩) ∨ w ∈ dollarNames (start + 1) s := by
      rw [dollarNames]
      split
      · next hb => simp [hb]
      · next hb => simp [hb]
    rw [hstep, ih]
    constructor
    · rintro (⟨rfl, rfl⟩ | ⟨before, name, after, rfl, hn, ha, rfl⟩)
      · refine ⟨[], s.takeWhile isWordByte, s.dropWhile isWordByte, ?_, fun b => List.mem_takeWhile_imp,
          head?_dropWhile_false _ s, rfl⟩
        simp [List.takeWhile_append_dropWhile]
      · exact ⟨b :: before, name, after, rfl, hn, ha, by simp; omega⟩
    · rintro ⟨before, name, after, hs, hn, ha, rfl⟩
      cases before with
      | nil =>
        obtain ⟨rfl, rfl⟩ := List.cons.inj hs
        exact .inl ⟨rfl, by rw [takeWhile_append_stop hn ha]; rfl⟩
      | cons c before =>
        obtain ⟨rfl, rfl⟩ := List.cons.inj hs
        exact .inr ⟨before, name, after, rfl, hn, ha, by simp; omega⟩

theorem dollarNames_of_not_mem {s : Bytes} (h : 36 ∉ s) (start : Nat) : dollarNames start s = [] := by
  apply List.eq_nil_iff_forall_not_mem.2
  intro w hw
  obtain ⟨before, name, after, rfl, -⟩ := mem_dollarNames_iff.1 hw
  exact h (by simp)

/-- The places of the names move with the text. -/
theorem dollarNames_shift (k : Nat) (s : Bytes) :
    ∀ start, dollarNames (start + k) s = (dollarNames start s).map fun w => ⟨w.text, w.start + k⟩ := by
  induction s with
  | nil => intro start; rfl
  | cons b s ih =>
    intro start
    have h := ih (start + 1)
    rw [show start + 1 + k = start + k + 1 by omega] at h
    simp only [dollarNames, h]
    split <;> rfl

/-- The names in a text that have to be registers. -/
def namesIn (text : Bytes) : List Bytes := (registerNames ⟨text, 0⟩).map Word.text

theorem map_text_registerNames (w : Word) : (registerNames w).map Word.text = namesIn w.text := by
  simp only [namesIn, registerNames]
  split
  · rfl
  · rw [← Nat.zero_add w.start, dollarNames_shift, List.map_map]
    rfl

/-! ## Findings from texts -/

/-- The findings about operands, one expected kind for each. -/
def operandFindings (labels : Labels) (kinds : List Kind) (operands : List Bytes) : List Finding :=
  (kinds.zip operands).zipIdx.filterMap fun ((kind, operand), i) => operandFinding? labels kind (i + 1) operand

/-- The findings about the operands of a declared mnemonic. -/
def declaredFindings (labels : Labels) (mnemonic : Bytes) (kinds : List Kind) (operands : List Bytes) : List Finding :=
  if operands.length = kinds.length then operandFindings labels kinds operands
  else [.operandCount mnemonic kinds.length operands.length]

/-- The findings about names that should be registers. -/
def registerFindings (texts : List Bytes) : List Finding :=
  ((texts.flatMap namesIn).filter (!Register.isName ·)).map .invalidRegister

/-- Whether a target is a register, a number or a label of the document. -/
def isKnownTarget (labels : Labels) (target : Bytes) : Bool :=
  target.head? == some 36 || Numeral.isNumber target || labels.isDefined target

/-- The finding about the target of a branch or jump. -/
def targetFindings (labels : Labels) (mnemonic : Bytes) (operands : List Bytes) : List Finding :=
  match operands.getLast? with
  | none => []
  | some target => if takesTarget mnemonic && !isKnownTarget labels target then [.undefinedLabel target] else []

/-- Everything wrong with a line that has words with these texts. -/
def lineFindings (isa : Isa) (labels : Labels) : List Bytes → List Finding
  | [] => []
  | mnemonic :: operands =>
    let rest := registerFindings (mnemonic :: operands) ++ targetFindings labels mnemonic operands
    match isa.find? mnemonic with
    | some kinds => declaredFindings labels mnemonic kinds operands ++ rest
    | none => if Directive.isName mnemonic then rest else [.illegalMnemonic mnemonic]

/-! ## Diagnostics are findings with places -/

/-- A diagnostic without its columns. -/
def placeless (d : Diagnostic) : Nat × Finding := (d.line, d.finding)

variable (labels : Labels) (number : Nat)

theorem map_operandDiagnostics (kinds : List Kind) (operands : List Word) :
    (operandDiagnostics labels number kinds operands).map placeless =
      (operandFindings labels kinds (operands.map Word.text)).map (number, ·) := by
  have hzip : (kinds.zip (operands.map Word.text)).zipIdx =
      (kinds.zip operands).zipIdx.map fun p => ((p.1.1, p.1.2.text), p.2) := by
    rw [List.zip_map_right, List.zipIdx_map]
    rfl
  rw [operandDiagnostics, operandFindings, hzip, List.filterMap_map, List.map_filterMap, List.map_filterMap]
  congr 1
  funext p
  simp only [Function.comp_apply, Option.map_map]
  rfl

theorem map_declaredDiagnostics (mnemonic : Word) (kinds : List Kind) (operands : List Word) :
    (declaredDiagnostics labels number mnemonic kinds operands).map placeless =
      (declaredFindings labels mnemonic.text kinds (operands.map Word.text)).map (number, ·) := by
  rw [declaredDiagnostics, declaredFindings, List.length_map]
  split
  · exact map_operandDiagnostics labels number kinds operands
  · rfl

theorem map_registerDiagnostics (words : List Word) :
    (registerDiagnostics number words).map placeless =
      (registerFindings (words.map Word.text)).map (number, ·) := by
  have hnames : (words.map Word.text).flatMap namesIn = (words.flatMap registerNames).map Word.text := by
    rw [List.flatMap_map, List.map_flatMap]
    simp only [map_text_registerNames]
  rw [registerDiagnostics, registerFindings, hnames, List.filter_map, List.map_map, List.map_map, List.map_map]
  rfl

theorem map_targetDiagnostics (mnemonic : Bytes) (operands : List Word) :
    (targetDiagnostics labels number mnemonic operands).map placeless =
      (targetFindings labels mnemonic (operands.map Word.text)).map (number, ·) := by
  rw [targetDiagnostics, targetFindings, List.getLast?_map]
  cases operands.getLast? with
  | none => rfl
  | some target =>
    have hknown : (takesTarget mnemonic && target.text.head? != some 36 && !Numeral.isNumber target.text &&
        !labels.isDefined target.text) = (takesTarget mnemonic && !isKnownTarget labels target.text) := by
      simp only [isKnownTarget, Bool.not_or, bne, Bool.and_assoc]
    simp only [Option.map_some, hknown]
    split <;> rfl

/-- The findings of a line depend on the texts of its words. -/
theorem map_lineDiagnostics (isa : Isa) (line : Line) :
    (lineDiagnostics isa labels number line).map placeless =
      (lineFindings isa labels (line.words.map Word.text)).map (number, ·) := by
  unfold lineDiagnostics
  cases hw : line.words with
  | nil => rfl
  | cons mnemonic operands =>
    simp only [List.map_cons, lineFindings]
    cases isa.find? mnemonic.text with
    | some kinds =>
      simp only [generalDiagnostics, List.map_append, map_declaredDiagnostics, map_registerDiagnostics,
        map_targetDiagnostics, List.map_cons]
    | none =>
      simp only [undeclaredDiagnostics]
      split
      · simp only [generalDiagnostics, List.map_append, map_registerDiagnostics, map_targetDiagnostics, List.map_cons]
      · rfl

/-! ## Lines with nothing wrong -/

variable {labels number}

/-- Whether an operand is of a kind. -/
def fits (labels : Labels) : Kind → Bytes → Bool
  | .register, operand => Register.isName (operand.filter (!isParenthesis ·))
  | .number, operand => Numeral.isNumber operand
  | .label, operand => labels.isDefined operand
  | .based, operand => (basedRegister? operand).any Register.isName

theorem operandFinding?_eq_none_iff {kind : Kind} {position : Nat} {operand : Bytes} :
    operandFinding? labels kind position operand = none ↔ fits labels kind operand = true := by
  cases kind <;> simp [operandFinding?, fits]

theorem declaredFindings_eq_nil_iff {mnemonic : Bytes} {kinds : List Kind} {operands : List Bytes} :
    declaredFindings labels mnemonic kinds operands = [] ↔
      List.Forall₂ (fun kind operand => fits labels kind operand = true) kinds operands := by
  rw [declaredFindings, List.forall₂_iff_zip]
  split
  · next hlen =>
    simp only [operandFindings, List.filterMap_eq_nil_iff, operandFinding?_eq_none_iff, hlen, true_and]
    constructor
    · intro h kind operand hmem
      obtain ⟨i, hi⟩ := List.mem_iff_getElem?.1 hmem
      exact h ((kind, operand), i) (List.mem_zipIdx_iff_getElem?.2 hi)
    · intro h p hp
      exact h (List.fst_mem_of_mem_zipIdx hp)
  · next hlen => simp [Ne.symm hlen]

/-- Whether all register-shaped names of a text are registers. -/
def isClean (text : Bytes) : Bool := (namesIn text).all Register.isName

theorem registerFindings_eq_nil_iff {texts : List Bytes} :
    registerFindings texts = [] ↔ ∀ text ∈ texts, isClean text = true := by
  simp only [registerFindings, List.map_eq_nil_iff, List.filter_eq_nil_iff, List.mem_flatMap, isClean,
    List.all_eq_true]
  constructor
  · intro h text ht name hn
    simpa using h name ⟨text, ht, hn⟩
  · rintro h name ⟨text, ht, hn⟩
    simpa using h text ht name hn

/-- Whether the target of a branch or jump is known. -/
def HasKnownTarget (labels : Labels) (mnemonic : Bytes) (operands : List Bytes) : Prop :=
  takesTarget mnemonic = true → ∀ target ∈ operands.getLast?, isKnownTarget labels target = true

theorem targetFindings_eq_nil_iff {mnemonic : Bytes} {operands : List Bytes} :
    targetFindings labels mnemonic operands = [] ↔ HasKnownTarget labels mnemonic operands := by
  rw [targetFindings, HasKnownTarget]
  cases operands.getLast? with
  | none => simp
  | some target => cases takesTarget mnemonic <;> simp

theorem lineFindings_eq_nil_iff_of_declared {isa : Isa} {mnemonic : Bytes} {kinds : List Kind}
    (h : isa.find? mnemonic = some kinds) {operands : List Bytes} :
    lineFindings isa labels (mnemonic :: operands) = [] ↔
      List.Forall₂ (fun kind operand => fits labels kind operand = true) kinds operands ∧
        (∀ text ∈ mnemonic :: operands, isClean text = true) ∧ HasKnownTarget labels mnemonic operands := by
  simp only [lineFindings, h, List.append_eq_nil_iff, declaredFindings_eq_nil_iff, registerFindings_eq_nil_iff,
    targetFindings_eq_nil_iff]

theorem lineFindings_eq_nil_iff_of_undeclared {isa : Isa} {mnemonic : Bytes} (h : isa.find? mnemonic = none)
    {operands : List Bytes} :
    lineFindings isa labels (mnemonic :: operands) = [] ↔
      Directive.isName mnemonic = true ∧ (∀ text ∈ mnemonic :: operands, isClean text = true) ∧
        HasKnownTarget labels mnemonic operands := by
  simp only [lineFindings, h]
  split
  · next hd =>
    simp only [List.append_eq_nil_iff, registerFindings_eq_nil_iff, targetFindings_eq_nil_iff, hd, true_and]
  · next hd => simp [hd]

end Check

/-! ## Documents -/

namespace Analysis

open Check

/-- The texts of the words of a line. -/
def lineTexts (raw : Bytes) : List Bytes := (Line.ofBytes raw).words.map Word.text

/-- The findings of a document, line by line. -/
theorem map_placeless_diagnostics (isa : Isa) (raw : List Bytes) :
    (ofLines isa raw).diagnostics.map placeless =
      (raw.map lineTexts).zipIdx.flatMap fun p => (lineFindings isa (Labels.ofLines raw) p.1).map (p.2, ·) := by
  have hzip : (raw.map lineTexts).zipIdx =
      (raw.map Line.ofBytes).zipIdx.map fun p => (p.1.words.map Word.text, p.2) := by
    rw [List.zipIdx_map, List.zipIdx_map, List.map_map]
    rfl
  rw [hzip, List.flatMap_map]
  show List.map _ (List.flatMap _ _) = _
  rw [List.map_flatMap]
  simp only [map_lineDiagnostics]

/-- Nothing is wrong with a document just if nothing is wrong with any of its lines. -/
theorem diagnostics_eq_nil_iff (isa : Isa) (raw : List Bytes) :
    (ofLines isa raw).diagnostics = [] ↔ ∀ line ∈ raw, lineFindings isa (Labels.ofLines raw) (lineTexts line) = [] := by
  rw [← List.map_eq_nil_iff (f := placeless), map_placeless_diagnostics, List.flatMap_eq_nil_iff]
  simp only [List.map_eq_nil_iff]
  constructor
  · intro h line hl
    obtain ⟨i, hi⟩ := List.mem_iff_getElem?.1 hl
    exact h (lineTexts line, i) (List.mem_zipIdx_iff_getElem?.2 (by rw [List.getElem?_map, hi]; rfl))
  · intro h p hp
    obtain ⟨line, hl, hp⟩ := List.mem_map.1 (List.fst_mem_of_mem_zipIdx hp)
    rw [← hp]
    exact h line hl

end Analysis

end AsmLens
