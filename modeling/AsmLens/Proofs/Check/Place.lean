import AsmLens.Proofs.Check.Findings
import AsmLens.Proofs.Source.Place

/-!
# Where diagnostics point

Everything the checker says about a line it says about a word of the line or about a `$` name inside one. `Says` lists
what can be said of which stretch and in which words; `isSaid_of_mem_lineDiagnostics` shows that the checker says
nothing else, and `Says.inWord` that the stretch is in one of the words. As words stand where their columns say, a
diagnostic points at the very text that it quotes (`pointsAt_of_isSaid`), in the code of the line and behind its label
definition.

* `pointsAt_diagnostics`: every diagnostic of a document points at what it quotes, and they come in order of line.
-/

namespace AsmLens

namespace Check

/-! ## What is said of which stretch -/

/-- What can be said about a stretch of a line, as a finding and in words. -/
inductive Says (line : Line) (w : Word) : Finding → Bytes → Prop
  | illegalMnemonic (h : line.mnemonic? = some w) :
    Says line w (.illegalMnemonic w.text) (utf8 "Illegal mnemonic: " ++ w.text)
  | operandCount (expected : Nat) (h : line.mnemonic? = some w) (hne : line.operands.length ≠ expected) :
    Says line w (.operandCount w.text expected line.operands.length)
      (utf8 "Expected " ++ Bytes.decimal expected ++ utf8 " operand(s) for '" ++ w.text ++ utf8 "', got " ++
        Bytes.decimal line.operands.length)
  /-- The operand at a position, which the message counts from 1. -/
  | operandKind (kind : Kind) (i : Nat) (hk : kind ≠ .label) (h : line.operands[i]? = some w) :
    Says line w (.operandKind kind (i + 1) w.text)
      (utf8 "Expected " ++ kind.name ++ (if kind = .based then utf8 " format" else []) ++ utf8 " at position " ++
        Bytes.decimal (i + 1) ++ utf8 ", got '" ++ w.text ++ utf8 "'")
  | expectedLabel (i : Nat) (h : line.operands[i]? = some w) :
    Says line w (.expectedLabel (i + 1) w.text)
      (utf8 "Expected label at position " ++ Bytes.decimal (i + 1) ++ utf8 ", got '" ++ w.text ++ utf8 "'")
  /-- A name in a word, the word itself perhaps. -/
  | invalidRegister (around : Word) (h : around ∈ line.words) (hw : w.StandsIn around.start around.text)
      (hd : w.text.head? = some 36) : Says line w (.invalidRegister w.text) (utf8 "Invalid register: " ++ w.text)
  | undefinedLabel (h : line.operands.getLast? = some w) :
    Says line w (.undefinedLabel w.text) (utf8 "Undefined label: " ++ w.text)

variable {isa : Isa} {labels : Labels} {number : Nat} {line : Line} {w : Word} {d : Diagnostic}

/-- Whatever is said is said about a stretch of a word. -/
theorem Says.inWord {finding : Finding} {message : Bytes} (h : Says line w finding message) :
    ∃ around ∈ line.words, w.StandsIn around.start around.text ∧ (w = around ∨ w.text.head? = some 36) := by
  have whole (hw : w ∈ line.words) :
      ∃ around ∈ line.words, w.StandsIn around.start around.text ∧ (w = around ∨ w.text.head? = some 36) :=
    ⟨w, hw, .self w, .inl rfl⟩
  cases h with
  | illegalMnemonic h => exact whole (List.mem_of_head? h)
  | operandCount _ h _ => exact whole (List.mem_of_head? h)
  | operandKind _ i _ h => exact whole (List.mem_of_mem_tail (List.mem_of_getElem? h))
  | expectedLabel i h => exact whole (List.mem_of_mem_tail (List.mem_of_getElem? h))
  | invalidRegister around h hw hd => exact ⟨around, h, hw, .inr hd⟩
  | undefinedLabel h => exact whole (List.mem_of_mem_tail (List.mem_of_getLast? h))

/-- A diagnostic that is about a stretch of which its finding can be said. -/
def IsSaid (number : Nat) (line : Line) (d : Diagnostic) : Prop :=
  ∃ w, d = about number w d.finding ∧ Says line w d.finding d.message

theorem isSaid_of_mem_operandDiagnostics {kinds : List Kind}
    (h : d ∈ operandDiagnostics labels number kinds line.operands) : IsSaid number line d := by
  obtain ⟨⟨⟨kind, w⟩, i⟩, hmem, hd⟩ := List.mem_filterMap.1 h
  obtain ⟨finding, hf, rfl⟩ := Option.map_eq_some_iff.1 hd
  have hzip := List.getElem?_zip_eq_some.1 (List.mem_zipIdx_iff_getElem?.1 hmem)
  refine ⟨w, rfl, ?_⟩
  -- A label that is missing is a finding of its own, the other kinds share one.
  cases kind <;> simp only [operandFinding?] at hf <;> split at hf <;> cases hf
  · exact .operandKind .register i (by decide) hzip.2
  · exact .operandKind .number i (by decide) hzip.2
  · exact .expectedLabel i hzip.2
  · exact .operandKind .based i (by decide) hzip.2

theorem isSaid_of_mem_declaredDiagnostics {kinds : List Kind} (hw : line.mnemonic? = some w)
    (h : d ∈ declaredDiagnostics labels number w kinds line.operands) : IsSaid number line d := by
  unfold declaredDiagnostics at h
  split at h
  · exact isSaid_of_mem_operandDiagnostics h
  · next hne =>
    obtain rfl := List.mem_singleton.1 h
    exact ⟨w, rfl, .operandCount kinds.length hw hne⟩

/-- A name that has to be a register stands in its word and begins with `$`. -/
theorem standsIn_of_mem_registerNames {around : Word} (h : w ∈ registerNames around) :
    w.StandsIn around.start around.text ∧ w.text.head? = some 36 := by
  unfold registerNames at h
  split at h
  · next hd =>
    obtain rfl := List.mem_singleton.1 h
    exact ⟨.self w, hd⟩
  · obtain ⟨before, name, after, hs, -, -, rfl⟩ := mem_dollarNames_iff.1 h
    exact ⟨⟨before, after, by simpa using hs, rfl⟩, rfl⟩

theorem isSaid_of_mem_registerDiagnostics (h : d ∈ registerDiagnostics number line.words) : IsSaid number line d := by
  obtain ⟨w, hw, rfl⟩ := List.mem_map.1 h
  obtain ⟨around, ha, hn⟩ := List.mem_flatMap.1 (List.mem_filter.1 hw).1
  obtain ⟨hin, hd⟩ := standsIn_of_mem_registerNames hn
  exact ⟨w, rfl, .invalidRegister around ha hin hd⟩

theorem isSaid_of_mem_targetDiagnostics {mnemonic : Bytes}
    (h : d ∈ targetDiagnostics labels number mnemonic line.operands) : IsSaid number line d := by
  unfold targetDiagnostics at h
  split at h
  · cases h
  · next target ht =>
    split at h
    · obtain rfl := List.mem_singleton.1 h
      exact ⟨target, rfl, .undefinedLabel ht⟩
    · cases h

/-- Nothing else is reported about a line. -/
theorem isSaid_of_mem_lineDiagnostics (h : d ∈ lineDiagnostics isa labels number line) : IsSaid number line d := by
  unfold lineDiagnostics at h
  split at h
  · cases h
  · next mnemonic operands hw =>
    have hm : line.mnemonic? = some mnemonic := by rw [Line.mnemonic?, hw]; rfl
    have ho : operands = line.operands := by rw [Line.operands, hw]; rfl
    subst ho
    have hgeneral (h : d ∈ generalDiagnostics labels number mnemonic line.operands) : IsSaid number line d := by
      rw [generalDiagnostics, ← hw] at h
      rcases List.mem_append.1 h with h | h
      · exact isSaid_of_mem_registerDiagnostics h
      · exact isSaid_of_mem_targetDiagnostics h
    split at h
    · rcases List.mem_append.1 h with h | h
      · exact isSaid_of_mem_declaredDiagnostics hm h
      · exact hgeneral h
    · unfold undeclaredDiagnostics at h
      split at h
      · exact hgeneral h
      · obtain rfl := List.mem_singleton.1 h
        exact ⟨mnemonic, rfl, .illegalMnemonic hm⟩

end Check

open Check

/-! ## What diagnostics point at -/

/-- A diagnostic points at what it is about: a stretch of the code of a line, behind the label definition, of which its
message speaks. -/
structure PointsAt (raw : Bytes) (d : Diagnostic) : Prop where
  start_lt_stop : d.start < d.stop
  stop_le : d.stop ≤ (Source.code raw).length
  labelEnd_le : Source.labelEnd raw ≤ d.start
  quoted : Says (Line.ofBytes raw) ⟨raw.extract d.start d.stop, d.start⟩ d.finding d.message

theorem pointsAt_of_isSaid {raw : Bytes} {number : Nat} {d : Diagnostic} (h : IsSaid number (Line.ofBytes raw) d) :
    PointsAt raw d := by
  obtain ⟨w, hd, hsays⟩ := h
  obtain ⟨around, ha, hin, hor⟩ := hsays.inWord
  obtain ⟨haround, hne⟩ := Line.standsIn_of_mem_words ha
  have hplace := hin.trans haround
  have hcode := hplace.of_instruction
  have hraw : w.StandsIn 0 raw := by
    rw [← Source.code_append_comment raw]
    exact hcode.append_right _
  have hpos : 0 < w.text.length := by
    rcases hor with rfl | hdollar
    · exact List.length_pos_of_ne_nil hne
    · exact List.length_pos_of_ne_nil fun hnil => by rw [hnil] at hdollar; cases hdollar
  have hstart : d.start = w.start := by rw [hd]; rfl
  have hstop : d.stop = w.stop := by rw [hd]; rfl
  refine ⟨?_, ?_, ?_, ?_⟩
  · rw [hstart, hstop, Word.stop]
    omega
  · rw [hstop]
    simpa using hcode.stop_le
  · rw [hstart]
    exact hplace.start_le
  · rw [hstart, hstop, hraw.extract_eq]
    exact hsays

namespace Analysis

variable (isa : Isa) (raw : List Bytes)

/-- A diagnostic of a document is one of the line that it names. -/
theorem exists_of_mem_diagnostics {d : Diagnostic} (h : d ∈ (ofLines isa raw).diagnostics) :
    ∃ line, raw[d.line]? = some line ∧ d ∈ lineDiagnostics isa (Labels.ofLines raw) d.line (Line.ofBytes line) := by
  obtain ⟨⟨line, i⟩, hmem, hd⟩ := List.mem_flatMap.1 h
  obtain ⟨w, hline, -⟩ := isSaid_of_mem_lineDiagnostics hd
  obtain rfl : d.line = i := by rw [hline]; rfl
  have hget := List.mem_zipIdx_iff_getElem?.1 hmem
  rw [List.getElem?_map, Option.map_eq_some_iff] at hget
  obtain ⟨line, hraw, rfl⟩ := hget
  exact ⟨line, hraw, hd⟩

theorem mem_diagnostics_iff {d : Diagnostic} : d ∈ (ofLines isa raw).diagnostics ↔
    ∃ line, raw[d.line]? = some line ∧ d ∈ lineDiagnostics isa (Labels.ofLines raw) d.line (Line.ofBytes line) := by
  refine ⟨exists_of_mem_diagnostics isa raw, ?_⟩
  rintro ⟨line, hline, hd⟩
  refine List.mem_flatMap.2 ⟨(Line.ofBytes line, d.line), List.mem_zipIdx_iff_getElem?.2 ?_, hd⟩
  rw [List.getElem?_map, hline]
  rfl

/-- Diagnostics come in order of line. -/
theorem pairwise_line_diagnostics : (ofLines isa raw).diagnostics.Pairwise (·.line ≤ ·.line) := by
  have hline {p : Line × Nat} {d : Diagnostic}
      (h : d ∈ lineDiagnostics isa (Labels.ofLines raw) p.2 p.1) : d.line = p.2 := by
    obtain ⟨w, hd, -⟩ := isSaid_of_mem_lineDiagnostics h
    rw [hd]
    rfl
  have hindex : (raw.map Line.ofBytes).zipIdx.Pairwise (·.2 < ·.2) := by
    rw [← List.pairwise_map (f := Prod.snd) (R := (· < ·)), List.zipIdx_map_snd]
    exact List.pairwise_lt_range'
  show (List.flatMap _ _).Pairwise _
  rw [List.pairwise_flatMap]
  refine ⟨fun p _ => ?_, hindex.imp fun hlt d hd d' hd' => ?_⟩
  · apply List.pairwise_of_forall_mem_list
    intro d hd d' hd'
    rw [hline hd, hline hd']
  · rw [hline hd, hline hd']
    omega

end Analysis

/-- Every diagnostic points at what it quotes, on a line of the document, and they come in order of line. -/
theorem pointsAt_diagnostics (isa : Isa) (raw : List Bytes) :
    (∀ d ∈ (Analysis.ofLines isa raw).diagnostics, ∃ line, raw[d.line]? = some line ∧ PointsAt line d) ∧
      (Analysis.ofLines isa raw).diagnostics.Pairwise (·.line ≤ ·.line) := by
  refine ⟨fun d hd => ?_, Analysis.pairwise_line_diagnostics isa raw⟩
  obtain ⟨line, hline, hd⟩ := Analysis.exists_of_mem_diagnostics isa raw hd
  exact ⟨line, hline, pointsAt_of_isSaid (isSaid_of_mem_lineDiagnostics hd)⟩

/-- A line with a label, a comment and a name inside an operand that is no register. -/
def nestedName : Bytes := utf8 "go: lw $t0, 4($q) ! $q"

theorem pointsAt_diagnostics_nestedName :
    ⟨0, 14, 16, .invalidRegister (utf8 "$q")⟩ ∈ (Analysis.ofLines Isa.default [nestedName]).diagnostics ∧
      PointsAt nestedName ⟨0, 14, 16, .invalidRegister (utf8 "$q")⟩ := by
  have hmem : ⟨0, 14, 16, .invalidRegister (utf8 "$q")⟩ ∈ (Analysis.ofLines Isa.default [nestedName]).diagnostics := by
    decide
  obtain ⟨line, hline, hpoints⟩ := (pointsAt_diagnostics Isa.default [nestedName]).1 _ hmem
  obtain rfl : nestedName = line := Option.some.inj hline
  exact ⟨hmem, hpoints⟩

end AsmLens
