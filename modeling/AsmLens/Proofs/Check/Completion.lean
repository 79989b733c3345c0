import AsmLens.Proofs.Check.Accepted
import AsmLens.Proofs.Check.Append
import AsmLens.Proofs.Isa.Description
import AsmLens.Proofs.Isa.Template
import AsmLens.Proofs.Layout.Meaning

/-!
# What is offered is accepted

The catalogue of a table offers each mnemonic with a template. Inserted as it is, on a line of its own, behind spaces or
behind the definition of a label (`IsLead`), such a template is read as the mnemonic and one operand for each kind
(`lineTexts_filled`). The sample operand of a kind passes the check of its kind, unless that is a label, which the
document need not define (`missesLabel_of_operandFinding?`), and every `$` name in it is a register (`isClean_filled`).
So the checker finds nothing wrong with the line but missing labels (`missesLabel_of_mem_lineFindings`).

* `missesLabel_of_completion`: the templates of the built-in table and of every table that is read from a text.
-/

namespace AsmLens

/-! ## Reading an inserted template -/

namespace Source

/-- Words with commas and spaces between them are read back. -/
theorem wordTexts_join_comma {ws : List Bytes} (h : ∀ w ∈ ws, wordTexts w = [w]) :
    wordTexts (Bytes.join [44, 32] ws) = ws := by
  induction ws with
  | nil => rfl
  | cons w ws ih =>
    have hw := h w List.mem_cons_self
    cases ws with
    | nil => simpa [Bytes.join] using hw
    | cons v ws =>
      have hspace : wordTexts (32 :: Bytes.join [44, 32] (v :: ws)) = v :: ws := by
        have := @wordTexts_append_left [32] (List.forall_mem_singleton.2 rfl) (Bytes.join [44, 32] (v :: ws))
        exact this.trans (ih fun u hu => h u (List.mem_cons_of_mem _ hu))
      rw [Bytes.join_cons_cons, List.append_assoc, List.cons_append, wordTexts_append_separator (by decide), hw]
      exact congrArg (w :: ·) hspace

end Source

open Source (instruction wordTexts)

/-- What may stand in front of an instruction on its line: spaces, or the definition of a label and spaces. -/
inductive IsLead : Bytes → Prop
  | indent {s : Bytes} (hs : ∀ b ∈ s, isSpace b = true) : IsLead s
  | label {indent name gap : Bytes} (hi : ∀ b ∈ indent, isSpace b = true) (hne : name ≠ [])
      (hn : ∀ b ∈ name, isWordByte b = true) (hg : ∀ b ∈ gap, isSpace b = true) : IsLead (indent ++ name ++ 58 :: gap)

/-- Behind a lead a text without a colon is the instruction of its line. -/
theorem IsLead.exists_instruction_eq {lead : Bytes} (h : IsLead lead) {s : Bytes} (hbang : 33 ∉ s) (hcolon : 58 ∉ s) :
    ∃ gap, (∀ b ∈ gap, isSpace b = true) ∧ instruction (lead ++ s) = gap ++ s := by
  have hspace {x : Bytes} (hx : ∀ b ∈ x, isSpace b = true) : 33 ∉ x ∧ 58 ∉ x :=
    ⟨fun hm => absurd (hx _ hm) (by decide), fun hm => absurd (hx _ hm) (by decide)⟩
  cases h with
  | indent hs =>
    have hnone : Source.label? (lead ++ s) = none := by
      rw [Source.label?_append lead hcolon, Option.eq_none_iff_forall_ne_some]
      intro w hw
      obtain ⟨_, _, rfl, -⟩ := Source.eq_of_label? hw
      exact (hspace hs).2 (by simp)
    refine ⟨lead, hs, ?_⟩
    rw [Source.instruction_of_label?_eq_none hnone, Source.code_eq_self (by simp [(hspace hs).1, hbang])]
  | @label indent name gap hi hne hn hg =>
    have hname : 33 ∉ name := fun hm => absurd (hn _ hm) (by decide)
    have hcode : Source.code (indent ++ name ++ 58 :: gap ++ s) = indent ++ name ++ 58 :: (gap ++ s) := by
      rw [Source.code_eq_self (by simp [(hspace hi).1, hname, (hspace hg).1, hbang])]
      simp
    exact ⟨gap, hg, Source.instruction_of_code_eq hcode hi hne hn⟩

namespace Kind

theorem wordTexts_filled (kind : Kind) : wordTexts kind.filled = [kind.filled] := by cases kind <;> rfl

theorem bang_not_mem_filled (kind : Kind) : 33 ∉ kind.filled := by cases kind <;> decide

theorem colon_not_mem_filled (kind : Kind) : 58 ∉ kind.filled := by cases kind <;> decide

end Kind

theorem isInk_of_isWordByte {b : UInt8} (h : isWordByte b = true) : Blank.isInk b = true := by
  rcases Bool.or_eq_true_iff.1 h with h | h
  · exact Marker.isInk_of_isAlnum h
  · obtain rfl : b = 95 := by simpa using h
    rfl

namespace Catalog

/-- The octets of an instruction are those of the mnemonic, of the samples, commas and spaces. -/
theorem not_mem_filled {c : UInt8} {mnemonic : Bytes} (hm : c ∉ mnemonic) (hsep : c ∉ ([44, 32] : Bytes))
    (hk : ∀ kind : Kind, c ∉ kind.filled) (kinds : List Kind) : c ∉ filled mnemonic kinds := by
  cases kinds with
  | nil => exact hm
  | cons kind kinds =>
    intro hc
    rcases List.mem_append.1 hc with hc | hc
    · exact hm hc
    rcases List.mem_cons.1 hc with rfl | hc
    · exact hsep (by decide)
    rcases Bytes.mem_join hc with hc | ⟨w, hw, hc⟩
    · exact hsep hc
    · obtain ⟨kind, -, rfl⟩ := List.mem_map.1 hw
      exact hk kind hc

section Words

variable {mnemonic : Bytes} (hne : mnemonic ≠ []) (hw : ∀ b ∈ mnemonic, isWordByte b = true)

include hne hw

theorem wordTexts_filled (kinds : List Kind) :
    wordTexts (filled mnemonic kinds) = mnemonic :: kinds.map Kind.filled := by
  have hmnemonic : wordTexts mnemonic = [mnemonic] :=
    Source.wordTexts_of_not_isSeparator hne fun b hb => Source.isSeparator_of_isWordByte (hw b hb)
  cases kinds with
  | nil => exact hmnemonic
  | cons kind kinds =>
    have hoperands : ∀ w ∈ (kind :: kinds).map Kind.filled, wordTexts w = [w] := by
      intro w hmem
      obtain ⟨kind, -, rfl⟩ := List.mem_map.1 hmem
      exact kind.wordTexts_filled
    show wordTexts (mnemonic ++ 32 :: Bytes.join [44, 32] ((kind :: kinds).map Kind.filled)) = _
    rw [Source.wordTexts_append_separator (by decide), hmnemonic, Source.wordTexts_join_comma hoperands]
    rfl

/-- The words of an instruction behind a lead. -/
theorem lineTexts_filled (kinds : List Kind) {lead : Bytes} (hlead : IsLead lead) :
    Analysis.lineTexts (lead ++ filled mnemonic kinds) = mnemonic :: kinds.map Kind.filled := by
  have hbang : 33 ∉ filled mnemonic kinds :=
    not_mem_filled (fun hm => absurd (hw _ hm) (by decide)) (by decide) Kind.bang_not_mem_filled kinds
  have hcolon : 58 ∉ filled mnemonic kinds :=
    not_mem_filled (fun hm => absurd (hw _ hm) (by decide)) (by decide) Kind.colon_not_mem_filled kinds
  obtain ⟨gap, hg, hi⟩ := hlead.exists_instruction_eq hbang hcolon
  have hblank : Blank.isBlankText (gap ++ filled mnemonic kinds) = false := by
    obtain ⟨b, rest, rfl⟩ := List.exists_cons_of_ne_nil hne
    have hink := isInk_of_isWordByte (hw b List.mem_cons_self)
    cases kinds with
    | nil => exact Blank.isBlankText_append_ink gap hink _
    | cons kind kinds => exact Blank.isBlankText_append_ink gap hink _
  rw [Layout.lineTexts_eq, hi, hblank, if_neg Bool.false_ne_true, Source.wordTexts_append_left hg,
    wordTexts_filled hne hw]

end Words

theorem mem_ofIsa_iff {isa : Isa} {e : Entry} :
    e ∈ ofIsa isa ↔ ∃ kinds, isa.find? e.mnemonic = some kinds ∧ e = entry e.mnemonic kinds := by
  simp only [ofIsa, List.mem_map, Dictionary.find?_eq_some_iff]
  constructor
  · rintro ⟨⟨mnemonic, kinds⟩, hmem, rfl⟩
    exact ⟨kinds, hmem, rfl⟩
  · rintro ⟨kinds, hmem, he⟩
    exact ⟨(e.mnemonic, kinds), hmem, he.symm⟩

end Catalog

/-! ## Checking an inserted template -/

namespace Check

variable {isa : Isa} {labels : Labels}

theorem fits_filled {kind : Kind} (h : kind ≠ .label) : fits labels kind kind.filled = true := by
  cases kind with
  | label => exact absurd rfl h
  | register => rfl
  | number => rfl
  | based => rfl

/-- A sample operand is of its kind, but for labels. -/
theorem missesLabel_of_operandFinding? {kind : Kind} {position : Nat} {finding : Finding}
    (h : operandFinding? labels kind position kind.filled = some finding) : finding.missesLabel = true := by
  by_cases hk : kind = .label
  · subst hk
    simp only [operandFinding?] at h
    split at h
    · cases h
    · cases h
      rfl
  · rw [operandFinding?_eq_none_iff.2 (fits_filled hk)] at h
    cases h

theorem isClean_filled (kind : Kind) : isClean kind.filled = true := by cases kind <;> decide

theorem missesLabel_of_mem_declaredFindings {mnemonic : Bytes} {kinds : List Kind} {finding : Finding}
    (h : finding ∈ declaredFindings labels mnemonic kinds (kinds.map Kind.filled)) : finding.missesLabel = true := by
  rw [declaredFindings, if_pos (List.length_map _)] at h
  obtain ⟨⟨⟨kind, operand⟩, i⟩, hmem, hf⟩ := List.mem_filterMap.1 h
  have hzip := List.fst_mem_of_mem_zipIdx hmem
  rw [← List.map_prod_left_eq_zip] at hzip
  obtain ⟨kind', -, hk⟩ := List.mem_map.1 hzip
  obtain ⟨rfl, rfl⟩ := Prod.mk.inj hk
  exact missesLabel_of_operandFinding? hf

theorem missesLabel_of_mem_targetFindings {mnemonic : Bytes} {operands : List Bytes} {finding : Finding}
    (h : finding ∈ targetFindings labels mnemonic operands) : finding.missesLabel = true := by
  unfold targetFindings at h
  split at h
  · cases h
  · split at h
    · obtain rfl := List.mem_singleton.1 h
      rfl
    · cases h

/-- Nothing is wrong with an instruction and its sample operands but that labels may be missing. -/
theorem missesLabel_of_mem_lineFindings {mnemonic : Bytes} {kinds : List Kind} (hf : isa.find? mnemonic = some kinds)
    (hd : 36 ∉ mnemonic) {finding : Finding}
    (h : finding ∈ lineFindings isa labels (mnemonic :: kinds.map Kind.filled)) : finding.missesLabel = true := by
  have hclean : registerFindings (mnemonic :: kinds.map Kind.filled) = [] := by
    rw [registerFindings_eq_nil_iff, List.forall_mem_cons, List.forall_mem_map]
    exact ⟨isClean_of_not_mem hd, fun kind _ => isClean_filled kind⟩
  simp only [lineFindings, hf, hclean, List.nil_append, List.mem_append] at h
  rcases h with h | h
  · exact missesLabel_of_mem_declaredFindings h
  · exact missesLabel_of_mem_targetFindings h

end Check

/-- A diagnostic of a line is one of the findings about the texts of its words. -/
theorem Analysis.finding_mem_lineFindings {isa : Isa} {raw : List Bytes} {d : Diagnostic}
    (h : d ∈ (ofLines isa raw).diagnostics) :
    ∃ line, raw[d.line]? = some line ∧ d.finding ∈ Check.lineFindings isa (Labels.ofLines raw) (lineTexts line) := by
  obtain ⟨line, hline, hd⟩ := exists_of_mem_diagnostics isa raw h
  refine ⟨line, hline, ?_⟩
  have hplaceless := List.mem_map_of_mem (f := Check.placeless) hd
  rw [Check.map_lineDiagnostics] at hplaceless
  obtain ⟨finding, hmem, hf⟩ := List.mem_map.1 hplaceless
  rw [← (Prod.mk.inj hf).2]
  exact hmem

/-! ## Tables that are read -/

namespace Description

/-- No line declares an empty mnemonic. -/
theorem ne_nil_of_find?_parse {text m : Bytes} {kinds : List Kind} (h : (parse text).find? m = some kinds) :
    m ≠ [] := by
  rw [parse, Dictionary.find?_ofList] at h
  obtain ⟨before, after, hsplit, -⟩ := List.lookup_eq_some_iff.1 h
  have hmem : (m, kinds) ∈ (text.splitOn 10).filterMap declaration? := by
    rw [← List.mem_reverse, hsplit]
    simp
  obtain ⟨line, -, hd⟩ := List.mem_filterMap.1 hmem
  simp only [declaration?] at hd
  split at hd
  · cases hd
  · split at hd
    · cases hd
    · next mnemonic later hfields =>
      cases hd
      exact (Blank.isSolid_of_mem_fields (hfields ▸ List.mem_cons_self)).1

end Description

/-- The catalogue of the built-in table, or of a table read from a text, has one entry for each mnemonic. If the
mnemonic is a word, the places of its template are numbered from 1 on, one for each operand, and on a line that is the
template expanded, behind spaces or a label definition, nothing is ever found wrong but missing labels. -/
theorem missesLabel_of_completion {isa : Isa} (hisa : isa = Isa.default ∨ ∃ text, isa = Description.parse text)
    {m : Bytes} {kinds : List Kind} (hm : isa.find? m = some kinds) (hw : ∀ b ∈ m, isWordByte b = true) :
    ∃ entry, (∀ e, e ∈ Catalog.ofIsa isa ∧ e.mnemonic = m ↔ e = entry) ∧
      Template.numbers entry.snippet = (List.range' 1 kinds.length).map Bytes.decimal ∧
      ∀ (raw : List Bytes) (i : Nat) (lead : Bytes), IsLead lead →
        raw[i]? = some (lead ++ Template.expand entry.snippet) →
        ∀ d ∈ (Analysis.ofLines isa raw).diagnostics, d.line = i → d.finding.missesLabel = true := by
  have hne : m ≠ [] := by
    rcases hisa with rfl | ⟨text, rfl⟩
    · have hnone : Isa.default.find? [] = none := by decide +kernel
      rintro rfl
      rw [hnone] at hm
      cases hm
    · exact Description.ne_nil_of_find?_parse hm
  have hdollar : 36 ∉ m := fun h => absurd (hw _ h) (by decide)
  have hslash : 92 ∉ m := fun h => absurd (hw _ h) (by decide)
  refine ⟨Catalog.entry m kinds, fun e => ?_, Catalog.numbers_snippet hdollar kinds, ?_⟩
  · rw [Catalog.mem_ofIsa_iff]
    constructor
    · rintro ⟨⟨kinds', hf, he⟩, rfl⟩
      rw [hm] at hf
      cases hf
      exact he
    · rintro rfl
      exact ⟨⟨kinds, hm, rfl⟩, rfl⟩
  · rintro raw i lead hlead hraw d hd rfl
    obtain ⟨line, hline, hfinding⟩ := Analysis.finding_mem_lineFindings hd
    have hexpand : Template.expand (Catalog.entry m kinds).snippet = Catalog.filled m kinds :=
      Catalog.expand_snippet hdollar hslash kinds
    rw [hraw, hexpand] at hline
    cases hline
    rw [Catalog.lineTexts_filled hne hw kinds hlead] at hfinding
    exact Check.missesLabel_of_mem_lineFindings hm hdollar hfinding

/-- A branch whose target is a number with a register, so that the sample operand is no label. -/
def basedBranch : Bytes := utf8 "beq $D, #I($S) : 1010"

theorem missesLabel_of_completion_basedBranch :
    (Description.parse basedBranch).find? (utf8 "beq") = some [.register, .based] ∧
      ∃ entry, entry ∈ Catalog.ofIsa (Description.parse basedBranch) ∧
        Template.numbers entry.snippet = [utf8 "1", utf8 "2"] ∧
        ∀ d ∈ (Analysis.ofLines (Description.parse basedBranch)
          [utf8 "go:" ++ Template.expand entry.snippet]).diagnostics, d.line = 0 → d.finding.missesLabel = true := by
  have hm : (Description.parse basedBranch).find? (utf8 "beq") = some [.register, .based] := by decide +kernel
  have hlead : IsLead (utf8 "go:") :=
    @IsLead.label [] (utf8 "go") [] (by simp) (by decide) (List.all_eq_true.1 rfl) (by simp)
  have hword : ∀ b ∈ utf8 "beq", isWordByte b = true := List.all_eq_true.1 rfl
  obtain ⟨entry, hentry, hnumbers, hlines⟩ := missesLabel_of_completion (.inr ⟨basedBranch, rfl⟩) hm hword
  exact ⟨hm, entry, ((hentry entry).2 rfl).1, hnumbers, hlines _ 0 _ hlead rfl⟩

-- All that is said of such an expansion is that its target is no label.
example : Template.expand (Catalog.snippet (utf8 "beq") [.register, .based]) = utf8 "beq $t0, 0($t0)" ∧
    (Analysis.ofLines (Description.parse (utf8 "beq $D, #I($S) :")) [utf8 "go:beq $t0, 0($t0)"]).diagnostics =
      [⟨0, 12, 18, .undefinedLabel (utf8 "0($t0)")⟩] := by
  decide +kernel

end AsmLens
