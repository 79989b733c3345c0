import AsmLens.Proofs.Check.Accepted
import AsmLens.Proofs.Check.Coded
import AsmLens.Proofs.Check.Reported

/-!
# What is shown agrees with what is reported

The text under a position is found by another way than the diagnostics: the stretch of the line that covers the column
is looked up, and of an operand only the piece between its parentheses. As the stretches of a line come one behind the
other, the one that is found is the only one (`wordAt?_eq_some`), so that what is shown of a word can be held against
what is reported of it.

* `hover_agrees`: no question goes without an answer, a text is shown over code only, and what it says of a word is what
  the diagnostics with the columns of that word say.
-/

namespace AsmLens

/-! ## Pieces of operands -/

/-- A longest stretch of a text without parentheses that has the `k`-th octet in it or right behind it. -/
def IsPieceAt (s : Bytes) (k : Nat) (piece : Bytes) : Prop :=
  ∃ before after, s = before ++ piece ++ after ∧ before.length ≤ k ∧ k ≤ before.length + piece.length ∧
    (∀ b ∈ piece, Check.isParenthesis b = false) ∧ (∀ b ∈ before.getLast?, Check.isParenthesis b = true) ∧
    ∀ b ∈ after.head?, Check.isParenthesis b = true

namespace Word

variable {w : Word} {k : Nat}

theorem isPieceAt_pieceAt (hk : k ≤ w.text.length) : IsPieceAt w.text k (w.pieceAt k) := by
  have hfront : ((w.text.take k).reverse.dropWhile (!Check.isParenthesis ·)).reverse ++
      ((w.text.take k).reverse.takeWhile (!Check.isParenthesis ·)).reverse = w.text.take k := by
    rw [← List.reverse_append, List.takeWhile_append_dropWhile, List.reverse_reverse]
  have hback : (w.text.drop k).takeWhile (!Check.isParenthesis ·) ++
      (w.text.drop k).dropWhile (!Check.isParenthesis ·) = w.text.drop k := List.takeWhile_append_dropWhile
  have hlength := congrArg List.length hfront
  rw [List.length_append, List.length_take, Nat.min_eq_left hk] at hlength
  refine ⟨((w.text.take k).reverse.dropWhile (!Check.isParenthesis ·)).reverse,
    (w.text.drop k).dropWhile (!Check.isParenthesis ·), ?_, by omega, ?_, ?_, ?_, ?_⟩
  · rw [pieceAt, ← List.append_assoc, hfront, List.append_assoc, hback, List.take_append_drop]
  · rw [pieceAt, List.length_append]
    omega
  · intro b hb
    rcases List.mem_append.1 hb with hb | hb
    · simpa using List.mem_takeWhile_imp (List.mem_reverse.1 hb)
    · simpa using List.mem_takeWhile_imp hb
  · intro b hb
    rw [List.getLast?_reverse] at hb
    simpa using head?_dropWhile_false _ _ b hb
  · intro b hb
    simpa using head?_dropWhile_false _ _ b hb

/-- What has no parentheses is one piece. -/
theorem pieceAt_of_forall (hw : ∀ b ∈ w.text, Check.isParenthesis b = false) (k : Nat) : w.pieceAt k = w.text := by
  have hfront : (w.text.take k).reverse.takeWhile (!Check.isParenthesis ·) = (w.text.take k).reverse :=
    List.takeWhile_eq_self_iff.2 fun b hb => by simp [hw b (List.mem_of_mem_take (List.mem_reverse.1 hb))]
  have hback : (w.text.drop k).takeWhile (!Check.isParenthesis ·) = w.text.drop k :=
    List.takeWhile_eq_self_iff.2 fun b hb => by simp [hw b (List.mem_of_mem_drop hb)]
  rw [pieceAt, hfront, hback, List.reverse_reverse, List.take_append_drop]

theorem covers_iff {column : Int} : w.covers column = true ↔ w.start ≤ column ∧ column < w.stop := by
  simp [covers]

end Word

/-! ## Stretches under a column -/

namespace Line

variable {raw : Bytes} {v w : Word} {column : Int}

/-- The label of a line and its words stand in the code and have no separators in them. -/
theorem standsIn_of_mem_stretches (h : w ∈ (ofBytes raw).label.toList ++ (ofBytes raw).words) :
    w.StandsIn 0 (Source.code raw) ∧ ∀ b ∈ w.text, Source.isSeparator b = false := by
  rcases List.mem_append.1 h with h | h
  · obtain ⟨indent, rest, hcode, -, -, hword, hstart⟩ := Source.eq_of_label? (Option.mem_toList.1 h)
    refine ⟨⟨indent, 58 :: rest, hcode, by omega⟩, fun b hb => ?_⟩
    exact Source.isSeparator_of_isWordByte (hword b hb)
  · refine ⟨(standsIn_of_mem_words h).1.of_instruction, ?_⟩
    exact Source.not_isSeparator_of_mem_runs (Source.mem_runs_of_mem_words h)

/-- A column that a word covers is not in the label definition. -/
theorem label_filter_covers (hw : w ∈ (ofBytes raw).words) (hc : w.covers column = true) :
    (ofBytes raw).label.filter (·.covers column) = none := by
  rw [Option.filter_eq_none_iff]
  intro name hname hcovers
  have hle : name.stop ≤ w.start :=
    (List.pairwise_append.1 (pairwise_stretches raw)).2.2 name (Option.mem_toList.2 hname) w hw
  rw [Word.covers_iff] at hc hcovers
  omega

/-- The word that covers a column is the one that is found. -/
theorem wordAt?_eq_some {k : Nat} (hk : (ofBytes raw).words[k]? = some w) (hc : w.covers column = true) :
    Analysis.wordAt? (ofBytes raw) column = some (w, k == 0) := by
  obtain ⟨hlt, rfl⟩ := List.getElem?_eq_some_iff.1 hk
  rw [Analysis.wordAt?, Option.map_eq_some_iff]
  refine ⟨((ofBytes raw).words[k], k), ?_, rfl⟩
  rw [List.find?_eq_some_iff_getElem]
  refine ⟨hc, k, by simpa using hlt, by simp, fun j hj => ?_⟩
  have hle : (ofBytes raw).words[j].stop ≤ (ofBytes raw).words[k].start :=
    List.pairwise_iff_getElem.1 (List.pairwise_append.1 (pairwise_stretches raw)).2.1 j k _ hlt hj
  have hnot : ¬ (ofBytes raw).words[j].covers column = true := by
    rw [Word.covers_iff] at hc ⊢
    omega
  simpa using hnot

end Line

namespace Analysis

/-! ## Answers for a line -/

section Lines

variable (a : Analysis) (number : Nat) {raw : Bytes} {w : Word} {column : Int}

theorem hoverLine?_of_mnemonic (hw : (Line.ofBytes raw).mnemonic? = some w) (hc : w.covers column = true) :
    a.hoverLine? number (Line.ofBytes raw) column = a.hoverMnemonic? w.text := by
  have hget : (Line.ofBytes raw).words[0]? = some w := by rw [← List.head?_eq_getElem?]; exact hw
  rw [hoverLine?, Line.label_filter_covers (List.mem_of_getElem? hget) hc, Line.wordAt?_eq_some hget hc]
  rfl

theorem hoverLine?_of_operand (hw : w ∈ (Line.ofBytes raw).operands) (hc : w.covers column = true) :
    a.hoverLine? number (Line.ofBytes raw) column = a.hoverPiece? (w.pieceAt (column - w.start).toNat) := by
  obtain ⟨k, hk⟩ := List.mem_iff_getElem?.1 hw
  rw [Line.operands, List.getElem?_tail] at hk
  rw [hoverLine?, Line.label_filter_covers (List.mem_of_getElem? hk) hc, Line.wordAt?_eq_some hk hc]
  rfl

variable {a number} {line : Line}

/-- What is shown is shown over the label definition, the mnemonic or an operand. -/
theorem hoverLine?_cases {h : Hover} (hh : a.hoverLine? number line column = some h) :
    ∃ w ∈ line.label.toList ++ line.words, w.covers column = true ∧
      (h = .labelDefinition w.text number ∨ a.hoverMnemonic? w.text = some h ∨ ∃ piece, a.hoverPiece? piece = some h) := by
  rw [hoverLine?] at hh
  split at hh
  · next name hname =>
    obtain ⟨hlabel, hc⟩ := Option.filter_eq_some_iff.1 hname
    cases hh
    exact ⟨name, List.mem_append_left _ (Option.mem_toList.2 hlabel), hc, .inl rfl⟩
  · have hfound {w : Word} {first : Bool} (hw : wordAt? line column = some (w, first)) :
        w ∈ line.label.toList ++ line.words ∧ w.covers column = true := by
      rw [wordAt?, Option.map_eq_some_iff] at hw
      obtain ⟨⟨v, k⟩, hfind, hv⟩ := hw
      obtain ⟨rfl, -⟩ := Prod.mk.inj hv
      refine ⟨List.mem_append_right _ (List.fst_mem_of_mem_zipIdx (List.mem_of_find?_eq_some hfind)), ?_⟩
      simpa using List.find?_some hfind
    split at hh
    · cases hh
    · next w hw => exact ⟨w, (hfound hw).1, (hfound hw).2, .inr (.inl hh)⟩
    · next w hw => exact ⟨w, (hfound hw).1, (hfound hw).2, .inr (.inr ⟨_, hh⟩)⟩

end Lines

/-! ## Answers for a document -/

section Documents

variable (isa : Isa) {raw : List Bytes}

theorem hover?_of_line {i : Nat} {line : Bytes} (hline : raw[i]? = some line) (column : Int) :
    (ofLines isa raw).hover? ⟨i, column⟩ = (ofLines isa raw).hoverLine? i (Line.ofBytes line) column := by
  have hget : (ofLines isa raw).lines[i]? = some (Line.ofBytes line) := by
    show (raw.map Line.ofBytes)[i]? = _
    rw [List.getElem?_map, hline]
    rfl
  simp only [hover?, if_neg (Int.not_lt.2 (Int.natCast_nonneg i)), Int.toNat_natCast, hget]

variable {isa}

/-- An answer is one about a line of the document. -/
theorem exists_line_of_hover? {p : Position} {h : Hover} (hh : (ofLines isa raw).hover? p = some h) :
    ∃ (i : Nat) (line : Bytes), p.line = i ∧ raw[i]? = some line ∧
      (ofLines isa raw).hoverLine? i (Line.ofBytes line) p.character = some h := by
  rw [hover?] at hh
  split at hh
  · cases hh
  · next hnonneg =>
    split at hh
    · cases hh
    · next line hget =>
      have hget : (raw.map Line.ofBytes)[p.line.toNat]? = some line := hget
      rw [List.getElem?_map, Option.map_eq_some_iff] at hget
      obtain ⟨line, hline, rfl⟩ := hget
      exact ⟨p.line.toNat, line, (Int.toNat_of_nonneg (by omega)).symm, hline, hh⟩

theorem hoverPiece?_ne_instruction {a : Analysis} {piece mnemonic : Bytes} {kinds : List Kind} :
    a.hoverPiece? piece ≠ some (.instruction mnemonic kinds) := by
  rw [hoverPiece?]
  split
  · simp
  · split
    · simp
    · split <;> simp

/-- What is shown of an instruction is its entry in the table. -/
theorem find?_of_hover? {p : Position} {mnemonic : Bytes} {kinds : List Kind}
    (hh : (ofLines isa raw).hover? p = some (.instruction mnemonic kinds)) : isa.find? mnemonic = some kinds := by
  obtain ⟨i, line, -, -, hh⟩ := exists_line_of_hover? hh
  obtain ⟨w, -, -, hc | hm | ⟨piece, hpiece⟩⟩ := hoverLine?_cases hh
  · cases hc
  · rw [hoverMnemonic?] at hm
    split at hm
    · next hk =>
      cases hm
      exact hk
    · split at hm <;> cases hm
  · exact absurd hpiece hoverPiece?_ne_instruction

/-- The position is over an octet that stands before any `!` of a line and is neither space nor comma. -/
def IsOverCode (raw : List Bytes) (p : Position) : Prop :=
  ∃ (i j : Nat) (s : Bytes) (b : UInt8), p = ⟨i, j⟩ ∧ raw[i]? = some s ∧ s[j]? = some b ∧ 33 ∉ s.take (j + 1) ∧
    b ∉ ([9, 10, 12, 13, 32, 44] : Bytes)

theorem isOverCode_of_covers {i : Nat} {line : Bytes} (hline : raw[i]? = some line) {w : Word}
    (hw : w ∈ (Line.ofBytes line).label.toList ++ (Line.ofBytes line).words) {column : Int}
    (hc : w.covers column = true) : IsOverCode raw ⟨i, column⟩ := by
  obtain ⟨hplace, hseparator⟩ := Line.standsIn_of_mem_stretches hw
  rw [Word.covers_iff] at hc
  obtain ⟨j, rfl⟩ : ∃ j : Nat, column = j := ⟨column.toNat, (Int.toNat_of_nonneg (by omega)).symm⟩
  obtain ⟨b, hb, hget⟩ := hplace.exists_getElem? (j := j) (by omega) (by omega)
  obtain ⟨hj, -⟩ := List.getElem?_eq_some_iff.1 hget
  refine ⟨i, j, line, b, rfl, hline, ?_, fun hbang => ?_, ?_⟩
  · rw [← Source.code_append_comment line, List.getElem?_append_left hj, hget]
  · rw [← Source.code_append_comment line, List.take_append_of_le_length hj] at hbang
    exact Source.bang_not_mem_code line (List.mem_of_mem_take hbang)
  · have := hseparator b hb
    simp only [Source.isSeparator, isSpace, Bool.or_eq_false_iff, beq_eq_false_iff_ne] at this
    simpa [and_assoc] using this

end Documents

end Analysis

/-! ## Tables by number -/

namespace Coded

variable (isa : Isa) (raw : List Bytes)

theorem hover?_ofIsa (p : Position) :
    Checked.hover? ⟨ofIsa isa, Analysis.ofLines isa raw⟩ p = .ok ((Analysis.ofLines isa raw).hover? p) := by
  rw [Checked.hover?]
  split
  · next mnemonic kinds hh =>
    rw [find?_ofIsa, Analysis.find?_of_hover? hh, Option.map_some, Option.getD_some, checked,
      mapM_kindOf_map_code, hh]
    rfl
  · rfl

end Coded

/-! ## Agreement -/

theorem Numeral.isNumber_of_value? {s : Bytes} {v : Int} (h : value? s = some v) : isNumber s = true := by
  rw [value?] at h
  split at h
  · next hr => rw [isNumber, hr]; rfl
  · split at h
    · next hr => rw [isNumber, hr]; exact Bool.or_true _
    · cases h

namespace Analysis

open Check

/-- The column is in an operand of a line. -/
structure InOperand (raw : List Bytes) (i : Nat) (column : Int) (line : Bytes) (w : Word) : Prop where
  getElem? : raw[i]? = some line
  operand : w ∈ (Line.ofBytes line).operands
  covers : w.covers column = true

/-- What is shown under the positions of a document agrees with its diagnostics. -/
structure HoverAgrees (isa : Isa) (raw : List Bytes) : Prop where
  /-- No position is a fault. -/
  answered : ∃ c, Coded.check (Coded.ofIsa isa) raw = .ok c ∧ c.analysis = ofLines isa raw ∧
    ∀ p, c.hover? p = .ok ((ofLines isa raw).hover? p)
  overCode : ∀ p, ((ofLines isa raw).hover? p).isSome = true → IsOverCode raw p
  /-- A mnemonic is described just if no illegal one is reported on its line. -/
  mnemonic : ∀ {i : Nat} {line : Bytes} {w : Word} {column : Int}, raw[i]? = some line →
    (Line.ofBytes line).mnemonic? = some w → w.covers column = true →
      (((ofLines isa raw).hover? ⟨i, column⟩).isSome = true ↔
        ∀ d ∈ (ofLines isa raw).diagnostics, d.line = i → ∀ name, d.finding ≠ .illegalMnemonic name)
  /-- A name with `$` is described just if it is not reported. -/
  register : ∀ {i : Nat} {column : Int} {line : Bytes} {mnemonic w : Word}, InOperand raw i column line w →
    (Line.ofBytes line).mnemonic? = some mnemonic → IsLegal isa mnemonic.text →
    (∀ b ∈ w.text, isParenthesis b = false) → w.text.head? = some 36 →
      (((ofLines isa raw).hover? ⟨i, column⟩).isSome = true ↔
        ∀ name, about i w (.invalidRegister name) ∉ (ofLines isa raw).diagnostics)
  /-- A label is described with its line, counted from 1, and not reported. -/
  label : ∀ {i : Nat} {column : Int} {line : Bytes} {w : Word} {n : Nat}, InOperand raw i column line w →
    (ofLines isa raw).labels.line? w.text = some n →
      (∃ h, (ofLines isa raw).hover? ⟨i, column⟩ = some h ∧
        utf8 "Defined on line " ++ Bytes.decimal (n + 1) <:+ h.markdown) ∧
      (∀ position name, about i w (.expectedLabel position name) ∉ (ofLines isa raw).diagnostics) ∧
      ∀ name, about i w (.undefinedLabel name) ∉ (ofLines isa raw).diagnostics
  /-- What is described as a number is not reported for not being one. -/
  number : ∀ {i : Nat} {column : Int} {line : Bytes} {w : Word} {v : Int}, InOperand raw i column line w →
    (∀ b ∈ w.text, isParenthesis b = false) → (ofLines isa raw).hover? ⟨i, column⟩ = some (.number v) →
      ∀ position name, about i w (.operandKind .number position name) ∉ (ofLines isa raw).diagnostics
  /-- Of any operand a longest stretch without parentheses is described. -/
  piece : ∀ {i : Nat} {column : Int} {line : Bytes} {w : Word}, InOperand raw i column line w →
    ∃ piece, IsPieceAt w.text (column - w.start).toNat piece ∧
      (ofLines isa raw).hover? ⟨i, column⟩ = (ofLines isa raw).hoverPiece? piece

section Agreement

variable {isa : Isa} {raw : List Bytes} {i : Nat} {column : Int} {line : Bytes} {w : Word}

theorem isSome_hoverMnemonic?_iff {a : Analysis} {mnemonic : Bytes} :
    (a.hoverMnemonic? mnemonic).isSome = true ↔ IsLegal a.isa mnemonic := by
  rw [hoverMnemonic?, IsLegal]
  cases a.isa.find? mnemonic with
  | some kinds => simp
  | none => cases Directive.isName mnemonic <;> simp

theorem isLegal_iff_not_reported (hline : raw[i]? = some line) (hw : (Line.ofBytes line).mnemonic? = some w) :
    IsLegal isa w.text ↔
      ∀ d ∈ (ofLines isa raw).diagnostics, d.line = i → ∀ name, d.finding ≠ .illegalMnemonic name := by
  constructor
  · intro hl d hd hi name hname
    obtain ⟨v, hr⟩ := (exists_diagnostic_iff hline).1 ⟨d, hd, hi, hname⟩
    obtain ⟨-, hv, hillegal⟩ := hr.justified
    cases hv.symm.trans hw
    exact hillegal hl
  · intro h
    by_contra hl
    obtain ⟨operands, hwords⟩ := List.head?_eq_some_iff.1 hw
    have hr : Reported isa (Labels.ofLines raw) (Line.ofBytes line).words w (.illegalMnemonic w.text) := by
      rw [hwords]
      exact .illegalMnemonic hl
    obtain ⟨d, hd, hi, hname⟩ := (exists_diagnostic_iff hline).2 ⟨w, hr⟩
    exact h d hd hi _ hname

namespace InOperand

theorem mem_words (h : InOperand raw i column line w) : w ∈ (Line.ofBytes line).words := List.mem_of_mem_tail h.operand

theorem hover?_eq (h : InOperand raw i column line w) : (ofLines isa raw).hover? ⟨i, column⟩ =
    (ofLines isa raw).hoverPiece? (w.pieceAt (column - w.start).toNat) := by
  rw [hover?_of_line isa h.getElem?, hoverLine?_of_operand _ _ h.operand h.covers]

theorem hover?_of_forall (h : InOperand raw i column line w) (hp : ∀ b ∈ w.text, isParenthesis b = false) :
    (ofLines isa raw).hover? ⟨i, column⟩ = (ofLines isa raw).hoverPiece? w.text := by
  rw [h.hover?_eq, Word.pieceAt_of_forall hp]

theorem le_length (h : InOperand raw i column line w) : (column - w.start).toNat ≤ w.text.length := by
  have hc := Word.covers_iff.1 h.covers
  rw [Word.stop] at hc
  omega

/-- Whatever is reported with the columns of an operand is so. -/
theorem justified (h : InOperand raw i column line w) {f : Finding}
    (hf : about i w f ∈ (ofLines isa raw).diagnostics) :
    Justified isa (Labels.ofLines raw) (Line.ofBytes line).words w f :=
  ((about_mem_diagnostics_iff h.getElem? h.mem_words).1 hf).justified

theorem isName_iff_not_reported (h : InOperand raw i column line w) {mnemonic : Word}
    (hm : (Line.ofBytes line).mnemonic? = some mnemonic) (hl : IsLegal isa mnemonic.text)
    (hd : w.text.head? = some 36) : Register.isName w.text = true ↔
      ∀ name, about i w (.invalidRegister name) ∉ (ofLines isa raw).diagnostics := by
  constructor
  · intro hn name hf
    exact (h.justified hf).2 hn
  · intro hnone
    by_contra hn
    refine hnone w.text ((about_mem_diagnostics_iff h.getElem? h.mem_words).2 ?_)
    obtain ⟨operands, hwords⟩ := List.head?_eq_some_iff.1 hm
    have ha := h.mem_words
    have hself : w ∈ registerNames w := by rw [registerNames, if_pos hd]; exact List.mem_singleton_self w
    rw [hwords] at ha ⊢
    exact .invalidRegister hl ha hself hn

end InOperand

theorem not_isParenthesis_of_isDefined {lines : List Bytes} {name : Bytes}
    (h : (Labels.ofLines lines).isDefined name = true) : ∀ b ∈ name, isParenthesis b = false := by
  intro b hb
  by_contra hc
  have hword := isParenthesis_not_isWordByte (by simpa using hc)
  rw [(Labels.isWordByte_of_isDefined h).2 b hb] at hword
  cases hword

theorem hoverPiece?_of_line? {name : Bytes} {n : Nat} (h : (Labels.ofLines raw).line? name = some n) :
    (ofLines isa raw).hoverPiece? name = some (.labelReference name n) := by
  obtain ⟨hne, hword⟩ := Labels.isWordByte_of_isDefined (Option.isSome_iff_exists.2 ⟨n, h⟩)
  have hd : name.head? ≠ some 36 := fun hc => absurd (hword 36 (List.mem_of_head? hc)) (by decide)
  have hline : (ofLines isa raw).labels.line? name = some n := h
  rw [hoverPiece?, if_neg (by simpa using hne), if_neg hd, hline]

theorem value?_of_hoverPiece? {a : Analysis} {piece : Bytes} {v : Int} (h : a.hoverPiece? piece = some (.number v)) :
    Numeral.value? piece = some v := by
  rw [hoverPiece?] at h
  split at h
  · cases h
  · split at h
    · obtain ⟨r, -, hr⟩ := Option.map_eq_some_iff.1 h
      cases hr
    · split at h
      · cases h
      · obtain ⟨u, hu, hv⟩ := Option.map_eq_some_iff.1 h
        cases hv
        exact hu

end Agreement

end Analysis

open Analysis Check

/-- What is shown agrees with what is reported, for every table and every document. -/
theorem hover_agrees (isa : Isa) (raw : List Bytes) : HoverAgrees isa raw where
  answered := ⟨_, Coded.check_ofIsa isa raw, rfl, Coded.hover?_ofIsa isa raw⟩
  overCode := by
    intro p hp
    obtain ⟨h, hh⟩ := Option.isSome_iff_exists.1 hp
    obtain ⟨i, line, hi, hline, hh⟩ := exists_line_of_hover? hh
    obtain ⟨w, hw, hc, -⟩ := hoverLine?_cases hh
    obtain ⟨l, c⟩ := p
    cases hi
    exact isOverCode_of_covers hline hw hc
  mnemonic := by
    intro i line w column hline hw hc
    rw [hover?_of_line isa hline, hoverLine?_of_mnemonic _ _ hw hc, isSome_hoverMnemonic?_iff]
    exact isLegal_iff_not_reported hline hw
  register := by
    intro i column line mnemonic w h hm hl hp hd
    have hne : w.text.isEmpty = false := by
      obtain ⟨tail, ht⟩ := List.head?_eq_some_iff.1 hd
      rw [ht]
      rfl
    rw [h.hover?_of_forall hp, hoverPiece?, if_neg (by simp [hne]), if_pos hd, Option.isSome_map]
    exact h.isName_iff_not_reported hm hl hd
  label := by
    intro i column line w n h hn
    have hdefined : (Labels.ofLines raw).isDefined w.text = true := Option.isSome_iff_exists.2 ⟨n, hn⟩
    refine ⟨⟨.labelReference w.text n, ?_, ?_⟩, fun position name hf => ?_, fun name hf => ?_⟩
    · rw [h.hover?_of_forall (not_isParenthesis_of_isDefined hdefined), hoverPiece?_of_line? hn]
    · exact ⟨utf8 "Reference to label " ++ Hover.quoted w.text ++ utf8 "\n\n", by simp [Hover.markdown]; rfl⟩
    · exact (h.justified hf).2.2 hdefined
    · obtain ⟨-, -, -, hu⟩ := h.justified hf
      exact hu (by rw [isKnownTarget, hdefined, Bool.or_true])
  number := by
    intro i column line w v h hp hh position name hf
    rw [h.hover?_of_forall hp] at hh
    exact (h.justified hf).2.2 (Numeral.isNumber_of_value? (value?_of_hoverPiece? hh))
  piece := by
    intro i column line w h
    exact ⟨_, Word.isPieceAt_pieceAt h.le_length, h.hover?_eq⟩

/-- A line with a name that is no register, a label and a number with a register. -/
def described : Bytes := utf8 "go: .word $q, go, 4($t0)"

theorem hover_agrees_described :
    about 0 ⟨utf8 "$q", 10⟩ (.invalidRegister (utf8 "$q")) ∈ (ofLines Isa.default [described]).diagnostics ∧
      ¬ ((ofLines Isa.default [described]).hover? ⟨0, 10⟩).isSome = true ∧
      (∃ h, (ofLines Isa.default [described]).hover? ⟨0, 15⟩ = some h ∧
        utf8 "Defined on line " ++ Bytes.decimal 1 <:+ h.markdown) ∧
      ∃ piece, IsPieceAt (utf8 "4($t0)") 1 piece ∧
        (ofLines Isa.default [described]).hover? ⟨0, 19⟩ = (ofLines Isa.default [described]).hoverPiece? piece := by
  have hoperands : (Line.ofBytes described).operands =
      [⟨utf8 "$q", 10⟩, ⟨utf8 "go", 14⟩, ⟨utf8 "4($t0)", 18⟩] := by decide +kernel
  have hmnemonic : (Line.ofBytes described).mnemonic? = some ⟨utf8 ".word", 4⟩ := by decide +kernel
  have hmem : about 0 ⟨utf8 "$q", 10⟩ (.invalidRegister (utf8 "$q")) ∈
      (ofLines Isa.default [described]).diagnostics := by decide +kernel
  have hagrees := hover_agrees Isa.default [described]
  have hname : InOperand [described] 0 10 described ⟨utf8 "$q", 10⟩ := ⟨rfl, by simp [hoperands], by decide⟩
  have hlabel : InOperand [described] 0 15 described ⟨utf8 "go", 14⟩ := ⟨rfl, by simp [hoperands], by decide⟩
  have hbased : InOperand [described] 0 19 described ⟨utf8 "4($t0)", 18⟩ := ⟨rfl, by simp [hoperands], by decide⟩
  refine ⟨hmem, fun hsome => ?_, (hagrees.label (n := 0) hlabel (by decide +kernel)).1, hagrees.piece hbased⟩
  have hiff := hagrees.register hname hmnemonic (.inr rfl)
    (List.forall_mem_cons.2 ⟨rfl, List.forall_mem_singleton.2 rfl⟩) rfl
  exact hiff.1 hsome _ hmem

end AsmLens
