import AsmLens.Proofs.Check.Findings
import AsmLens.Proofs.Layout.Lines

/-!
# Layout keeps the meaning

A line is laid out by its fields, which are cut at every blank, and checked by its words, which are cut at spaces and
commas. In a plain text the two agree: the words are those of the fields (`wordTexts_of_isPlain`), and no line hides a
label (`not_hidesLabel`). So every line keeps its label and its words (`labelName?_line`, `lineTexts_line`), and with
them the labels of the document and all that is found wrong with it (`sameMeaning_format`).
-/

namespace AsmLens

namespace Source

/-! ## The words of fields -/

theorem wordTexts_append_left {x : Bytes} (hx : ∀ b ∈ x, isSpace b = true) (y : Bytes) :
    wordTexts (x ++ y) = wordTexts y := by
  induction x with
  | nil => rfl
  | cons b x ih =>
    have := wordTexts_append_separator (isSeparator_of_isSpace (hx b List.mem_cons_self)) [] (x ++ y)
    rw [List.nil_append, wordTexts_nil, List.nil_append] at this
    rw [List.cons_append, this, ih fun c hc => hx c (List.mem_cons_of_mem _ hc)]

theorem wordTexts_append_right (x : Bytes) {y : Bytes} (hy : ∀ b ∈ y, isSpace b = true) :
    wordTexts (x ++ y) = wordTexts x := by
  cases y with
  | nil => rw [List.append_nil]
  | cons b y =>
    have hempty : wordTexts y = [] := by
      simpa using wordTexts_append_left (fun c hc => hy c (List.mem_cons_of_mem _ hc)) []
    rw [wordTexts_append_separator (isSeparator_of_isSpace (hy b List.mem_cons_self)), hempty, List.append_nil]

theorem wordTexts_join (ws : List Bytes) : wordTexts (Bytes.join [32] ws) = ws.flatMap wordTexts := by
  induction ws with
  | nil => rfl
  | cons w ws ih =>
    cases ws with
    | nil => simp [Bytes.join]
    | cons v ws =>
      rw [Bytes.join_cons_cons, List.append_assoc, List.singleton_append, wordTexts_append_separator (by decide), ih,
        ← List.flatMap_cons]

/-- A plain text without spaces is its own field. -/
theorem eq_nil_or_fields_eq {w : Bytes} (h : Blank.IsPlain w) (hw : ∀ b ∈ w, isSpace b = false) :
    w = [] ∨ w ≠ [] ∧ Blank.fields w = [w] := by
  by_cases hne : w = []
  · exact .inl hne
  · exact .inr ⟨hne, Blank.fields_of_isSolid hne (h.isSolid hw)⟩

/-- In a plain text the words are those of the fields. -/
theorem wordTexts_of_isPlain {s : Bytes} (h : Blank.IsPlain s) :
    wordTexts s = (Blank.fields s).flatMap wordTexts := by
  induction s using splitOnP_induction (p := isSpace) with
  | whole w hw =>
    rcases eq_nil_or_fields_eq h hw with rfl | ⟨-, hf⟩
    · rfl
    · rw [hf, List.flatMap_singleton]
  | cut w b rest hw hb ih =>
    have hrest := ih (h.of_suffix ⟨w ++ [b], by simp⟩)
    rw [wordTexts_append_separator (isSeparator_of_isSpace hb),
      Blank.fields_append_blank (Blank.isBlank1_of_isSpace hb), List.flatMap_append, hrest]
    rcases eq_nil_or_fields_eq (h.of_prefix (List.prefix_append w _)) hw with rfl | ⟨-, hf⟩
    · rfl
    · rw [hf, List.flatMap_singleton]

/-- A plain text and its fields with single spaces define the same label. -/
theorem labelName?_join_fields {s : Bytes} (h : Blank.IsPlain s) :
    labelName? (Bytes.join [32] (Blank.fields s)) = labelName? s := by
  induction s using splitOnP_induction (p := isSpace) with
  | whole w hw =>
    rcases eq_nil_or_fields_eq h hw with rfl | ⟨-, hf⟩
    · rfl
    · rw [hf]
      simp [Bytes.join]
  | cut w b rest hw hb ih =>
    rw [Blank.fields_append_blank (Blank.isBlank1_of_isSpace hb)]
    rcases eq_nil_or_fields_eq (h.of_prefix (List.prefix_append w _)) hw with rfl | ⟨hne, hf⟩
    · have hspace := labelName?_append_left (x := [b]) (by simpa using hb) rest
      rw [Blank.fields_nil, List.nil_append, ih (h.of_suffix ⟨[b], rfl⟩), ← hspace]
      rfl
    · -- Only the first field can define a label.
      rw [hf, labelName?_append_space hne hw hb, List.singleton_append]
      cases Blank.fields rest with
      | nil => simp [Bytes.join]
      | cons v ws =>
        rw [Bytes.join_cons_cons, List.append_assoc, List.singleton_append, labelName?_append_space hne hw (by rfl)]

theorem isPlain_of_mem_lines {text raw : Bytes} (h : Blank.IsPlain text) (hr : raw ∈ lines text) :
    Blank.IsPlain raw := by
  obtain ⟨piece, hp, rfl⟩ := List.mem_map.1 hr
  have hpiece : Blank.IsPlain piece := h.of_infix (mem_splitOnP hp).1
  unfold chomp
  split
  · exact hpiece.of_prefix (List.dropLast_prefix piece)
  · exact hpiece

end Source

namespace Layout

open Source (labelName? instruction wordTexts lines)
open Analysis (lineTexts)

variable {raw : Bytes}

theorem isPlain_code (h : Blank.IsPlain raw) : Blank.IsPlain (Source.code raw) :=
  h.of_prefix ⟨_, Source.code_append_comment raw⟩

theorem isPlain_instruction (h : Blank.IsPlain raw) : Blank.IsPlain (instruction raw) :=
  (isPlain_code h).of_suffix (Source.instruction_suffix_code raw)

/-- Only other blanks than spaces can hide a label. -/
theorem not_hidesLabel (h : Blank.IsPlain raw) : ¬HidesLabel raw := by
  rintro ⟨hl, hb⟩
  have hi : instruction raw = Source.code raw :=
    Source.instruction_of_label?_eq_none (by simpa [labelName?] using hl)
  refine hb ?_
  rw [show body raw = Bytes.join [32] (Blank.fields (instruction raw)) from rfl, hi,
    Source.labelName?_join_fields (isPlain_code h), Source.labelName?_code, hl]

/-! ## The words of a laid out line -/

theorem lineTexts_eq (raw : Bytes) :
    lineTexts raw = if Blank.isBlankText (instruction raw) then [] else wordTexts (instruction raw) := by
  show (Source.words _ (instruction raw)).map Word.text = _
  rw [Source.words_eq]
  split
  · rfl
  · exact Source.map_text_runs _ _

theorem lineTexts_of_isPlain (h : Blank.IsPlain raw) :
    lineTexts raw = (Blank.fields (instruction raw)).flatMap wordTexts := by
  rw [lineTexts_eq, ← Source.wordTexts_of_isPlain (isPlain_instruction h)]
  split
  · next hb =>
    rw [Source.wordTexts_of_isPlain (isPlain_instruction h), (Blank.fields_eq_nil_iff _).2 hb]
    rfl
  · rfl

theorem lineTexts_append_return (l : Bytes) : lineTexts (l ++ [13]) = lineTexts l := by
  have hspace : ∀ b ∈ ([13] : Bytes), isSpace b = true := List.all_eq_true.1 rfl
  have hblank : Blank.isBlankText (instruction (l ++ [13])) = Blank.isBlankText (instruction l) := by
    rw [Bool.eq_iff_iff, ← Blank.fields_eq_nil_iff, ← Blank.fields_eq_nil_iff, fields_instruction_append l hspace]
  rw [lineTexts_eq, lineTexts_eq, hblank]
  rcases Source.instruction_append l (y := [13]) (by decide) (by decide) with h | h
  · rw [h]
  · rw [h, Source.wordTexts_append_right _ hspace]

theorem lineTexts_line (h : ¬HidesLabel raw) (n : Nat) :
    lineTexts (line n raw) = (Blank.fields (instruction raw)).flatMap wordTexts := by
  have hfields := fields_instruction_line h n
  rw [lineTexts_eq]
  split
  · next hb =>
    rw [← hfields, (Blank.fields_eq_nil_iff _).2 hb]
    rfl
  · next hb =>
    have hv : ¬IsVoid raw := by
      rintro ⟨-, hv⟩
      rw [← Blank.fields_eq_nil_iff, hfields, ← body_eq_nil_iff] at hb
      exact hb hv
    obtain ⟨k, k', hk⟩ := instruction_line hv h n
    rw [hk, Source.wordTexts_append_right _ (isSpace_of_mem_replicate k'),
      Source.wordTexts_append_left (isSpace_of_mem_replicate k)]
    exact Source.wordTexts_join _

/-! ## Documents -/

variable {text : Bytes}

theorem map_labelName?_lines_format (h : Blank.IsPlain text) :
    (lines (format text)).map labelName? = (lines text).map labelName? := by
  rw [map_lines_format (g := labelName?) fun l => Source.labelName?_append l (by decide)]
  apply List.map_congr_left
  intro raw hr
  exact labelName?_line (not_hidesLabel (Source.isPlain_of_mem_lines h hr)) _

theorem map_lineTexts_lines_format (h : Blank.IsPlain text) :
    (lines (format text)).map lineTexts = (lines text).map lineTexts := by
  rw [map_lines_format (g := lineTexts) lineTexts_append_return]
  apply List.map_congr_left
  intro raw hr
  have hr := Source.isPlain_of_mem_lines h hr
  rw [lineTexts_line (not_hidesLabel hr), lineTexts_of_isPlain hr]

end Layout

/-- The label and the words of a line, without their places. -/
def Line.texts (l : Line) : Option Bytes × List Bytes := (l.label.map Word.text, l.words.map Word.text)

namespace Analysis

/-- Two analyses that differ at most in columns. -/
structure SameMeaning (a b : Analysis) : Prop where
  labels : a.labels = b.labels
  lines : a.lines.map Line.texts = b.lines.map Line.texts
  diagnostics : a.diagnostics.map (fun d => (d.line, d.severity, d.message)) =
    b.diagnostics.map (fun d => (d.line, d.severity, d.message))

theorem map_texts_lines (isa : Isa) (raw : List Bytes) :
    (ofLines isa raw).lines.map Line.texts = (raw.map Source.labelName?).zip (raw.map lineTexts) := by
  rw [List.zip_map', ofLines, List.map_map]
  apply List.map_congr_left
  intro r _
  exact congrArg (·, lineTexts r) (Source.labelName?_code r)

/-- Labels and words decide what a document means. -/
theorem sameMeaning_ofLines (isa : Isa) {a b : List Bytes} (hl : a.map Source.labelName? = b.map Source.labelName?)
    (hw : a.map lineTexts = b.map lineTexts) : SameMeaning (ofLines isa a) (ofLines isa b) := by
  have hlabels : Labels.ofLines a = Labels.ofLines b := Labels.ofLines_congr hl
  refine ⟨hlabels, ?_, ?_⟩
  · rw [map_texts_lines, map_texts_lines, hl, hw]
  · have hplaceless :
        (ofLines isa a).diagnostics.map Check.placeless = (ofLines isa b).diagnostics.map Check.placeless := by
      rw [map_placeless_diagnostics, map_placeless_diagnostics, hw, hlabels]
    have := congrArg (List.map fun p : Nat × Finding => (p.1, p.2.severity, p.2.message)) hplaceless
    rwa [List.map_map, List.map_map] at this

end Analysis

/-- A plain text and the same text laid out differ at most in columns. -/
theorem sameMeaning_format (isa : Isa) {text : Bytes} (h : Blank.IsPlain text) :
    Analysis.SameMeaning (Analysis.ofText isa (Layout.format text)) (Analysis.ofText isa text) :=
  Analysis.sameMeaning_ofLines isa (Layout.map_labelName?_lines_format h) (Layout.map_lineTexts_lines_format h)

/-- A plain text with tabs, a form feed, and a carriage return that belongs to a comment. -/
def ragged : Bytes := utf8 "a:\t\tadd $t0,$t1\r\n beq  $t0, b , a ! x\r\r\n\x0c\n"

theorem sameMeaning_format_ragged : Blank.IsPlain ragged ∧ Layout.format ragged ≠ ragged ∧
    Analysis.SameMeaning (Analysis.ofText Isa.default (Layout.format ragged)) (Analysis.ofText Isa.default ragged) := by
  have h : Blank.IsPlain ragged := by decide +kernel
  exact ⟨h, by decide +kernel, sameMeaning_format Isa.default h⟩

end AsmLens
