import AsmLens.Proofs.Source.Run
import AsmLens.Proofs.Text.Blank
import AsmLens.Source.Line

/-!
# The parts of a source line

A line is its code and its comment (`code_append_comment`). The code may begin with the definition of a label; `Defines`
says so of a line without scanning it, and `label?_eq_some_iff` that the scanner finds just that. What follows the
label definition in the code is the `instruction`. A label definition is seen the same in the whole line as in its code
(`label?_code`), and nothing behind the last colon matters to it (`label?_append`).

The texts of the words of a text (`wordTexts`) do not depend on where it stands. They are those before and those behind
any separator (`wordTexts_append_separator`), and what has no separator in it is one of them
(`wordTexts_of_not_isSeparator`).

The labels of a document depend on its lines only through the names that these define (`Labels.ofLines_congr`).
-/

namespace AsmLens.Source

/-! ## Code and comment -/

theorem code_append_comment (line : Bytes) : code line ++ comment line = line := List.takeWhile_append_dropWhile

theorem bang_not_mem_code (line : Bytes) : 33 ∉ code line := by
  intro h
  have := List.mem_takeWhile_imp h
  simp at this

/-- A line without a `!` in front of some text. -/
theorem code_append {x : Bytes} (hx : 33 ∉ x) (y : Bytes) : code (x ++ y) = x ++ code y :=
  List.takeWhile_append_of_pos fun b hb => by simpa using fun h : b = 33 => hx (h ▸ hb)

theorem comment_append {x : Bytes} (hx : 33 ∉ x) (y : Bytes) : comment (x ++ y) = comment y :=
  List.dropWhile_append_of_pos fun b hb => by simpa using fun h : b = 33 => hx (h ▸ hb)

theorem code_eq_self {x : Bytes} (hx : 33 ∉ x) : code x = x := by
  have := code_append hx []
  simpa [code, Bytes.before] using this

theorem comment_eq_nil {x : Bytes} (hx : 33 ∉ x) : comment x = [] := by
  have := comment_append hx []
  simpa [comment] using this

theorem comment_ne_nil {x : Bytes} (hx : 33 ∈ x) : comment x ≠ [] := by
  intro h
  have hcode := code_append_comment x
  rw [h, List.append_nil] at hcode
  rw [← hcode] at hx
  exact bang_not_mem_code x hx

/-- A comment begins with `!`. -/
theorem head_comment {line : Bytes} (h : comment line ≠ []) : ∃ c, comment line = 33 :: c := by
  obtain ⟨b, c, hb⟩ := List.exists_cons_of_ne_nil h
  have hn := head?_dropWhile_false (· != 33) line b
  rw [← comment, hb] at hn
  obtain rfl : b = 33 := by simpa using hn rfl
  exact ⟨c, hb⟩

/-- A comment and the rest of a line with a `!` right behind some code. -/
theorem comment_bang (c : Bytes) : comment (33 :: c) = 33 :: c := rfl

theorem code_bang (c : Bytes) : code (33 :: c) = [] := rfl

/-- What follows a comment belongs to it. -/
theorem code_append_of_mem {x : Bytes} (hx : 33 ∈ x) (y : Bytes) : code (x ++ y) = code x := by
  obtain ⟨c, hc⟩ := head_comment (comment_ne_nil hx)
  have hsplit : x ++ y = code x ++ (33 :: (c ++ y)) := by
    rw [← List.cons_append, ← hc, ← List.append_assoc, code_append_comment]
  rw [hsplit, code_append (bang_not_mem_code x), code_bang, List.append_nil]

/-! ## Label definitions -/

theorem isWordByte_not_isSpace {b : UInt8} (h : isWordByte b = true) : isSpace b = false := by
  simp only [isWordByte, isAlnum, isDigit, isLower, isUpper] at h
  simp only [isSpace]
  grind

/-- A line that begins with the definition of a name: spaces, the name, a colon. -/
def Defines (line name : Bytes) : Prop :=
  ∃ indent rest, line = indent ++ name ++ 58 :: rest ∧ (∀ b ∈ indent, isSpace b = true) ∧ name ≠ [] ∧
    ∀ b ∈ name, isWordByte b = true

theorem label?_of_eq {indent name rest : Bytes} (hi : ∀ b ∈ indent, isSpace b = true) (hne : name ≠ [])
    (hn : ∀ b ∈ name, isWordByte b = true) :
    label? (indent ++ name ++ 58 :: rest) = some ⟨name, indent.length⟩ := by
  have hhead : ∀ b ∈ (name ++ 58 :: rest).head?, isSpace b = false := by
    obtain ⟨c, cs, rfl⟩ := List.exists_cons_of_ne_nil hne
    intro b hb
    obtain rfl : c = b := by simpa using hb
    exact isWordByte_not_isSpace (hn c List.mem_cons_self)
  have hcolon : ∀ b ∈ (58 :: rest : Bytes).head?, isWordByte b = false := by
    intro b hb
    obtain rfl : 58 = b := by simpa using hb
    decide
  rw [List.append_assoc, label?]
  simp only [takeWhile_append_stop hi hhead, dropWhile_append_stop hi hhead, takeWhile_append_stop hn hcolon,
    dropWhile_append_stop hn hcolon]
  simp [hne]

theorem eq_of_label? {line : Bytes} {w : Word} (h : label? line = some w) :
    ∃ indent rest, line = indent ++ w.text ++ 58 :: rest ∧ (∀ b ∈ indent, isSpace b = true) ∧ w.text ≠ [] ∧
      (∀ b ∈ w.text, isWordByte b = true) ∧ w.start = indent.length := by
  simp only [label?] at h
  split at h
  · next hc =>
    simp only [Bool.and_eq_true, Bool.not_eq_true', List.isEmpty_eq_false_iff, beq_iff_eq] at hc
    obtain ⟨hne, hcolon⟩ := hc
    obtain ⟨rest, hrest⟩ := List.head?_eq_some_iff.1 hcolon
    cases h
    refine ⟨line.takeWhile isSpace, rest, ?_, fun b => List.mem_takeWhile_imp, hne, fun b => List.mem_takeWhile_imp,
      rfl⟩
    rw [List.append_assoc, ← hrest, List.takeWhile_append_dropWhile, List.takeWhile_append_dropWhile]
  · cases h

/-- The scanner finds just the label definitions. -/
theorem label?_eq_some_iff {line : Bytes} {w : Word} :
    label? line = some w ↔ ∃ indent rest, line = indent ++ w.text ++ 58 :: rest ∧ (∀ b ∈ indent, isSpace b = true) ∧
      w.text ≠ [] ∧ (∀ b ∈ w.text, isWordByte b = true) ∧ w.start = indent.length := by
  constructor
  · exact eq_of_label?
  · rintro ⟨indent, rest, rfl, hi, hne, hn, hs⟩
    rw [label?_of_eq hi hne hn, ← hs]

/-- The name that a line defines. -/
def labelName? (line : Bytes) : Option Bytes := (label? line).map Word.text

theorem labelName?_eq_some_iff {line name : Bytes} : labelName? line = some name ↔ Defines line name := by
  simp only [labelName?, Option.map_eq_some_iff]
  constructor
  · rintro ⟨w, hw, rfl⟩
    obtain ⟨indent, rest, hl, hi, hne, hn, -⟩ := eq_of_label? hw
    exact ⟨indent, rest, hl, hi, hne, hn⟩
  · rintro ⟨indent, rest, rfl, hi, hne, hn⟩
    exact ⟨_, label?_of_eq hi hne hn, rfl⟩

/-- What has no colon does not matter behind a text. -/
theorem label?_append (x : Bytes) {y : Bytes} (hy : 58 ∉ y) : label? (x ++ y) = label? x := by
  ext w
  simp only [label?_eq_some_iff]
  constructor
  · rintro ⟨indent, rest, h, hw⟩
    rcases List.append_eq_append_iff.1 h with ⟨c, -, hc⟩ | ⟨c, hx, hc⟩
    · exact absurd (hc ▸ by simp) hy
    · cases c with
      | nil => exact absurd (by rw [← List.nil_append y, ← hc]; simp) hy
      | cons b c =>
        obtain ⟨rfl, -⟩ := List.cons.inj hc
        exact ⟨indent, c, hx, hw⟩
  · rintro ⟨indent, rest, rfl, hw⟩
    exact ⟨indent, rest ++ y, by simp, hw⟩

/-- A label definition ends before any comment. -/
theorem label?_code (line : Bytes) : label? (code line) = label? line := by
  ext w
  simp only [label?_eq_some_iff]
  constructor
  · rintro ⟨indent, rest, h, hw⟩
    refine ⟨indent, rest ++ comment line, ?_, hw⟩
    have := code_append_comment line
    rw [h] at this
    simpa using this.symm
  · rintro ⟨indent, rest, rfl, hi, hne, hn, hs⟩
    have hbang : 33 ∉ indent ++ w.text ++ [58] := by
      simp only [List.mem_append, List.mem_singleton, not_or]
      exact ⟨⟨fun h => absurd (hi _ h) (by decide), fun h => absurd (hn _ h) (by decide)⟩, by decide⟩
    refine ⟨indent, code rest, ?_, hi, hne, hn, hs⟩
    rw [← List.singleton_append, ← List.append_assoc, code_append hbang]
    simp

theorem labelName?_code (line : Bytes) : labelName? (code line) = labelName? line := by
  rw [labelName?, label?_code]
  rfl

theorem labelName?_append (x : Bytes) {y : Bytes} (hy : 58 ∉ y) : labelName? (x ++ y) = labelName? x := by
  rw [labelName?, label?_append x hy]
  rfl

/-- Spaces in front of a line only move its label. -/
theorem labelName?_append_left {x : Bytes} (hx : ∀ b ∈ x, isSpace b = true) (y : Bytes) :
    labelName? (x ++ y) = labelName? y := by
  simp only [labelName?, label?, List.takeWhile_append_of_pos hx, List.dropWhile_append_of_pos hx]
  split <;> rfl

/-- A label definition does not reach behind a space that follows the first word. -/
theorem labelName?_append_space {w : Bytes} (hne : w ≠ []) (hw : ∀ b ∈ w, isSpace b = false) {b : UInt8}
    (hb : isSpace b = true) (y : Bytes) : labelName? (w ++ b :: y) = labelName? w := by
  have hstart (v : Bytes) : (w ++ v).takeWhile isSpace = [] ∧ (w ++ v).dropWhile isSpace = w ++ v := by
    obtain ⟨a, w, rfl⟩ := List.exists_cons_of_ne_nil hne
    simp [hw a List.mem_cons_self]
  have hnb : isWordByte b = false := by
    by_contra hc
    rw [isWordByte_not_isSpace (by simpa using hc)] at hb
    cases hb
  have hcolon : b ≠ 58 := by
    rintro rfl
    cases hb
  have hw0 := hstart []
  rw [List.append_nil] at hw0
  simp only [labelName?, label?, hstart, hw0]
  rw [List.takeWhile_append, List.dropWhile_append]
  by_cases hall : ∀ c ∈ w, isWordByte c = true
  · have htake : w.takeWhile isWordByte = w := List.takeWhile_eq_self_iff.2 hall
    have hdrop : w.dropWhile isWordByte = [] := List.dropWhile_eq_nil_iff.2 hall
    simp [htake, hdrop, hnb, hcolon]
  · have hdrop : w.dropWhile isWordByte ≠ [] := fun h => hall (List.dropWhile_eq_nil_iff.1 h)
    have htake : (w.takeWhile isWordByte).length ≠ w.length := by
      intro h
      exact hall (List.takeWhile_eq_self_iff.1 ((List.takeWhile_prefix _).eq_of_length h))
    obtain ⟨c, rest, hc⟩ := List.exists_cons_of_ne_nil hdrop
    simp [htake, hc]

/-! ## The instruction -/

theorem instruction_of_label?_eq_none {line : Bytes} (h : label? line = none) : instruction line = code line := by
  simp [instruction, labelEnd, label?_code, h]

/-- The instruction follows the colon of the label definition. -/
theorem code_eq_of_label? {line : Bytes} {w : Word} (h : label? line = some w) :
    ∃ indent, code line = indent ++ w.text ++ 58 :: instruction line ∧ (∀ b ∈ indent, isSpace b = true) := by
  rw [← label?_code] at h
  obtain ⟨indent, rest, hl, hi, -, -, hs⟩ := eq_of_label? h
  refine ⟨indent, ?_, hi⟩
  have hdrop : instruction line = rest := by
    rw [instruction, labelEnd, h, hl]
    simp only [Word.stop, hs]
    rw [show indent ++ w.text ++ 58 :: rest = (indent ++ w.text ++ [58]) ++ rest by simp]
    exact List.drop_left' (by simp; omega)
  rw [hdrop]
  exact hl

theorem instruction_of_code_eq {line indent name rest : Bytes} (h : code line = indent ++ name ++ 58 :: rest)
    (hi : ∀ b ∈ indent, isSpace b = true) (hne : name ≠ []) (hn : ∀ b ∈ name, isWordByte b = true) :
    instruction line = rest := by
  have hl : label? line = some ⟨name, indent.length⟩ := by rw [← label?_code, h, label?_of_eq hi hne hn]
  obtain ⟨indent', h', hi'⟩ := code_eq_of_label? hl
  have hlen : indent.length = indent'.length := by
    have := @label?_of_eq indent' name (instruction line) hi' hne hn
    rw [← h', label?_code, hl] at this
    simpa using this
  rw [h] at h'
  simp only [List.append_assoc] at h'
  have := (List.append_inj h' hlen).2
  simpa using this.symm

theorem code_code (line : Bytes) : code (code line) = code line := code_eq_self (bang_not_mem_code line)

theorem instruction_code (line : Bytes) : instruction (code line) = instruction line := by
  rw [instruction, code_code]
  rfl

theorem labelEnd_le_length (line : Bytes) : labelEnd line ≤ line.length := by
  rw [labelEnd]
  split
  · next w hw =>
    obtain ⟨indent, rest, hl, -, -, -, hs⟩ := eq_of_label? hw
    rw [hl, Word.stop, hs, List.length_append, List.length_append, List.length_cons]
    omega
  · exact Nat.zero_le _

/-- What is behind a line joins its instruction or its comment. -/
theorem instruction_append (x : Bytes) {y : Bytes} (hbang : 33 ∉ y) (hcolon : 58 ∉ y) :
    instruction (x ++ y) = instruction x ∨ instruction (x ++ y) = instruction x ++ y := by
  by_cases hx : 33 ∈ x
  · left
    rw [instruction, code_append_of_mem hx]
    rfl
  · right
    have hxy : 33 ∉ x ++ y := by simp [hx, hbang]
    have hend : labelEnd (x ++ y) = labelEnd x := by rw [labelEnd, label?_append x hcolon]; rfl
    rw [instruction, code_eq_self hxy, hend, instruction, code_eq_self hx,
      List.drop_append_of_le_length (labelEnd_le_length x)]

theorem instruction_suffix_code (line : Bytes) : instruction line <:+ code line := List.drop_suffix _ _

/-! ## Words -/

/-- The texts of the words of a text. -/
def wordTexts (s : Bytes) : List Bytes := (runs 0 s).map Word.text

/-- A text that stands elsewhere has the same words, as far away from its start. -/
theorem runs_shift (k : Nat) (s : Bytes) :
    ∀ start, runs (start + k) s = (runs start s).map fun w => ⟨w.text, w.start + k⟩ := by
  induction s with
  | nil => intro start; rfl
  | cons b s ih =>
    intro start
    have h := ih (start + 1)
    rw [show start + 1 + k = start + k + 1 by omega] at h
    simp only [runs, h]
    by_cases hb : isSeparator b = true
    · simp [hb]
    · simp only [hb, Bool.false_eq_true, if_false]
      cases runs (start + 1) s with
      | nil => rfl
      | cons w ws =>
        have : w.start + k = start + k + 1 ↔ w.start = start + 1 := by omega
        simp only [List.map_cons, this]
        split <;> rfl

theorem map_text_runs (start : Nat) (s : Bytes) : (runs start s).map Word.text = wordTexts s := by
  rw [← Nat.zero_add start, runs_shift, List.map_map]
  rfl

@[simp]
theorem wordTexts_nil : wordTexts [] = [] := rfl

theorem wordTexts_append_separator {b : UInt8} (hb : isSeparator b = true) (x y : Bytes) :
    wordTexts (x ++ b :: y) = wordTexts x ++ wordTexts y := by
  rw [wordTexts, runs_append_separator hb, List.map_append, map_text_runs, map_text_runs]

theorem isSeparator_of_isSpace {b : UInt8} (h : isSpace b = true) : isSeparator b = true := by
  rw [isSeparator, h, Bool.true_or]

theorem isSeparator_of_isWordByte {b : UInt8} (h : isWordByte b = true) : isSeparator b = false := by
  have hcomma : b ≠ 44 := by
    rintro rfl
    cases h
  simp [isSeparator, isWordByte_not_isSpace h, hcomma]

theorem wordTexts_of_not_isSeparator {w : Bytes} (hne : w ≠ []) (hw : ∀ b ∈ w, isSeparator b = false) :
    wordTexts w = [w] := by
  rw [wordTexts, runs_of_not_isSeparator hne hw]
  rfl

end AsmLens.Source

/-! ## Labels -/

namespace AsmLens.Labels

theorem definitions_ofLines (lines : List Bytes) :
    (ofLines lines).definitions = (lines.map Source.labelName?).zipIdx.filterMap fun d => d.1.map (·, d.2) := by
  rw [List.zipIdx_map, List.filterMap_map]
  show List.filterMap _ _ = List.filterMap _ _
  congr 1
  funext d
  simp only [Function.comp_apply, Prod.map, Source.labelName?, Option.map_map]
  rfl

/-- Only the names that the lines define matter. -/
theorem ofLines_congr {lines lines' : List Bytes} (h : lines.map Source.labelName? = lines'.map Source.labelName?) :
    ofLines lines = ofLines lines' := by
  have := definitions_ofLines lines
  rw [h, ← definitions_ofLines] at this
  exact congrArg Labels.mk this

theorem isDefined_ofLines {lines : List Bytes} {name : Bytes} :
    (ofLines lines).isDefined name = true ↔ ∃ line ∈ lines, Source.Defines line name := by
  rw [isDefined, line?, List.lookup_isSome_iff, definitions_ofLines]
  simp only [List.mem_filterMap, beq_iff_eq]
  constructor
  · rintro ⟨d, ⟨⟨n, i⟩, hm, hd⟩, rfl⟩
    obtain ⟨name, rfl, rfl⟩ := Option.map_eq_some_iff.1 hd
    obtain ⟨line, hl, hn⟩ := List.mem_map.1 (List.fst_mem_of_mem_zipIdx hm)
    exact ⟨line, hl, Source.labelName?_eq_some_iff.1 hn⟩
  · rintro ⟨line, hl, hd⟩
    obtain ⟨i, hi, rfl⟩ := List.mem_iff_getElem.1 hl
    refine ⟨(name, i), ⟨(some name, i), ?_, rfl⟩, rfl⟩
    rw [List.mem_zipIdx_iff_getElem?, List.getElem?_map, List.getElem?_eq_getElem hi, Option.map_some,
      Source.labelName?_eq_some_iff.2 hd]

/-- A label is a word. -/
theorem isWordByte_of_isDefined {lines : List Bytes} {name : Bytes} (h : (ofLines lines).isDefined name = true) :
    name ≠ [] ∧ ∀ b ∈ name, isWordByte b = true := by
  obtain ⟨line, -, indent, rest, -, -, hne, hword⟩ := isDefined_ofLines.1 h
  exact ⟨hne, hword⟩

end AsmLens.Labels
