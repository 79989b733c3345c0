import AsmLens.Proofs.Layout.Content
import Mathlib.Data.List.Forall2
import Mathlib.Order.Bounds.Basic

/-!
# Instructions in one column

A document is laid out around one column, two more than its longest label (`IsTextColumn`). Every label of a line is one
that the document defines, although the one is looked for in the code of the line and the other in the whole of it, so
every label definition ends before the column and the spaces behind it are never less than none (`padding_nonneg`). With
as many spaces the instruction begins at the column (`lead_eq`).

* `isLaidOut_line`: one line, whose label definition has to end before the column.
* `format_aligned`: all lines of a document at once.
-/

namespace AsmLens

theorem isGreatest_foldl_max (l : List Nat) : ∀ a : Nat, IsGreatest {n | n = a ∨ n ∈ l} (l.foldl max a) := by
  induction l with
  | nil => simp [IsGreatest]
  | cons x l ih =>
    intro a
    obtain ⟨hmem, hle⟩ := ih (max a x)
    rw [mem_upperBounds] at hle
    have hmax := hle (max a x) (.inl rfl)
    refine ⟨?_, mem_upperBounds.2 fun n hn => ?_⟩
    · rcases hmem with h | h
      · rw [List.foldl_cons, h]
        rcases Nat.le_total a x with hax | hax
        · exact .inr (by simp [hax])
        · exact .inl (Nat.max_eq_left hax)
      · exact .inr (List.mem_cons_of_mem _ h)
    · rw [List.foldl_cons]
      rcases hn with rfl | hn
      · omega
      · rcases List.mem_cons.1 hn with rfl | hn
        · omega
        · exact hle n (.inr hn)

namespace Layout

open Source (lines labelName? instruction)

/-! ## The column -/

/-- The column is two more than the length of the longest label that the lines define, and 2 if they define none. -/
structure IsTextColumn (lines : List Bytes) (column : Nat) : Prop where
  le : ∀ name, (Labels.ofLines lines).isDefined name = true → name.length + 2 ≤ column
  attained : (∃ name, (Labels.ofLines lines).isDefined name = true ∧ name.length + 2 = column) ∨
    (∀ name, (Labels.ofLines lines).isDefined name = false) ∧ column = 2

theorem isDefined_iff_mem {labels : Labels} {name : Bytes} :
    labels.isDefined name = true ↔ ∃ d ∈ labels.definitions, d.1 = name := by
  simp only [Labels.isDefined, Labels.line?, List.lookup_isSome_iff, beq_iff_eq, @eq_comm _ name]

theorem isTextColumn_indent (lines : List Bytes) : IsTextColumn lines (indent lines) := by
  obtain ⟨hmem, hle⟩ :=
    isGreatest_foldl_max ((Labels.ofLines lines).definitions.map fun d => d.1.length) 0
  rw [mem_upperBounds] at hle
  have hlength : ∀ name, (Labels.ofLines lines).isDefined name = true → name.length + 2 ≤ indent lines := by
    intro name hname
    obtain ⟨d, hd, rfl⟩ := isDefined_iff_mem.1 hname
    exact Nat.add_le_add_right (hle _ (.inr (List.mem_map_of_mem hd))) 2
  refine ⟨hlength, ?_⟩
  rcases hmem with hzero | hmem
  · -- No label is empty, so there is none.
    refine .inr ⟨fun name => ?_, by rw [indent, hzero]⟩
    by_contra hname
    rw [Bool.not_eq_false] at hname
    have hpos := List.length_pos_iff.2 (Labels.isWordByte_of_isDefined hname).1
    have := hlength name hname
    rw [indent, hzero] at this
    omega
  · obtain ⟨d, hd, hlen⟩ := List.mem_map.1 hmem
    exact .inl ⟨d.1, isDefined_iff_mem.2 ⟨d, hd, rfl⟩, by rw [hlen]; rfl⟩

theorem length_add_two_le_indent {lines : List Bytes} {raw name : Bytes} (hraw : raw ∈ lines)
    (hname : labelName? raw = some name) : name.length + 2 ≤ indent lines :=
  (isTextColumn_indent lines).le name (Labels.isDefined_ofLines.2 ⟨raw, hraw, Source.labelName?_eq_some_iff.1 hname⟩)

/-- There are never less than no spaces to fill in behind the label that is found in the code of a line. -/
theorem padding_nonneg {lines : List Bytes} {raw : Bytes} {w : Word} (hraw : raw ∈ lines)
    (hw : Source.label? (Source.code raw) = some w) : 0 ≤ padding (indent lines) w.text := by
  have hname : labelName? raw = some w.text := by rw [labelName?, ← Source.label?_code, hw, Option.map_some]
  have := length_add_two_le_indent hraw hname
  unfold padding
  omega

/-! ## Lines -/

/-- A text without the filling at its end. -/
def IsTrimmed (s out : Bytes) : Prop :=
  (∃ t, s = out ++ t ∧ ∀ b ∈ t, isFilling b = true) ∧ ∀ b ∈ out.getLast?, isFilling b = false

theorem isTrimmed_trimEnd (s : Bytes) : IsTrimmed s (Bytes.trimEnd isFilling s) :=
  ⟨Bytes.trimEnd_append_self isFilling s, Bytes.trimEnd_eq_self_iff.1 (Bytes.trimEnd_trimEnd isFilling s)⟩

/-- What follows on a line that does not end with a space: nothing, or one space and the comment, without the filling at
its end. -/
inductive IsTail (raw : Bytes) : Bytes → Prop
  | bare (h : Source.comment raw = []) : IsTail raw []
  | comment {c : Bytes} (h : Source.comment raw ≠ []) (hc : IsTrimmed (Source.comment raw) c) : IsTail raw (32 :: c)

theorem isTail_comment (raw : Bytes) : IsTail raw (comment raw) := by
  by_cases h : Source.comment raw = []
  · rw [comment_of_eq_nil h]
    exact .bare h
  · rw [comment_of_ne_nil h]
    exact .comment h (isTrimmed_trimEnd _)

/-- A line laid out with instructions at a column. -/
structure IsLaidOut (column : Nat) (raw out : Bytes) : Prop where
  /-- An instruction begins at the column, behind the label definition, if any, and spaces. Its words are one space
  apart, and no blank ends the last. -/
  aligned : Blank.fields (instruction raw) ≠ [] → ∃ spaces text tail,
    out = definition raw ++ spaces ++ text ++ tail ∧ (definition raw ++ spaces).length = column ∧
      (∀ b ∈ spaces, b = 32) ∧ text = Bytes.join [32] (Blank.fields (instruction raw)) ∧
      (∀ b ∈ text.getLast?, Blank.isBlank1 b = false) ∧ IsTail raw tail
  /-- A label definition by itself begins the line. -/
  labelled : Blank.fields (instruction raw) = [] → ∀ name, labelName? raw = some name → ∃ tail,
    out = name ++ 58 :: tail ∧ IsTail raw tail
  /-- Any other line only loses the filling at its end. -/
  void : Blank.fields (instruction raw) = [] → labelName? raw = none → IsTrimmed raw out

/-- What stands in front of an instruction, if the label definition ends before the column. -/
theorem lead_eq {raw : Bytes} (hb : body raw ≠ []) (n : Nat) :
    lead n (labelName? raw) (body raw) = definition raw ++ List.replicate (n - (definition raw).length) 32 := by
  cases h : labelName? raw with
  | none => simp [definition, h, lead]
  | some name => simp [definition, h, lead, hb, Nat.sub_sub]

theorem length_definition_le {raw : Bytes} {n : Nat} (h : ∀ name, labelName? raw = some name → name.length + 2 ≤ n) :
    (definition raw).length ≤ n := by
  cases hl : labelName? raw with
  | none => simp [definition, hl]
  | some name =>
    have := h name hl
    simp only [definition, hl, Option.elim_some, List.length_append, List.length_singleton]
    omega

theorem isLaidOut_line {raw : Bytes} {n : Nat} (h : ∀ name, labelName? raw = some name → name.length + 2 ≤ n) :
    IsLaidOut n raw (line n raw) := by
  refine ⟨fun hfields => ?_, fun hfields name hname => ?_, fun hfields hname => ?_⟩
  · have hb : body raw ≠ [] := fun hb => hfields ((body_eq_nil_iff raw).1 hb)
    refine ⟨List.replicate (n - (definition raw).length) 32, body raw, comment raw, ?_, ?_,
      fun b => List.eq_of_mem_replicate, rfl, isBlank1_getLast_body raw, isTail_comment raw⟩
    · rw [line_of_not_isVoid (fun hv => hb hv.2), lead_eq hb]
    · have := length_definition_le h
      rw [List.length_append, List.length_replicate]
      omega
  · have hb : body raw = [] := (body_eq_nil_iff raw).2 hfields
    have hv : ¬IsVoid raw := fun hv => by rw [hv.1] at hname; cases hname
    refine ⟨comment raw, ?_, isTail_comment raw⟩
    rw [line_of_not_isVoid hv, hb, hname]
    simp [lead]
  · rw [line_of_isVoid ⟨hname, (body_eq_nil_iff raw).2 hfields⟩]
    exact isTrimmed_trimEnd raw

/-! ## Documents -/

/-- A document is laid out around one column, two more than its longest label. The spaces behind a label are never less
than none, and every line of the laid out text is a line of the text with its instruction at that column. -/
theorem format_aligned (text : Bytes) :
    IsTextColumn (lines text) (indent (lines text)) ∧
      (∀ raw ∈ lines text, ∀ w, Source.label? (Source.code raw) = some w → 0 ≤ padding (indent (lines text)) w.text) ∧
      ∃ rebuilt, format text = Bytes.join (lineEnd text) rebuilt ∧
        List.Forall₂ (IsLaidOut (indent (lines text))) (lines text) rebuilt := by
  refine ⟨isTextColumn_indent _, fun raw hraw w hw => padding_nonneg hraw hw, _, rfl, ?_⟩
  rw [List.forall₂_map_right_iff, List.forall₂_same]
  exact fun raw hraw => isLaidOut_line fun name hname => length_add_two_le_indent hraw hname

end Layout

end AsmLens
