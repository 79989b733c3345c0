import AsmLens.Proofs.Layout.Lines
import AsmLens.Proofs.Text.Trim

/-!
# Layout changes nothing but blanks

A text with its blanks deleted is its fields, one right behind the other (`flatten_fields`). Blanks can be deleted from
the two parts of a text apart wherever one of them does not touch a character of the other, which is so before an octet
below `80` (`delete_append`) and behind octets below `80` (`delete_append_left`).

A laid out line is composed of the same label, the same fields and the same comment, so that deleting the blanks from it
and from the line as it was gives the same (`delete_line`). A line end is a line feed, which stays where it is, and
perhaps a carriage return, which is a blank. So a laid out text has its line feeds in the same places, and between them
the same octets but for blanks (`delete_piece_format`).
-/

namespace AsmLens

namespace Blank

/-! ## Deleting blanks -/

/-- A text with all its blanks deleted. -/
def delete (s : Bytes) : Bytes := ((marks s).filter (!·.2)).map (·.1)

theorem flatten_fields (s : Bytes) : (fields s).flatten = delete s := by
  rw [fields, ← List.map_flatten, List.flatten_filter_not_isEmpty, flatten_splitOnP, delete]

theorem delete_append (x : Bytes) {y : Bytes} (hy : ∀ b ∈ y.head?, b < 0x80) :
    delete (x ++ y) = delete x ++ delete y := by
  rw [delete, marks_append x hy, List.filter_append, List.map_append]
  rfl

/-- An octet below `80` is a character of its own. -/
theorem marks_cons_ascii {b : UInt8} (hb : b < 0x80) (s : Bytes) : marks (b :: s) = (b, isBlank1 b) :: marks s := by
  cases h : isBlank1 b with
  | true => exact marks_cons_blank h s
  | false => exact marks_cons_ink (by simp [isInk, hb, h]) s

theorem marks_append_ascii {x : Bytes} (hx : ∀ b ∈ x, b < 0x80) (y : Bytes) : marks (x ++ y) = marks x ++ marks y := by
  induction x with
  | nil => rfl
  | cons b x ih =>
    have hb := hx b List.mem_cons_self
    rw [List.cons_append, marks_cons_ascii hb, marks_cons_ascii hb, ih fun c hc => hx c (List.mem_cons_of_mem _ hc),
      List.cons_append]

theorem delete_append_left {x : Bytes} (hx : ∀ b ∈ x, b < 0x80) (y : Bytes) :
    delete (x ++ y) = delete x ++ delete y := by
  rw [delete, marks_append_ascii hx, List.filter_append, List.map_append]
  rfl

theorem delete_blanks_append {x : Bytes} (hx : ∀ b ∈ x, isBlank1 b = true) (y : Bytes) :
    delete (x ++ y) = delete y := by
  rw [← flatten_fields, fields_append_left hx, flatten_fields]

theorem delete_append_blanks (x : Bytes) {y : Bytes} (hy : ∀ b ∈ y, isBlank1 b = true) :
    delete (x ++ y) = delete x := by
  rw [← flatten_fields, fields_append_right x hy, flatten_fields]

end Blank

namespace Layout

open Blank (delete)
open Source (lines chomp labelName? instruction)

/-! ## Lines -/

/-- Single spaces between words leave the words. -/
theorem delete_body (raw : Bytes) : delete (body raw) = delete (instruction raw) := by
  rw [← Blank.flatten_fields, fields_body, Blank.flatten_fields]

/-- A comment only loses filling at its end and gets a space in front. -/
theorem delete_comment (raw : Bytes) : delete (comment raw) = delete (Source.comment raw) := by
  by_cases h : Source.comment raw = []
  · rw [comment_of_eq_nil h, h]
  · obtain ⟨t, ht, hf⟩ := Bytes.trimEnd_append_self isFilling (Source.comment raw)
    have hblank : ∀ b ∈ t, Blank.isBlank1 b = true := fun b hb =>
      Blank.isBlank1_of_isSpace (isSpace_of_isFilling (hf b hb))
    have htrim : delete (Source.comment raw) = delete (Bytes.trimEnd isFilling (Source.comment raw)) := by
      conv_lhs => rw [ht]
      exact Blank.delete_append_blanks _ hblank
    rw [comment_of_ne_nil h, htrim]
    exact @Blank.delete_blanks_append [32] (List.forall_mem_singleton.2 (by decide)) _

/-- Where a comment begins, the line can be cut. -/
theorem delete_eq_code_append_comment (raw : Bytes) :
    delete raw = delete (Source.code raw) ++ delete (Source.comment raw) := by
  conv_lhs => rw [← Source.code_append_comment raw]
  apply Blank.delete_append
  intro b hb
  have hne : Source.comment raw ≠ [] := by
    intro h
    simp [h] at hb
  obtain ⟨c, hc⟩ := Source.head_comment hne
  obtain rfl : 33 = b := by simpa [hc] using hb
  decide

theorem lt_of_isWordByte {b : UInt8} (h : isWordByte b = true) : b < 0x80 := by
  simp only [isWordByte, isAlnum, isDigit, isLower, isUpper] at h
  grind

/-- The label definition of a line from its name to its colon; nothing if there is none. -/
def definition (raw : Bytes) : Bytes := (labelName? raw).elim [] (· ++ [58])

theorem lt_of_mem_definition {raw : Bytes} : ∀ b ∈ definition raw, b < 0x80 := by
  intro b hb
  cases h : labelName? raw with
  | none => simp [definition, h] at hb
  | some name =>
    rw [definition, h, Option.elim_some, List.mem_append] at hb
    rcases hb with hb | hb
    · exact lt_of_isWordByte ((isWordByte_of_labelName? h).2 b hb)
    · obtain rfl : b = 58 := by simpa using hb
      decide

theorem exists_lead_eq (n : Nat) (raw : Bytes) :
    ∃ k, lead n (labelName? raw) (body raw) = definition raw ++ List.replicate k 32 := by
  cases h : labelName? raw with
  | none => exact ⟨n, by simp [definition, h, lead]⟩
  | some name =>
    by_cases hb : body raw = []
    · exact ⟨0, by simp [definition, h, lead, hb]⟩
    · exact ⟨n - name.length - 1, by simp [definition, h, lead, hb]⟩

theorem exists_code_eq (raw : Bytes) :
    ∃ indent, Source.code raw = indent ++ definition raw ++ instruction raw ∧ ∀ b ∈ indent, isSpace b = true := by
  cases h : Source.label? raw with
  | none => exact ⟨[], by simp [definition, labelName?, h, Source.instruction_of_label?_eq_none h], by simp⟩
  | some w =>
    obtain ⟨indent, hcode, hi⟩ := Source.code_eq_of_label? h
    exact ⟨indent, by simp [hcode, definition, labelName?, h], hi⟩

/-- In front of the instruction stands the same label definition between other blanks. -/
theorem delete_lead_append_body (n : Nat) (raw : Bytes) :
    delete (lead n (labelName? raw) (body raw) ++ body raw) = delete (Source.code raw) := by
  have hblank (k : Nat) : ∀ b ∈ List.replicate k (32 : UInt8), Blank.isBlank1 b = true := fun b hb =>
    Blank.isBlank1_of_isSpace (isSpace_of_mem_replicate k b hb)
  obtain ⟨k, hlead⟩ := exists_lead_eq n raw
  obtain ⟨indent, hcode, hi⟩ := exists_code_eq raw
  rw [hlead, hcode, List.append_assoc, List.append_assoc, Blank.delete_append_left lt_of_mem_definition,
    Blank.delete_blanks_append (hblank k), delete_body,
    Blank.delete_blanks_append fun b hb => Blank.isBlank1_of_isSpace (hi b hb),
    Blank.delete_append_left lt_of_mem_definition]

theorem delete_line (n : Nat) (raw : Bytes) : delete (line n raw) = delete raw := by
  by_cases hv : IsVoid raw
  · obtain ⟨t, ht, hs⟩ := eq_line_append_of_isVoid hv n
    conv_rhs => rw [ht]
    exact (Blank.delete_append_blanks _ fun b hb => Blank.isBlank1_of_isSpace (hs b hb)).symm
  · -- A space stands in front of the comment, so that no character reaches from the code into it.
    have hhead : ∀ b ∈ (comment raw).head?, b < 0x80 := by
      intro b hb
      by_cases hc : Source.comment raw = []
      · simp [comment_of_eq_nil hc] at hb
      · obtain rfl : 32 = b := by simpa [comment_of_ne_nil hc] using hb
        decide
    rw [line_of_not_isVoid hv, Blank.delete_append _ hhead, delete_lead_append_body, delete_comment,
      ← delete_eq_code_append_comment]

/-! ## Texts -/

theorem delete_append_return (l : Bytes) : delete (l ++ [13]) = delete l :=
  Blank.delete_append_blanks l (List.forall_mem_singleton.2 (by decide))

theorem map_delete_lines (text : Bytes) : (lines text).map delete = (text.splitOn 10).map delete := by
  rw [Source.lines, List.map_map]
  refine List.map_congr_left fun piece _ => ?_
  by_cases h : piece.getLast? = some 13
  · conv_rhs => rw [Source.eq_append_return h, delete_append_return]
    rfl
  · exact congrArg delete (Source.chomp_eq_self h)

theorem map_delete_splitOn_format (text : Bytes) :
    ((format text).splitOn 10).map delete = (text.splitOn 10).map delete := by
  calc ((format text).splitOn 10).map delete = (lines (format text)).map delete := (map_delete_lines _).symm
    _ = (lines text).map fun raw => delete (line (indent (lines text)) raw) :=
      map_lines_format delete_append_return text
    _ = (lines text).map delete := List.map_congr_left fun raw _ => delete_line _ raw
    _ = (text.splitOn 10).map delete := map_delete_lines text

/-- A laid out text has as many line feeds as before, and each of the pieces around them is what it was but for
blanks. -/
theorem delete_piece_format (text : Bytes) :
    (format text).count 10 = text.count 10 ∧
      ∀ i : Nat, ((format text).splitOn 10)[i]?.map delete = (text.splitOn 10)[i]?.map delete := by
  have hpieces := map_delete_splitOn_format text
  constructor
  · have hlen := congrArg List.length hpieces
    simp only [List.length_map, List.splitOn_eq_splitOnP, length_splitOnP] at hlen
    exact Nat.add_right_cancel hlen
  · intro i
    rw [← List.getElem?_map, hpieces, List.getElem?_map]

-- The two octets of a no-break space with a tab between them are no blank, and both are kept.
example : format [0xC2, 9, 0xA0] = [32, 32, 0xC2, 32, 0xA0] ∧ delete [0xC2, 9, 0xA0] = [0xC2, 0xA0] := by decide

end Layout

end AsmLens
