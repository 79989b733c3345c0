import AsmLens.Isa.Description
import AsmLens.Proofs.Check.Agreement
import AsmLens.Proofs.Layout.Lines
import AsmLens.Proofs.Text.Trim

/-!
# Line ends do not matter

A text may end its lines with line feeds alone, or with a carriage return before each of them (`withReturns`). The
pieces of the latter around line feeds are those of the former, each but the last with a carriage return behind it
(`splitOn_withReturns`), so whatever does not see a carriage return at the end of a piece sees the same pieces
(`map_splitOn_withReturns`).

* A line loses such a return when it is read (`lines_withReturns`), so that the two texts have the same lines.
* A declaration is trimmed before it is read (`declaration?_append_return`), so that they describe the same table.
* A text is laid out with the line ends that it has (`lineEnd_of_not_mem`, `lineEnd_withReturns`).

* `lineEnds_irrelevant`: checking, hovering, reading a table and laying out treat the two texts alike.
-/

namespace AsmLens

/-- The text with a carriage return in front of every line feed. -/
def withReturns (text : Bytes) : Bytes := text.flatMap fun b => if b = 10 then [13, 10] else [b]

theorem withReturns_append (x y : Bytes) : withReturns (x ++ y) = withReturns x ++ withReturns y :=
  List.flatMap_append

theorem withReturns_of_not_mem {x : Bytes} (hx : 10 ∉ x) : withReturns x = x := by
  induction x with
  | nil => rfl
  | cons b x ih =>
    have hb : b ≠ 10 := fun h => hx (by simp [h])
    rw [withReturns, List.flatMap_cons, if_neg hb, ← withReturns, ih fun h => hx (List.mem_cons_of_mem _ h)]
    rfl

/-- Only the separators between texts without line feeds are changed. -/
theorem withReturns_join {parts : List Bytes} (h : ∀ w ∈ parts, 10 ∉ w) :
    withReturns (Bytes.join [10] parts) = Bytes.join [13, 10] parts := by
  induction parts with
  | nil => rfl
  | cons a parts ih =>
    have ha := withReturns_of_not_mem (h a List.mem_cons_self)
    cases parts with
    | nil => simpa [Bytes.join] using ha
    | cons c parts =>
      have hfeed : withReturns [10] = [13, 10] := rfl
      rw [Bytes.join_cons_cons, Bytes.join_cons_cons, withReturns_append, withReturns_append, ha, hfeed,
        ih fun w hw => h w (List.mem_cons_of_mem _ hw)]

section Pieces

variable {text last : Bytes} {init : List Bytes}

/-- Every piece but the last gets a carriage return. -/
theorem splitOn_withReturns (h : text.splitOn 10 = init ++ [last]) :
    (withReturns text).splitOn 10 = init.map (· ++ [13]) ++ [last] := by
  have hfeed : ∀ piece ∈ init ++ [last], 10 ∉ piece := fun piece hp => lineFeed_not_mem_piece (h ▸ hp)
  have htext : Bytes.join [10] (init ++ [last]) = text := by
    rw [← h]
    exact List.intercalate_splitOn 10
  have hreturns : withReturns text = Bytes.join ([13] ++ [10]) (init ++ [last]) := by
    rw [← htext, withReturns_join hfeed]
    rfl
  rw [hreturns]
  exact Bytes.splitOn_join_append_lineFeed (by decide) (fun piece hp => hfeed piece (List.mem_append_left _ hp))
    (hfeed last (by simp))

/-- What no carriage return at the end of a piece changes. -/
theorem map_splitOn_withReturns {β : Type} {g : Bytes → β}
    (hg : ∀ piece ∈ text.splitOn 10, g (piece ++ [13]) = g piece) :
    ((withReturns text).splitOn 10).map g = (text.splitOn 10).map g := by
  obtain ⟨init, last, h⟩ := exists_splitOn_eq_concat text
  have hinit : (init.map (· ++ [13])).map g = init.map g := by
    rw [List.map_map]
    exact List.map_congr_left fun piece hp => hg piece (by rw [h]; exact List.mem_append_left _ hp)
  rw [splitOn_withReturns h, h, List.map_append, List.map_append, hinit]

theorem getLast?_piece_ne (htext : 13 ∉ text) {piece : Bytes} (hp : piece ∈ text.splitOn 10) :
    piece.getLast? ≠ some 13 := by
  intro h
  exact htext ((mem_splitOnP hp).1.subset (List.mem_of_getLast? h))

end Pieces

variable {text : Bytes}

/-! ## Reading lines -/

theorem lines_withReturns (h : 13 ∉ text) : Source.lines (withReturns text) = Source.lines text := by
  apply map_splitOn_withReturns
  intro piece hp
  exact (Source.chomp_append_return piece).trans (Source.chomp_eq_self (getLast?_piece_ne h hp)).symm

/-! ## Reading tables -/

theorem declaration?_append_return (line : Bytes) :
    Description.declaration? (line ++ [13]) = Description.declaration? line := by
  rw [Description.declaration?, Blank.trim_concat_blank line (by decide)]
  rfl

theorem parse_withReturns (text : Bytes) : Description.parse (withReturns text) = Description.parse text := by
  have hmap : ((withReturns text).splitOn 10).map Description.declaration? =
      (text.splitOn 10).map Description.declaration? :=
    map_splitOn_withReturns fun piece _ => declaration?_append_return piece
  have hfilter := congrArg (List.filterMap id) hmap
  rw [List.filterMap_map, List.filterMap_map] at hfilter
  exact congrArg Dictionary.ofList hfilter

/-! ## Laying out -/

namespace Layout

theorem lineEnd_of_not_mem (h : 13 ∉ text) : lineEnd text = [10] := by
  have hno : ¬hasCrLf text = true := by
    rw [hasCrLf_iff]
    rintro ⟨piece, hp, hr⟩
    exact getLast?_piece_ne h (List.dropLast_subset _ hp) hr
  rw [lineEnd, if_neg hno]

/-- There is a line end to look at wherever there is more than one line. -/
theorem lineEnd_withReturns (h : 1 < (text.splitOn 10).length) : lineEnd (withReturns text) = [13, 10] := by
  obtain ⟨init, last, hs⟩ := exists_splitOn_eq_concat text
  have hne : init ≠ [] := by
    rintro rfl
    simp [hs] at h
  obtain ⟨piece, rest, rfl⟩ := List.exists_cons_of_ne_nil hne
  have hyes : hasCrLf (withReturns text) = true := by
    rw [hasCrLf_iff, splitOn_withReturns hs, List.dropLast_concat]
    exact ⟨piece ++ [13], by simp, by simp⟩
  rw [lineEnd, if_pos hyes]

/-- What is between lines does not matter where there is only one. -/
theorem join_of_length_le_one (sep sep' : Bytes) {parts : List Bytes} (h : parts.length ≤ 1) :
    Bytes.join sep parts = Bytes.join sep' parts := by
  match parts, h with
  | [], _ => rfl
  | [w], _ => simp [Bytes.join]

theorem format_withReturns (h : 13 ∉ text) : format (withReturns text) = withReturns (format text) := by
  have hfeed : ∀ w ∈ (Source.lines text).map (line (indent (Source.lines text))), 10 ∉ w := by
    intro w hw
    obtain ⟨raw, hr, rfl⟩ := List.mem_map.1 hw
    exact lineFeed_not_mem_line (Source.lineFeed_not_mem_lines hr) _
  have hright : withReturns (format text) =
      Bytes.join [13, 10] ((Source.lines text).map (line (indent (Source.lines text)))) := by
    rw [format, lineEnd_of_not_mem h, withReturns_join hfeed]
  rw [hright, format, lines_withReturns h]
  by_cases hone : 1 < (text.splitOn 10).length
  · rw [lineEnd_withReturns hone]
  · apply join_of_length_le_one
    rw [List.length_map, Source.lines, List.length_map]
    omega

end Layout

/-- A text without carriage returns, and the same with one before each line feed: checking them shows the same, they
describe the same table, and they are laid out the same but for the line ends. -/
theorem lineEnds_irrelevant (h : 13 ∉ text) :
    (∀ isa : Isa, Analysis.Agree (Analysis.ofText isa (withReturns text)) (Analysis.ofText isa text)) ∧
      Description.parse (withReturns text) = Description.parse text ∧
      Layout.format (withReturns text) = withReturns (Layout.format text) := by
  refine ⟨fun isa => ?_, parse_withReturns text, Layout.format_withReturns h⟩
  rw [Analysis.ofText, lines_withReturns h]
  exact Analysis.Agree.refl _

/-- A label, a comment, an empty line, and a last line that nothing ends. -/
def unreturned : Bytes := utf8 "a: beq $t0,  $q, b ! x\n\n  lw $t0 #I"

theorem lineEnds_irrelevant_unreturned : 13 ∉ unreturned ∧
    (Analysis.ofText Isa.default unreturned).diagnostics = [⟨0, 13, 15, .operandKind .register 2 (utf8 "$q")⟩,
      ⟨0, 17, 18, .expectedLabel 3 (utf8 "b")⟩, ⟨0, 13, 15, .invalidRegister (utf8 "$q")⟩,
      ⟨0, 17, 18, .undefinedLabel (utf8 "b")⟩, ⟨2, 9, 11, .operandKind .based 2 (utf8 "#I")⟩] ∧
    (Analysis.ofText Isa.default (withReturns unreturned)).diagnostics =
      (Analysis.ofText Isa.default unreturned).diagnostics ∧
    (Description.parse unreturned).entries = [(utf8 "a", []), (utf8 "lw", [.register, .number])] ∧
    Description.parse (withReturns unreturned) = Description.parse unreturned ∧
    Layout.format unreturned = utf8 "a: beq $t0, $q, b ! x\n\n   lw $t0 #I" ∧
    Layout.format (withReturns unreturned) = withReturns (Layout.format unreturned) := by
  have h : 13 ∉ unreturned := by decide
  obtain ⟨hagree, hparse, hformat⟩ := lineEnds_irrelevant h
  exact ⟨h, by decide +kernel, (hagree Isa.default).diagnostics, by decide +kernel, hparse, by decide +kernel, hformat⟩

end AsmLens
