import AsmLens.Proofs.Layout.Line

/-!
# The lines of a laid out text

A text is its lines, each but the last with a line feed behind it, and perhaps a carriage return in front of that. When
a laid out text is read again its lines are those that were written, but for a carriage return at the end of a line that
is taken for a part of the line end (`lines_format`). What does not depend on such a return is what it was in the lines
that were laid out (`map_lines_format`).

Carriage return and line feed stand together in a laid out text just if they did in the text before, or if a line that
is not the last ends in a carriage return (`hasCrLf_format_iff`).
-/

namespace AsmLens

/-! ## Pieces around line feeds -/

theorem exists_splitOn_eq_concat (text : Bytes) : ∃ init last, text.splitOn 10 = init ++ [last] :=
  ⟨_, _, (List.dropLast_append_getLast (List.splitOn_ne_nil 10 text)).symm⟩

theorem lineFeed_not_mem_piece {text piece : Bytes} (h : piece ∈ text.splitOn 10) : 10 ∉ piece := by
  intro hc
  have := (mem_splitOnP h).2 10 hc
  simp at this

namespace Source

/-! ## Carriage returns at line ends -/

theorem chomp_append_return (line : Bytes) : chomp (line ++ [13]) = line := by simp [chomp]

theorem chomp_eq_self {line : Bytes} (h : line.getLast? ≠ some 13) : chomp line = line := if_neg h

theorem eq_append_return {line : Bytes} (h : line.getLast? = some 13) : line = chomp line ++ [13] := by
  obtain ⟨x, rfl⟩ := List.getLast?_eq_some_iff.1 h
  rw [chomp_append_return]

theorem labelName?_chomp (line : Bytes) : labelName? (chomp line) = labelName? line := by
  by_cases h : line.getLast? = some 13
  · conv_rhs => rw [eq_append_return h]
    exact (labelName?_append _ (by decide)).symm
  · rw [chomp_eq_self h]

theorem chomp_subset (line : Bytes) : chomp line ⊆ line := by
  unfold chomp
  split
  · exact List.dropLast_subset line
  · exact List.Subset.refl line

theorem lines_ne_nil (text : Bytes) : lines text ≠ [] := by
  rw [lines]
  simp

theorem exists_lines_eq_concat (text : Bytes) : ∃ init last, lines text = init ++ [last] :=
  ⟨_, _, (List.dropLast_append_getLast (lines_ne_nil text)).symm⟩

theorem lineFeed_not_mem_lines {text raw : Bytes} (h : raw ∈ lines text) : 10 ∉ raw := by
  obtain ⟨piece, hp, rfl⟩ := List.mem_map.1 h
  exact fun hc => lineFeed_not_mem_piece hp (chomp_subset piece hc)

end Source

namespace Bytes

/-- Texts with line ends between them are pieces around line feeds. -/
theorem join_append_lineFeed (x l : Bytes) (init : List Bytes) :
    join (x ++ [10]) (init ++ [l]) = join [10] (init.map (· ++ x) ++ [l]) := by
  induction init with
  | nil => simp [join]
  | cons a init ih =>
    cases init with
    | nil => simp [join]
    | cons c init =>
      simp only [List.cons_append, List.map_cons, join_cons_cons] at ih ⊢
      rw [ih]
      simp

theorem splitOn_join_append_lineFeed {x l : Bytes} {init : List Bytes} (hx : 10 ∉ x) (hinit : ∀ f ∈ init, 10 ∉ f)
    (hl : 10 ∉ l) : (join (x ++ [10]) (init ++ [l])).splitOn 10 = init.map (· ++ x) ++ [l] := by
  rw [join_append_lineFeed, splitOn_join (by simp)]
  intro w hw
  rcases List.mem_append.1 hw with hw | hw
  · obtain ⟨f, hf, rfl⟩ := List.mem_map.1 hw
    simp [hinit f hf, hx]
  · rw [List.mem_singleton.1 hw]
    exact hl

end Bytes

namespace Layout

open Source (lines chomp labelName? instruction)

/-! ## Line ends -/

theorem hasCrLf_append_lineFeed {w : Bytes} (hw : 10 ∉ w) (rest : Bytes) :
    hasCrLf (w ++ 10 :: rest) = true ↔ w.getLast? = some 13 ∨ hasCrLf rest = true := by
  induction w with
  | nil => simp [hasCrLf]
  | cons a w ih =>
    cases w with
    | nil =>
      by_cases ha : a = 13
      · simp [ha, hasCrLf]
      · simp [hasCrLf, ha]
    | cons c w =>
      have hc : c ≠ 10 := fun h => hw (by simp [h])
      have hstep : hasCrLf (a :: c :: w ++ 10 :: rest) = hasCrLf (c :: w ++ 10 :: rest) := by
        simp [hasCrLf, hc]
      rw [hstep, ih fun h => hw (List.mem_cons_of_mem _ h), List.getLast?_cons_cons]

theorem hasCrLf_of_not_mem {w : Bytes} (hw : 10 ∉ w) : hasCrLf w = false := by
  induction w with
  | nil => rfl
  | cons a w ih =>
    have hrest : 10 ∉ w := fun h => hw (List.mem_cons_of_mem _ h)
    cases w with
    | nil => simp [hasCrLf]
    | cons c w =>
      have hc : c ≠ 10 := fun h => hrest (by simp [h])
      rw [← ih hrest]
      simp [hasCrLf, hc]

/-- A carriage return in front of a line feed ends one of the pieces around line feeds that is not the last. -/
theorem hasCrLf_iff (text : Bytes) :
    hasCrLf text = true ↔ ∃ piece ∈ (text.splitOn 10).dropLast, piece.getLast? = some 13 := by
  induction text using splitOnP_induction (p := (· == (10 : UInt8))) with
  | whole w hw =>
    have hw' : 10 ∉ w := fun h => by simpa using hw 10 h
    rw [hasCrLf_of_not_mem hw', List.splitOn, List.splitOnP_eq_singleton hw]
    simp
  | cut w b rest hw hb ih =>
    have hw' : 10 ∉ w := fun h => by simpa using hw 10 h
    obtain rfl : b = 10 := by simpa using hb
    have hsplit : (w ++ 10 :: rest).splitOn 10 = w :: rest.splitOn 10 :=
      List.splitOnP_append_cons_of_forall_mem hw 10 hb rest
    rw [hasCrLf_append_lineFeed hw', ih, hsplit, List.dropLast_cons_of_ne_nil (List.splitOn_ne_nil 10 rest)]
    simp

/-- The carriage return, if any, that goes with every line feed of a text that is laid out. -/
def returnOf (text : Bytes) : Bytes := if hasCrLf text then [13] else []

theorem lineEnd_eq (text : Bytes) : lineEnd text = returnOf text ++ [10] := by
  unfold lineEnd returnOf
  split <;> rfl

theorem lineFeed_not_mem_returnOf (text : Bytes) : 10 ∉ returnOf text := by
  unfold returnOf
  split <;> decide

/-! ## Laid out texts -/

theorem mem_of_mem_line {n : Nat} {raw : Bytes} {b : UInt8} (h : b ∈ line n raw) : b ∈ raw ∨ b = 32 ∨ b = 58 := by
  have hraw := Source.code_append_comment raw
  by_cases hv : IsVoid raw
  · rw [line_of_isVoid hv] at h
    exact .inl ((Bytes.trimEnd_prefix isFilling raw).subset h)
  · rw [line_of_not_isVoid hv, List.mem_append, List.mem_append] at h
    rcases h with (h | h) | h
    · cases hl : labelName? raw with
      | none =>
        rw [hl] at h
        exact .inr (.inl (List.eq_of_mem_replicate h))
      | some name =>
        obtain ⟨indent, rest, hr, -⟩ := Source.labelName?_eq_some_iff.1 hl
        rw [hl, lead, List.mem_append, List.mem_cons] at h
        rcases h with h | rfl | h
        · exact .inl (by rw [hr]; simp [h])
        · exact .inr (.inr rfl)
        · split at h
          · cases h
          · exact .inr (.inl (List.eq_of_mem_replicate h))
    · rcases mem_of_mem_body h with h | h
      · exact .inr (.inl h)
      · exact .inl (by rw [← hraw]; exact List.mem_append_left _ h)
    · by_cases hc : Source.comment raw = []
      · rw [comment_of_eq_nil hc] at h
        cases h
      · rw [comment_of_ne_nil hc] at h
        rcases List.mem_cons.1 h with h | h
        · exact .inr (.inl h)
        · refine .inl ?_
          rw [← hraw]
          exact List.mem_append_right _ ((Bytes.trimEnd_prefix isFilling _).subset h)

theorem lineFeed_not_mem_line {raw : Bytes} (h : 10 ∉ raw) (n : Nat) : 10 ∉ line n raw := by
  intro hc
  rcases mem_of_mem_line hc with hc | hc | hc
  · exact h hc
  · cases hc
  · cases hc

variable {text last : Bytes} {init : List Bytes}

/-- The pieces of a laid out text around line feeds. -/
theorem splitOn_format (h : lines text = init ++ [last]) :
    (format text).splitOn 10 =
      init.map (fun raw => line (indent (lines text)) raw ++ returnOf text) ++ [line (indent (lines text)) last] := by
  have hfeed : ∀ raw ∈ init ++ [last], 10 ∉ raw := fun raw hraw => Source.lineFeed_not_mem_lines (h ▸ hraw)
  rw [format, lineEnd_eq]
  simp only [h, List.map_append, List.map_singleton]
  rw [Bytes.splitOn_join_append_lineFeed (lineFeed_not_mem_returnOf text), List.map_map]
  · rfl
  · intro f hf
    obtain ⟨raw, hraw, rfl⟩ := List.mem_map.1 hf
    exact lineFeed_not_mem_line (hfeed raw (List.mem_append_left _ hraw)) _
  · exact lineFeed_not_mem_line (hfeed last (by simp)) _

/-- The lines of a laid out text. -/
theorem lines_format (h : lines text = init ++ [last]) :
    lines (format text) =
      init.map (fun raw => chomp (line (indent (lines text)) raw ++ returnOf text)) ++
        [chomp (line (indent (lines text)) last)] := by
  rw [Source.lines, splitOn_format h, List.map_append, List.map_map]
  rfl

/-- What a carriage return at the end of a line does not change. -/
theorem map_lines_format {β : Type} {g : Bytes → β} (hg : ∀ line, g (line ++ [13]) = g line) (text : Bytes) :
    (lines (format text)).map g = (lines text).map fun raw => g (line (indent (lines text)) raw) := by
  have hchomp (l : Bytes) : g (chomp l) = g l := by
    by_cases hl : l.getLast? = some 13
    · conv_rhs => rw [Source.eq_append_return hl, hg]
    · rw [Source.chomp_eq_self hl]
  have hreturn (l : Bytes) : g (l ++ returnOf text) = g l := by
    unfold returnOf
    split
    · exact hg l
    · rw [List.append_nil]
  obtain ⟨init, last, h⟩ := Source.exists_lines_eq_concat text
  rw [lines_format h]
  simp only [List.map_append, List.map_map, Function.comp_def, hchomp, hreturn, h, List.map_singleton]

theorem hasCrLf_format_iff (h : lines text = init ++ [last]) :
    hasCrLf (format text) = true ↔
      hasCrLf text = true ∨ ∃ raw ∈ init, (line (indent (lines text)) raw).getLast? = some 13 := by
  rw [hasCrLf_iff, splitOn_format h, List.dropLast_concat]
  simp only [List.mem_map, exists_exists_and_eq_and]
  by_cases hc : hasCrLf text = true
  · -- A text with a line end in it has more than one line.
    have hne : init ≠ [] := by
      rintro rfl
      obtain ⟨piece, hp, -⟩ := (hasCrLf_iff text).1 hc
      have hlen : (text.splitOn 10).length = 1 := by
        have := congrArg List.length h
        rwa [Source.lines, List.length_map] at this
      have := List.length_pos_of_mem hp
      simp [hlen] at this
    obtain ⟨raw, rest, rfl⟩ := List.exists_cons_of_ne_nil hne
    simp [hc, returnOf]
  · simp [hc, returnOf]

end Layout

end AsmLens
