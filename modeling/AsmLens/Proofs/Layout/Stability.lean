import AsmLens.Proofs.Layout.Lines

/-!
# When laying out again changes nothing

A laid out line stays as it is (`line_line`), but a laid out text may still change. Two things go wrong. A line that
hides a label gets one by being laid out, and the second time it is moved to column 0. A carriage return that a laid
out line still ends in (`LeavesReturn`) is taken for a part of the line end the second time: it is lost behind the last
line, and behind any other it turns the line ends of the whole text.

`format_format_iff` says that nothing else goes wrong: laying out again changes nothing just if no line hides a label,
the last line leaves no return, and the other lines agree (`IsStable`).
-/

namespace AsmLens.Layout

open Source (lines chomp labelName? instruction)

variable {raw : Bytes}

/-! ## Carriage returns that stay -/

/-- The laid out line ends in a carriage return: it is part of a comment, or there is neither label nor instruction. -/
def LeavesReturn (raw : Bytes) : Prop :=
  (Source.comment raw ≠ [] ∨ IsVoid raw) ∧ (Bytes.trimEnd isFilling raw).getLast? = some 13

/-- There is no filling in front of the carriage return either. -/
def LeavesCleanReturn (raw : Bytes) : Prop :=
  LeavesReturn raw ∧ ∀ b ∈ (Bytes.trimEnd isFilling raw).dropLast.getLast?, isFilling b = false

instance : DecidablePred LeavesReturn := fun _ => inferInstanceAs (Decidable (_ ∧ _))

instance : DecidablePred LeavesCleanReturn := fun _ => inferInstanceAs (Decidable (_ ∧ _))

/-- A line that ends in its comment, or has nothing else, keeps its end but for the filling. -/
theorem exists_common_end (h : Source.comment raw ≠ [] ∨ IsVoid raw) (n : Nat) :
    ∃ x y s, line n raw = x ++ s ∧ Bytes.trimEnd isFilling raw = y ++ s ∧ (x = y ∨ ∃ c, s = 33 :: c) := by
  by_cases hv : IsVoid raw
  · exact ⟨[], [], line n raw, rfl, (line_of_isVoid hv n).symm, .inl rfl⟩
  · have hc := h.resolve_right hv
    refine ⟨lead n (labelName? raw) (body raw) ++ body raw ++ [32], Source.code raw,
      Bytes.trimEnd isFilling (Source.comment raw), ?_, trimEnd_of_comment_ne_nil hc, .inr (trimEnd_comment_ne_nil hc)⟩
    rw [line_of_not_isVoid hv, comment_of_ne_nil hc]
    simp

/-- A line without a comment does not end in a blank behind its label and its instruction. -/
theorem getLast?_line_ne (hc : Source.comment raw = []) (hv : ¬IsVoid raw) (n : Nat) :
    (line n raw).getLast? ≠ some 13 := by
  rw [line_of_not_isVoid hv, comment_of_eq_nil hc, List.append_nil]
  intro h
  by_cases hb : body raw = []
  · cases hl : labelName? raw with
    | none => exact hv ⟨hl, hb⟩
    | some name => simp [hl, hb, lead] at h
  · rw [List.getLast?_append_of_ne_nil _ hb] at h
    exact absurd (isBlank1_getLast_body raw 13 h) (by decide)

theorem getLast?_line_eq_some_iff (n : Nat) (raw : Bytes) : (line n raw).getLast? = some 13 ↔ LeavesReturn raw := by
  by_cases h : Source.comment raw ≠ [] ∨ IsVoid raw
  · obtain ⟨x, y, s, hx, hy, hs⟩ := exists_common_end h n
    rw [LeavesReturn, hx, hy]
    rcases hs with rfl | ⟨c, rfl⟩
    · simp [h]
    · simp [h]
  · obtain ⟨hc, hv⟩ := not_or.1 h
    exact iff_of_false (getLast?_line_ne (not_not.1 hc) hv n) fun hl => h hl.1

/-- What stands in front of the carriage return that a line leaves. -/
theorem getLast?_chomp_line (h : LeavesReturn raw) (n : Nat) :
    (chomp (line n raw)).getLast? = (Bytes.trimEnd isFilling raw).dropLast.getLast? := by
  have hlast := (getLast?_line_eq_some_iff n raw).2 h
  obtain ⟨x, y, s, hx, hy, hs⟩ := exists_common_end h.1 n
  rw [Source.chomp, if_pos hlast, hx, hy]
  rcases hs with rfl | ⟨c, rfl⟩
  · rfl
  · have hc : c ≠ [] := by
      rintro rfl
      rw [hx] at hlast
      simp at hlast
    have hne : (33 :: c).dropLast ≠ [] := by simp [List.dropLast_cons_of_ne_nil hc]
    rw [List.dropLast_append_of_ne_nil (by simp), List.dropLast_append_of_ne_nil (by simp),
      List.getLast?_append_of_ne_nil _ hne, List.getLast?_append_of_ne_nil _ hne]

theorem leavesCleanReturn_iff (n : Nat) (raw : Bytes) :
    LeavesCleanReturn raw ↔
      (line n raw).getLast? = some 13 ∧ ∀ b ∈ (chomp (line n raw)).getLast?, isFilling b = false := by
  rw [getLast?_line_eq_some_iff, LeavesCleanReturn]
  refine and_congr_right fun h => ?_
  rw [getLast?_chomp_line h]

/-- A laid out line that loses a carriage return at its end still has to lose the filling in front of it. -/
theorem line_of_append_return {g : Bytes} {n : Nat} (h : line n (g ++ [13]) = g ++ [13]) :
    line n g = Bytes.trimEnd isFilling g := by
  have hspace : ∀ b ∈ ([13] : Bytes), isSpace b = true := List.all_eq_true.1 rfl
  have hl := labelName?_append_spaces g hspace
  have hf := fields_instruction_append g hspace
  by_cases hv : IsVoid g
  · exact line_of_isVoid hv n
  · have hv' : ¬IsVoid (g ++ [13]) := fun hc => hv ((isVoid_congr hl hf).1 hc)
    have hc : Source.comment (g ++ [13]) ≠ [] := by
      intro hc
      apply getLast?_line_ne hc hv' n
      rw [h]
      simp
    have hbang : 33 ∈ g := by
      by_contra hb
      exact hc (Source.comment_eq_nil (by simpa using hb))
    have hcomment : Bytes.trimEnd isFilling (Source.comment (g ++ [13])) = Source.comment (g ++ [13]) := by
      rw [← comment_line n, h]
    have hcode : Source.code g = lead n (labelName? g) (body g) ++ body g ++ [32] := by
      rw [line_of_not_isVoid hv', comment_of_ne_nil hc, hcomment, hl, body_congr hf] at h
      rw [← Source.code_append_of_mem hbang [13]]
      have hjoin := (Source.code_append_comment (g ++ [13])).trans h.symm
      rw [← List.singleton_append (x := 32), ← List.append_assoc] at hjoin
      exact List.append_cancel_right hjoin
    have hg := Source.comment_ne_nil hbang
    rw [line_of_not_isVoid hv, comment_of_ne_nil hg, trimEnd_of_comment_ne_nil hg, hcode]
    simp

/-- A laid out line that ends in a carriage return is not restored without it. -/
theorem line_chomp_eq_iff {f : Bytes} {n : Nat} (h : line n f = f) : line n (chomp f) = f ↔ f.getLast? ≠ some 13 := by
  by_cases hr : f.getLast? = some 13
  · refine iff_of_false (fun hc => ?_) fun hne => hne hr
    have hf := Source.eq_append_return hr
    rw [hf] at h
    rw [line_of_append_return h] at hc
    have hlen := congrArg List.length hf
    have := (Bytes.trimEnd_prefix isFilling (chomp f)).length_le
    rw [hc] at this
    simp at hlen
    omega
  · rw [Source.chomp_eq_self hr]
    exact iff_of_true h hr

/-- It is restored up to the return itself just if no filling is in front of that. -/
theorem line_chomp_append_return_eq_iff {f : Bytes} {n : Nat} (h : line n f = f) :
    line n (chomp f) ++ [13] = f ↔ f.getLast? = some 13 ∧ ∀ b ∈ (chomp f).getLast?, isFilling b = false := by
  by_cases hr : f.getLast? = some 13
  · have hf := Source.eq_append_return hr
    rw [hf] at h
    rw [line_of_append_return h, ← Bytes.trimEnd_eq_self_iff]
    conv_lhs => rhs; rw [hf]
    simp [hr]
  · refine iff_of_false (fun hc => hr ?_) fun hc => hr hc.1
    rw [← hc]
    simp

/-! ## Labels that come to light -/

/-- A laid out line with a label begins with its name. -/
theorem head?_line_of_labelName? {name : Bytes} (h : labelName? raw = some name) (n : Nat) :
    ∃ b, (line n raw).head? = some b ∧ isWordByte b = true := by
  obtain ⟨hne, hn⟩ := isWordByte_of_labelName? h
  obtain ⟨b, name, rfl⟩ := List.exists_cons_of_ne_nil hne
  refine ⟨b, ?_, hn b List.mem_cons_self⟩
  rw [line_of_not_isVoid fun hv => by simp [hv.1] at h, h]
  rfl

/-- A line that hides its label is moved when it is laid out again, whatever is behind it. -/
theorem line_append_ne_of_hidesLabel (h : HidesLabel raw) {n : Nat} (hn : 0 < n) {z : Bytes}
    (hz : labelName? z = labelName? (line n raw)) (m : Nat) (x y : Bytes) : line m z ++ x ≠ line n raw ++ y := by
  obtain ⟨hl, hb⟩ := h
  have hv : ¬IsVoid raw := fun hv => hb (by rw [hv.2]; rfl)
  obtain ⟨name, hname⟩ := Option.ne_none_iff_exists'.1 hb
  have hlead : lead n (labelName? raw) (body raw) = List.replicate n 32 := by rw [hl]; rfl
  rw [labelName?_line_of_not_isVoid hv, hlead, Source.labelName?_append_left (isSpace_of_mem_replicate n), hname] at hz
  obtain ⟨b, hb, hw⟩ := head?_line_of_labelName? hz m
  obtain ⟨n, rfl⟩ := Nat.exists_eq_add_one_of_ne_zero (Nat.ne_of_gt hn)
  intro he
  have hhead := congrArg List.head? he
  rw [line_of_not_isVoid hv, hlead, List.head?_append, hb, List.replicate_succ] at hhead
  obtain rfl : b = 32 := by simpa using hhead
  cases hw

/-! ## Texts -/

theorem indent_pos (raws : List Bytes) : 0 < indent raws := Nat.succ_pos _

theorem indent_congr {a b : List Bytes} (h : a.map labelName? = b.map labelName?) : indent a = indent b := by
  rw [indent, Labels.ofLines_congr h]
  rfl

variable {text last : Bytes} {init : List Bytes}

/-- Laying out again changes nothing just if it changes no piece around line feeds. -/
theorem format_format_eq_iff_lines (h : lines text = init ++ [last]) :
    format (format text) = format text ↔
      (∀ raw ∈ init, line (indent (lines (format text))) (chomp (line (indent (lines text)) raw ++ returnOf text)) ++
        returnOf (format text) = line (indent (lines text)) raw ++ returnOf text) ∧
      line (indent (lines (format text))) (chomp (line (indent (lines text)) last)) =
        line (indent (lines text)) last := by
  have hjoin (t : Bytes) : Bytes.join [10] (t.splitOn 10) = t := List.intercalate_splitOn 10
  have hsplit : format (format text) = format text ↔ (format (format text)).splitOn 10 = (format text).splitOn 10 := by
    refine ⟨congrArg _, fun he => ?_⟩
    rw [← hjoin (format (format text)), he, hjoin]
  rw [hsplit, splitOn_format (lines_format h), splitOn_format h, List.map_map, ← List.map_inj_left]
  constructor
  · intro he
    obtain ⟨hinit, hlast⟩ := List.append_inj' he rfl
    exact ⟨hinit, List.singleton_inj.1 hlast⟩
  · rintro ⟨hinit, hlast⟩
    rw [hlast]
    exact congrArg (· ++ _) hinit

/-- Nothing stays as it is where a line hides a label. -/
theorem not_hidesLabel_of_format_format_eq (h : format (format text) = format text) :
    ∀ raw ∈ lines text, ¬HidesLabel raw := by
  obtain ⟨init, last, hlines⟩ := Source.exists_lines_eq_concat text
  obtain ⟨hinit, hlast⟩ := (format_format_eq_iff_lines hlines).1 h
  have hpos := indent_pos (lines text)
  intro raw hr hh
  rw [hlines, List.mem_append, List.mem_singleton] at hr
  rcases hr with hr | rfl
  · refine line_append_ne_of_hidesLabel hh hpos ?_ _ _ _ (hinit raw hr)
    rw [Source.labelName?_chomp]
    refine Source.labelName?_append _ ?_
    unfold returnOf
    split <;> decide
  · refine line_append_ne_of_hidesLabel hh hpos ?_ _ [] [] (congrArg (· ++ []) hlast)
    exact Source.labelName?_chomp _

/-- The lines before the last are restored, with the line ends that are then chosen, just if these stay or all turn. -/
theorem restored_iff {n : Nat} (hinit : ∀ raw ∈ init, line n (line n raw) = line n raw)
    (hcrlf : hasCrLf (format text) = true ↔ hasCrLf text = true ∨ ∃ raw ∈ init, (line n raw).getLast? = some 13) :
    (∀ raw ∈ init,
        line n (chomp (line n raw ++ returnOf text)) ++ returnOf (format text) = line n raw ++ returnOf text) ↔
      hasCrLf text = true ∨ (∀ raw ∈ init, ¬LeavesReturn raw) ∨ ∀ raw ∈ init, LeavesCleanReturn raw := by
  by_cases hc : hasCrLf text = true
  · -- A return of the line end comes off first, so none of the line itself is lost.
    have hr : returnOf text = [13] := if_pos hc
    have hr' : returnOf (format text) = [13] := if_pos (hcrlf.2 (.inl hc))
    rw [hr, hr']
    refine iff_of_true (fun raw hmem => ?_) (.inl hc)
    rw [Source.chomp_append_return, hinit raw hmem]
  have hr : returnOf text = [] := if_neg hc
  simp only [hr, List.append_nil, hc, false_or, Bool.false_eq_true]
  by_cases hex : ∃ raw ∈ init, (line n raw).getLast? = some 13
  · -- The line ends turn, so every line must have lost just the return that it gets back.
    have hr' : returnOf (format text) = [13] := if_pos (hcrlf.2 (.inr hex))
    obtain ⟨raw₀, hmem₀, hraw₀⟩ := hex
    have hnot : ¬∀ raw ∈ init, ¬LeavesReturn raw := fun h =>
      h raw₀ hmem₀ ((getLast?_line_eq_some_iff n raw₀).1 hraw₀)
    rw [hr', or_iff_right hnot]
    refine forall₂_congr fun raw hmem => ?_
    rw [line_chomp_append_return_eq_iff (hinit raw hmem), leavesCleanReturn_iff n]
  · have hr' : returnOf (format text) = [] := if_neg fun h => (hcrlf.1 h).elim hc hex
    have hnone : ∀ raw ∈ init, (line n raw).getLast? ≠ some 13 := fun raw hmem h => hex ⟨raw, hmem, h⟩
    rw [hr']
    refine iff_of_true (fun raw hmem => ?_) (.inl fun raw hmem h => ?_)
    · rw [List.append_nil, Source.chomp_eq_self (hnone raw hmem), hinit raw hmem]
    · exact hnone raw hmem ((getLast?_line_eq_some_iff n raw).2 h)

/-- Where no line hides a label, only carriage returns can get lost. -/
theorem format_format_eq_iff_returns (hlines : lines text = init ++ [last])
    (hl : ∀ raw ∈ lines text, ¬HidesLabel raw) :
    format (format text) = format text ↔
      ¬LeavesReturn last ∧
        (hasCrLf text = true ∨ (∀ raw ∈ init, ¬LeavesReturn raw) ∨ ∀ raw ∈ init, LeavesCleanReturn raw) := by
  have hindent : indent (lines (format text)) = indent (lines text) := by
    apply indent_congr
    rw [map_lines_format (g := labelName?) fun l => Source.labelName?_append l (by decide)]
    exact List.map_congr_left fun raw hr => labelName?_line (hl raw hr) _
  have hfix : ∀ raw ∈ init ++ [last], line (indent (lines text)) (line (indent (lines text)) raw) =
      line (indent (lines text)) raw := fun raw hr => line_line (hl raw (hlines ▸ hr)) _
  have hinit := restored_iff (fun raw hr => hfix raw (List.mem_append_left _ hr)) (hasCrLf_format_iff hlines)
  have hlast := line_chomp_eq_iff (hfix last (by simp))
  rw [format_format_eq_iff_lines hlines, hindent, hinit, hlast, Ne, getLast?_line_eq_some_iff, and_comm]

/-- What a text must be like for its layout to be final. -/
structure IsStable (text : Bytes) : Prop where
  /-- No label comes to light. -/
  labels : ∀ raw ∈ lines text, ¬HidesLabel raw
  /-- No carriage return gets lost at the end of the text. -/
  last : ∀ raw ∈ (lines text).getLast?, ¬LeavesReturn raw
  /-- None turns the line ends: they have one already, or no line leaves one, or every line does. -/
  others : hasCrLf text = true ∨ (∀ raw ∈ (lines text).dropLast, ¬LeavesReturn raw) ∨
    ∀ raw ∈ (lines text).dropLast, LeavesCleanReturn raw

instance : DecidablePred IsStable := fun text => decidable_of_iff
  ((∀ raw ∈ lines text, ¬HidesLabel raw) ∧ (∀ raw ∈ (lines text).getLast?, ¬LeavesReturn raw) ∧
    (hasCrLf text = true ∨ (∀ raw ∈ (lines text).dropLast, ¬LeavesReturn raw) ∨
      ∀ raw ∈ (lines text).dropLast, LeavesCleanReturn raw))
  ⟨fun ⟨hl, hr, ho⟩ => ⟨hl, hr, ho⟩, fun ⟨hl, hr, ho⟩ => ⟨hl, hr, ho⟩⟩

/-- Laying out again changes nothing just in these texts. -/
theorem format_format_iff (text : Bytes) : format (format text) = format text ↔ IsStable text := by
  obtain ⟨init, last, hlines⟩ := Source.exists_lines_eq_concat text
  have hlast : (lines text).getLast? = some last := by simp [hlines]
  have hinit : (lines text).dropLast = init := by simp [hlines]
  constructor
  · intro h
    have hl := not_hidesLabel_of_format_format_eq h
    obtain ⟨hr, hi⟩ := (format_format_eq_iff_returns hlines hl).1 h
    refine ⟨hl, fun raw hraw => ?_, by rwa [hinit]⟩
    obtain rfl : last = raw := by simpa [hlast] using hraw
    exact hr
  · rintro ⟨hl, hr, hi⟩
    rw [hinit] at hi
    exact (format_format_eq_iff_returns hlines hl).2 ⟨hr last hlast, hi⟩

-- Each of two carriage returns behind a comment is lost in its turn, and a label behind a vertical tab comes to light.
example : format [33, 13, 13] = [33, 13] ∧ format [33, 13] = [33] ∧ ¬IsStable [33, 13, 13] := by decide

example : format [11, 97, 58] = [32, 32, 97, 58] ∧ format [32, 32, 97, 58] = [97, 58] ∧ ¬IsStable [11, 97, 58] := by
  decide

end AsmLens.Layout
