import AsmLens.Proofs.Source.Line

/-!
# Where words stand

A word with its column says of a text that the word is written there (`Word.StandsIn`). What stands in a part of a text
stands in the whole (`StandsIn.append_left`, `StandsIn.append_right`, `StandsIn.trans`), and the stretch from its first
column to its last is the word itself (`StandsIn.extract_eq`).

Every run of a text stands in it (`standsIn_of_mem_runs`), so every word of a line stands in the instruction of the
line, that is in its code behind the label definition (`Line.standsIn_of_mem_words`). Runs have no separators in them
but between them (`separated_runs`); one behind the other come also the label of a line and its words
(`Line.pairwise_stretches`).
-/

namespace AsmLens

namespace Word

/-- The word is what stands at its column of a text that begins at column `start`. -/
def StandsIn (start : Nat) (s : Bytes) (w : Word) : Prop :=
  ∃ before after, s = before ++ w.text ++ after ∧ w.start = start + before.length

namespace StandsIn

variable {start : Nat} {s : Bytes} {v w : Word}

theorem self (w : Word) : w.StandsIn w.start w.text := ⟨[], [], by simp, rfl⟩

theorem append_left (x : Bytes) (h : w.StandsIn (start + x.length) s) : w.StandsIn start (x ++ s) := by
  obtain ⟨before, after, rfl, hw⟩ := h
  refine ⟨x ++ before, after, by simp, ?_⟩
  rw [hw, List.length_append]
  omega

theorem append_right (h : w.StandsIn start s) (y : Bytes) : w.StandsIn start (s ++ y) := by
  obtain ⟨before, after, rfl, hw⟩ := h
  exact ⟨before, after ++ y, by simp, hw⟩

/-- A part of a word stands where the word stands. -/
theorem trans (hv : v.StandsIn w.start w.text) (hw : w.StandsIn start s) : v.StandsIn start s := by
  obtain ⟨before, after, rfl, hs⟩ := hw
  refine (append_left before ?_).append_right after
  rw [← hs]
  exact hv

theorem start_le (h : w.StandsIn start s) : start ≤ w.start := by
  obtain ⟨before, after, -, hw⟩ := h
  omega

theorem stop_le (h : w.StandsIn start s) : w.stop ≤ start + s.length := by
  obtain ⟨before, after, rfl, hw⟩ := h
  rw [stop, hw, List.length_append, List.length_append]
  omega

theorem subset (h : w.StandsIn start s) : w.text ⊆ s := by
  obtain ⟨before, after, rfl, -⟩ := h
  intro b hb
  simp [hb]

/-- The octets under the columns of a word are its own. -/
theorem exists_getElem? (h : w.StandsIn 0 s) {j : Nat} (hj : w.start ≤ j) (hj' : j < w.stop) :
    ∃ b ∈ w.text, s[j]? = some b := by
  obtain ⟨before, after, rfl, hstart⟩ := h
  rw [stop] at hj'
  have hlt : j - before.length < w.text.length := by omega
  refine ⟨w.text[j - before.length], List.getElem_mem hlt, ?_⟩
  rw [List.append_assoc, List.getElem?_append_right (by omega), List.getElem?_append_left hlt,
    List.getElem?_eq_getElem hlt]

/-- The stretch between the two columns of a word is the word. -/
theorem extract_eq (h : w.StandsIn 0 s) : s.extract w.start w.stop = w.text := by
  obtain ⟨before, after, rfl, hw⟩ := h
  rw [Nat.zero_add] at hw
  rw [List.extract_eq_take_drop, stop, hw, List.append_assoc, List.drop_left, Nat.add_sub_cancel_left, List.take_left]

end StandsIn

end Word

namespace Source

/-- A run stands where its column says, and is not empty. -/
theorem standsIn_of_mem_runs {s : Bytes} :
    ∀ {start : Nat} {w : Word}, w ∈ runs start s → w.StandsIn start s ∧ w.text ≠ [] := by
  induction s with
  | nil => intro start w h; simp [runs] at h
  | cons b s ih =>
    intro start w h
    have hlater {v : Word} (hv : v ∈ runs (start + 1) s) : v.StandsIn start (b :: s) ∧ v.text ≠ [] :=
      ⟨(ih hv).1.append_left [b], (ih hv).2⟩
    have hfirst : Word.StandsIn start (b :: s) ⟨[b], start⟩ := ⟨[], s, rfl, rfl⟩
    simp only [runs] at h
    split at h
    · exact hlater h
    · split at h
      · next v vs hv =>
        have hmem : v ∈ runs (start + 1) s := hv ▸ List.mem_cons_self
        split at h
        · next hstart =>
          rcases List.mem_cons.1 h with rfl | h
          · -- The run behind `b` begins right there, so nothing stands before it.
            obtain ⟨before, after, hs, hcol⟩ := (ih hmem).1
            obtain rfl : before = [] := List.length_eq_zero_iff.1 (by omega)
            exact ⟨⟨[], after, by rw [hs]; rfl, rfl⟩, by simp⟩
          · exact hlater (hv ▸ List.mem_cons_of_mem _ h)
        · rcases List.mem_cons.1 h with rfl | h
          · exact ⟨hfirst, by simp⟩
          · exact hlater (hv ▸ h)
      · obtain rfl := List.mem_singleton.1 h
        exact ⟨hfirst, by simp⟩

theorem not_isSeparator_of_mem_runs {s : Bytes} :
    ∀ {start : Nat} {w : Word}, w ∈ runs start s → ∀ b ∈ w.text, isSeparator b = false := by
  induction s using splitOnP_induction (p := isSeparator) with
  | whole v hv => exact fun h b hb => hv b ((standsIn_of_mem_runs h).1.subset hb)
  | cut v c rest hv hc ih =>
    intro start w h b hb
    rw [runs_append_separator hc] at h
    rcases List.mem_append.1 h with h | h
    · exact hv b ((standsIn_of_mem_runs h).1.subset hb)
    · exact ih h b hb

/-- Between two runs there is a separator. -/
theorem separated_runs (s : Bytes) : ∀ start, (runs start s).Pairwise (·.stop < ·.start) := by
  induction s using runs_induction (p := isSeparator) with
  | nil => intro start; exact .nil
  | marked x y _ hx _ ih =>
    intro start
    rw [runs_separators_append hx]
    exact ih _
  | other w y hne hw hy ih =>
    intro start
    rw [runs_word_append hne hw hy]
    refine List.pairwise_cons.2 ⟨fun v hv => ?_, ih _⟩
    show start + w.length < v.start
    cases y with
    | nil => cases hv
    | cons b y =>
      rw [runs_cons_separator (hy b rfl)] at hv
      exact start_le_of_mem_runs hv

/-- Runs come one behind the other. -/
theorem pairwise_runs (s : Bytes) (start : Nat) : (runs start s).Pairwise (·.stop ≤ ·.start) :=
  (separated_runs s start).imp Nat.le_of_lt

theorem mem_runs_of_mem_words {start : Nat} {s : Bytes} {w : Word} (h : w ∈ words start s) : w ∈ runs start s := by
  rw [words_eq] at h
  split at h
  · cases h
  · exact h

theorem labelEnd_code (line : Bytes) : labelEnd (code line) = labelEnd line := by
  rw [labelEnd, label?_code]
  rfl

/-- The code of a line is what its label definition takes up, and the instruction. -/
theorem take_append_instruction (line : Bytes) : (code line).take (labelEnd line) ++ instruction line = code line := by
  rw [instruction, labelEnd_code]
  exact List.take_append_drop _ _

theorem length_take_labelEnd (line : Bytes) : ((code line).take (labelEnd line)).length = labelEnd line := by
  rw [List.length_take, ← labelEnd_code]
  exact Nat.min_eq_left (labelEnd_le_length (code line))

end Source

/-- The words of a line are the runs of its instruction, unless that is nothing but blanks. -/
theorem Line.words_ofBytes (raw : Bytes) : (Line.ofBytes raw).words =
    if Blank.isBlankText (Source.instruction raw) then []
    else Source.runs (Source.labelEnd raw) (Source.instruction raw) := by
  rw [← Source.labelEnd_code]
  exact Source.words_eq _ _

/-- Every word of a line stands in its instruction. -/
theorem Line.standsIn_of_mem_words {raw : Bytes} {w : Word} (h : w ∈ (Line.ofBytes raw).words) :
    w.StandsIn (Source.labelEnd raw) (Source.instruction raw) ∧ w.text ≠ [] := by
  rw [← Source.labelEnd_code]
  exact Source.standsIn_of_mem_runs (Source.mem_runs_of_mem_words h)

/-- The label of a line and its words come one behind the other. -/
theorem Line.pairwise_stretches (raw : Bytes) :
    ((Line.ofBytes raw).label.toList ++ (Line.ofBytes raw).words).Pairwise (·.stop ≤ ·.start) := by
  have hwords : (Line.ofBytes raw).words.Pairwise (·.stop ≤ ·.start) := by
    rw [Line.words_ofBytes]
    split
    · exact .nil
    · exact Source.pairwise_runs _ _
  cases hlabel : (Line.ofBytes raw).label with
  | none => exact hwords
  | some name =>
    refine List.pairwise_cons.2 ⟨fun w hw => ?_, hwords⟩
    have hend : Source.labelEnd raw = name.stop + 1 := by
      rw [← Source.labelEnd_code, Source.labelEnd, show Source.label? (Source.code raw) = some name from hlabel]
    have hstart := (Line.standsIn_of_mem_words hw).1.start_le
    omega

/-- What stands in the instruction of a line stands in its code. -/
theorem Word.StandsIn.of_instruction {raw : Bytes} {w : Word}
    (h : w.StandsIn (Source.labelEnd raw) (Source.instruction raw)) : w.StandsIn 0 (Source.code raw) := by
  rw [← Source.take_append_instruction]
  refine append_left _ ?_
  rwa [Nat.zero_add, Source.length_take_labelEnd]

end AsmLens
