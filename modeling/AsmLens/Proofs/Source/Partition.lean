import AsmLens.Proofs.Source.Place

/-!
# A line as words and separators

The instruction of a line falls into words and separators, and nothing of it is left over. `Word.IsRunIn` says without
any scanning that a word is one of the maximal runs of a text: no separator is in it, and on each side of it stands a
separator or nothing at all. Just these are found (`mem_runs_iff`), and an octet lies in one of them unless it is a
separator (`exists_run_of_getElem?`).

* `isPartition_ofBytes`: every text can be divided by the rules of lines, and every line falls into words and
  separators, unless its instruction is nothing but blanks; then it has no words.
-/

namespace AsmLens

open Lexer (lex?)
open Source

/-! ## Maximal runs -/

namespace Word

/-- A maximal run without separators of a text that begins at column `start`. -/
def IsRunIn (start : Nat) (s : Bytes) (w : Word) : Prop :=
  ∃ before after, s = before ++ w.text ++ after ∧ w.start = start + before.length ∧ w.text ≠ [] ∧
    (∀ b ∈ w.text, isSeparator b = false) ∧ (∀ b ∈ before.getLast?, isSeparator b = true) ∧
    ∀ b ∈ after.head?, isSeparator b = true

namespace IsRunIn

variable {start : Nat} {s : Bytes} {w : Word}

/-- A text without separators is a run. -/
theorem self (hne : w.text ≠ []) (hw : ∀ b ∈ w.text, isSeparator b = false) : w.IsRunIn w.start w.text :=
  ⟨[], [], by simp, rfl, hne, hw, by simp, by simp⟩

theorem append_left (x : Bytes) {b : UInt8} (hb : isSeparator b = true) (h : w.IsRunIn (start + x.length + 1) s) :
    w.IsRunIn start (x ++ b :: s) := by
  obtain ⟨before, after, rfl, hstart, hne, hw, hbefore, hafter⟩ := h
  refine ⟨x ++ b :: before, after, by simp, ?_, hne, hw, fun c hc => ?_, hafter⟩
  · rw [hstart, List.length_append, List.length_cons]
    omega
  · rw [List.getLast?_append, List.getLast?_cons] at hc
    cases hlast : before.getLast? with
    | none =>
      obtain rfl : b = c := by simpa [hlast] using hc
      exact hb
    | some d =>
      obtain rfl : d = c := by simpa [hlast] using hc
      exact hbefore d hlast

theorem append_right {b : UInt8} (hb : isSeparator b = true) (h : w.IsRunIn start s) (y : Bytes) :
    w.IsRunIn start (s ++ b :: y) := by
  obtain ⟨before, after, rfl, hstart, hne, hw, hbefore, hafter⟩ := h
  refine ⟨before, after ++ b :: y, by simp, hstart, hne, hw, hbefore, fun c hc => ?_⟩
  cases after with
  | nil =>
    obtain rfl : b = c := by simpa using hc
    exact hb
  | cons d after => exact hafter c hc

end IsRunIn

end Word

namespace Source

theorem isRunIn_of_mem_runs {s : Bytes} : ∀ {start : Nat} {w : Word}, w ∈ runs start s → w.IsRunIn start s := by
  have hwhole {v : Bytes} (hv : ∀ b ∈ v, isSeparator b = false) {start : Nat} {w : Word} (h : w ∈ runs start v) :
      w.IsRunIn start v := by
    by_cases hne : v = []
    · subst hne
      cases h
    · rw [runs_of_not_isSeparator hne hv] at h
      obtain rfl := List.mem_singleton.1 h
      exact Word.IsRunIn.self (w := ⟨v, start⟩) hne hv
  induction s using splitOnP_induction (p := isSeparator) with
  | whole v hv => exact hwhole hv
  | cut v b rest hv hb ih =>
    intro start w h
    rw [runs_append_separator hb] at h
    rcases List.mem_append.1 h with h | h
    · exact (hwhole hv h).append_right hb rest
    · exact (ih h).append_left v hb

/-- What stands behind a run begins with a separator, so the run is found in front of it. -/
theorem mem_runs_append {start : Nat} {w : Word} (hstart : w.start = start) (hne : w.text ≠ [])
    (hw : ∀ b ∈ w.text, isSeparator b = false) {after : Bytes} (hafter : ∀ b ∈ after.head?, isSeparator b = true) :
    w ∈ runs start (w.text ++ after) := by
  rw [runs_word_append hne hw hafter, ← hstart]
  exact List.mem_cons_self

/-- The runs of a text are found, and nothing else. -/
theorem mem_runs_iff {start : Nat} {s : Bytes} {w : Word} : w ∈ runs start s ↔ w.IsRunIn start s := by
  constructor
  · exact isRunIn_of_mem_runs
  · rintro ⟨before, after, rfl, hstart, hne, hw, hbefore, hafter⟩
    rw [List.append_assoc]
    rcases List.eq_nil_or_concat before with rfl | ⟨x, b, rfl⟩
    · exact mem_runs_append (by simpa using hstart) hne hw hafter
    · have hb : isSeparator b = true := hbefore b (by simp)
      rw [List.concat_eq_append, List.append_assoc, List.singleton_append, runs_append_separator hb]
      refine List.mem_append_right _ (mem_runs_append ?_ hne hw hafter)
      simpa [Nat.add_assoc] using hstart

/-- What is no separator lies in a run. -/
theorem exists_run_of_getElem? {s : Bytes} : ∀ (start : Nat) {i : Nat} {b : UInt8}, s[i]? = some b →
    isSeparator b = false → ∃ w ∈ runs start s, w.start ≤ start + i ∧ start + i < w.stop := by
  induction s using runs_induction (p := isSeparator) with
  | nil => intro start i b hi _; cases hi
  | marked x y _ hx _ ih =>
    intro start i b hi hb
    rw [runs_separators_append hx]
    rcases Nat.lt_or_ge i x.length with hlt | hge
    · rw [List.getElem?_append_left hlt] at hi
      rw [hx b (List.mem_of_getElem? hi)] at hb
      cases hb
    · rw [List.getElem?_append_right hge] at hi
      obtain ⟨w, hw, hle, hlt⟩ := ih (start + x.length) hi hb
      exact ⟨w, hw, by omega, by omega⟩
  | other v y hne hv hy ih =>
    intro start i b hi hb
    rw [runs_word_append hne hv hy]
    rcases Nat.lt_or_ge i v.length with hlt | hge
    · exact ⟨⟨v, start⟩, List.mem_cons_self, Nat.le_add_right _ _, Nat.add_lt_add_left hlt start⟩
    · rw [List.getElem?_append_right hge] at hi
      obtain ⟨w, hw, hle, hlt⟩ := ih (start + v.length) hi hb
      exact ⟨w, List.mem_cons_of_mem _ hw, by omega, by omega⟩

end Source

/-! ## Lines -/

/-- The words into which the instruction of a line falls. Its columns are those behind the label definition and before
the comment. -/
structure IsPartition (raw : Bytes) (words : List Word) : Prop where
  mem_iff : ∀ w, w ∈ words ↔ w.IsRunIn (labelEnd raw) (instruction raw)
  separated : words.Pairwise (·.stop < ·.start)
  /-- A word is what stands between its columns in the line as written. -/
  extract_eq : ∀ w ∈ words, w.stop ≤ raw.length ∧ raw.extract w.start w.stop = w.text
  /-- What lies in no word is a separator, and no separator lies in a word. -/
  covered_iff : ∀ j b, labelEnd raw ≤ j → j < (code raw).length → raw[j]? = some b →
    ((∃ w ∈ words, w.start ≤ j ∧ j < w.stop) ↔ isSeparator b = false)

theorem isPartition_runs (raw : Bytes) : IsPartition raw (runs (labelEnd raw) (instruction raw)) := by
  have hstands {w : Word} (h : w ∈ runs (labelEnd raw) (instruction raw)) : w.StandsIn 0 raw := by
    have hcode := (standsIn_of_mem_runs h).1.of_instruction.append_right (comment raw)
    rwa [code_append_comment] at hcode
  refine ⟨fun w => mem_runs_iff, separated_runs _ _, fun w hw => ?_, fun j b hj hj' hb => ⟨?_, fun hsep => ?_⟩⟩
  · exact ⟨by simpa using (hstands hw).stop_le, (hstands hw).extract_eq⟩
  · rintro ⟨w, hw, hle, hlt⟩
    obtain ⟨c, hc, hget⟩ := (hstands hw).exists_getElem? hle hlt
    obtain rfl : c = b := Option.some.inj (hget.symm.trans hb)
    exact not_isSeparator_of_mem_runs hw c hc
  · have hget : (instruction raw)[j - labelEnd raw]? = some b := by
      rw [← code_append_comment raw, List.getElem?_append_left hj', ← take_append_instruction raw,
        List.getElem?_append_right (by rwa [length_take_labelEnd]), length_take_labelEnd] at hb
      exact hb
    obtain ⟨w, hw, hle, hlt⟩ := exists_run_of_getElem? (labelEnd raw) hget hsep
    exact ⟨w, hw, by omega, by omega⟩

/-- The separators are tab, line feed, form feed, carriage return, space and comma. The rules of lines divide every text
into lexemes that spell it out. A line falls into words and separators, and if there is nothing but blanks between its
label definition and its comment it has no words. -/
theorem isPartition_ofBytes :
    (∀ b, isSeparator b = true ↔ b ∈ [9, 10, 12, 13, 32, 44]) ∧
      (∀ s, ∃ lexemes, lex? rules s = some lexemes ∧ (lexemes.map (·.text)).flatten = s) ∧
      ∀ raw, if Blank.isBlankText (instruction raw) then (Line.ofBytes raw).words = []
        else IsPartition raw (Line.ofBytes raw).words := by
  refine ⟨fun b => ?_, fun s => ?_, fun raw => ?_⟩
  · simp [isSeparator, isSpace, or_assoc]
  · obtain ⟨lexemes, hlex, -⟩ := exists_lexemes s
    exact ⟨lexemes, hlex, Lexer.flatten_of_lex? hlex⟩
  · rw [Line.words_ofBytes]
    split
    · rfl
    · exact isPartition_runs raw

/-- A vertical tab is a blank but no separator. -/
example : (Line.ofBytes (utf8 "a:\x0b,b !c")).words = [⟨[11], 2⟩, ⟨utf8 "b", 4⟩] ∧
    (Line.ofBytes (utf8 "a:\x0b !c")).words = [] := by decide +kernel

end AsmLens
