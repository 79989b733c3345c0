import AsmLens.Proofs.Text.Lexer
import AsmLens.Source.Line

/-!
# Words are runs

A text is divided into words and what separates them by two rules. `runs` says without rules what the words are: the
maximal runs of octets that are no separators. Those of a text are the ones before and the ones behind any separator
(`runs_append_separator`), and what has no separator in it is one run (`runs_of_not_isSeparator`).

* Each rule takes off just the run that a text begins with (`firstMatch?_separators`, `firstMatch?_word`).
* `exists_lexemes`: every text can be divided, and the words among its lexemes are its runs.
* `words_eq`: so its words are its runs, unless there is nothing but blanks.
-/

namespace AsmLens.Source

open Lexer (firstMatch? lex?)

/-! ## Runs -/

/-- The maximal runs without a separator in a text that starts at column `start`. -/
def runs (start : Nat) : Bytes → List Word
  | [] => []
  | b :: rest =>
    let later := runs (start + 1) rest
    if isSeparator b then later
    else
      match later with
      | w :: ws => if w.start = start + 1 then ⟨b :: w.text, start⟩ :: ws else ⟨[b], start⟩ :: w :: ws
      | [] => [⟨[b], start⟩]

theorem start_le_of_mem_runs {s : Bytes} : ∀ {start : Nat} {w : Word}, w ∈ runs start s → start ≤ w.start := by
  induction s with
  | nil => intro start w h; simp [runs] at h
  | cons b s ih =>
    intro start w h
    simp only [runs] at h
    split at h
    · exact Nat.le_of_succ_le (ih h)
    · split at h
      · next v vs hv =>
        have hlater : ∀ u ∈ v :: vs, start ≤ u.start := fun u hu => Nat.le_of_succ_le (ih (hv ▸ hu))
        split at h
        · rcases List.mem_cons.1 h with rfl | h
          · exact Nat.le_refl _
          · exact hlater w (List.mem_cons_of_mem _ h)
        · rcases List.mem_cons.1 h with rfl | h
          · exact Nat.le_refl _
          · exact hlater w h
      · rw [List.mem_singleton] at h
        subst h
        exact Nat.le_refl _

/-- The words around a separator. -/
theorem runs_append_separator {b : UInt8} (hb : isSeparator b = true) (x y : Bytes) :
    ∀ start, runs start (x ++ b :: y) = runs start x ++ runs (start + x.length + 1) y := by
  induction x with
  | nil => intro start; simp [runs, hb]
  | cons a x ih =>
    intro start
    have hlen : start + 1 + x.length + 1 = start + (a :: x).length + 1 := by simp; omega
    simp only [List.cons_append, runs, ih, hlen]
    by_cases ha : isSeparator a = true
    · simp [ha]
    · simp only [ha, Bool.false_eq_true, if_false]
      cases hx : runs (start + 1) x with
      | cons w ws => simp only [List.cons_append]; split <;> rfl
      | nil =>
        -- No word of the later part can begin right behind `a`.
        cases hy : runs (start + (a :: x).length + 1) y with
        | nil => rfl
        | cons v vs =>
          have hv : start + (a :: x).length + 1 ≤ v.start := start_le_of_mem_runs (hy ▸ List.mem_cons_self)
          have hne : v.start ≠ start + 1 := by simp at hv; omega
          simp [hne]

/-- A text without separators is one word. -/
theorem runs_of_not_isSeparator {w : Bytes} (hne : w ≠ []) (hw : ∀ b ∈ w, isSeparator b = false) :
    ∀ start, runs start w = [⟨w, start⟩] := by
  induction w with
  | nil => exact absurd rfl hne
  | cons b w ih =>
    intro start
    have hb : isSeparator b = false := hw b List.mem_cons_self
    by_cases hnil : w = []
    · subst hnil
      simp [runs, hb]
    · have hlater := ih hnil (fun c hc => hw c (List.mem_cons_of_mem _ hc)) (start + 1)
      simp [runs, hb, hlater]

theorem runs_cons_separator {b : UInt8} (hb : isSeparator b = true) (s : Bytes) (start : Nat) :
    runs start (b :: s) = runs (start + 1) s := runs_append_separator hb [] s start

/-- Separators in front of a text only move its runs. -/
theorem runs_separators_append {x : Bytes} (hx : ∀ b ∈ x, isSeparator b = true) (y : Bytes) :
    ∀ start, runs start (x ++ y) = runs (start + x.length) y := by
  induction x with
  | nil => intro start; rfl
  | cons b x ih =>
    intro start
    rw [List.cons_append, runs_cons_separator (hx b List.mem_cons_self),
      ih fun c hc => hx c (List.mem_cons_of_mem _ hc), List.length_cons]
    congr 1
    omega

/-- A run that a text begins with. -/
theorem runs_word_append {w y : Bytes} (hne : w ≠ []) (hw : ∀ b ∈ w, isSeparator b = false)
    (hy : ∀ b ∈ y.head?, isSeparator b = true) (start : Nat) :
    runs start (w ++ y) = ⟨w, start⟩ :: runs (start + w.length) y := by
  cases y with
  | nil => rw [List.append_nil, runs_of_not_isSeparator hne hw]; rfl
  | cons b y =>
    have hb : isSeparator b = true := hy b rfl
    rw [runs_append_separator hb, runs_of_not_isSeparator hne hw, runs_cons_separator hb]
    rfl

/-! ## The rules of lines -/

theorem lt_of_isSeparator {b : UInt8} (h : isSeparator b = true) : b < 0x80 := by
  simp only [isSeparator, isSpace] at h
  grind

theorem firstMatch?_cons (b : UInt8) (rest : Bytes) :
    firstMatch? rules (b :: rest) =
      if isSeparator b then some (.separator, rest.dropWhile isSeparator)
      else some (.word, rest.dropWhile (!isSeparator ·)) := by
  have hseparator := Utf8.isTold_asciiClass fun b => lt_of_isSeparator
  have hword := Utf8.isTold_not_asciiClass fun b => lt_of_isSeparator
  simp only [firstMatch?, rules, List.findSome?_cons, Lexer.afterRun?_cons hseparator, Lexer.afterRun?_cons hword]
  cases isSeparator b <;> rfl

theorem firstMatch?_separators {x y : Bytes} (hne : x ≠ []) (hx : ∀ b ∈ x, isSeparator b = true)
    (hy : ∀ b ∈ y.head?, isSeparator b = false) : firstMatch? rules (x ++ y) = some (.separator, y) := by
  obtain ⟨b, x, rfl⟩ := List.exists_cons_of_ne_nil hne
  rw [List.cons_append, firstMatch?_cons, if_pos (hx b List.mem_cons_self),
    dropWhile_append_stop (fun c hc => hx c (List.mem_cons_of_mem _ hc)) hy]

theorem firstMatch?_word {w y : Bytes} (hne : w ≠ []) (hw : ∀ b ∈ w, isSeparator b = false)
    (hy : ∀ b ∈ y.head?, isSeparator b = true) : firstMatch? rules (w ++ y) = some (.word, y) := by
  obtain ⟨b, w, rfl⟩ := List.exists_cons_of_ne_nil hne
  rw [List.cons_append, firstMatch?_cons, if_neg (by simp [hw b List.mem_cons_self]),
    dropWhile_append_stop (fun c hc => by simp [hw c (List.mem_cons_of_mem _ hc)]) fun c hc => by simp [hy c hc]]

/-- Every text can be divided, and the words among its lexemes are its runs. -/
theorem exists_lexemes (s : Bytes) :
    ∃ lexemes, lex? rules s = some lexemes ∧ ∀ start, wordsAmong start lexemes = runs start s := by
  induction s using runs_induction (p := isSeparator) with
  | nil => exact ⟨[], rfl, fun _ => rfl⟩
  | marked x y hne hx hy ih =>
    obtain ⟨later, hlater, hwords⟩ := ih
    refine ⟨⟨.separator, x⟩ :: later, ?_, fun start => ?_⟩
    · rw [Lexer.lex?_append hne (firstMatch?_separators hne hx hy), hlater]
      rfl
    · rw [runs_separators_append hx, ← hwords]
      rfl
  | other w y hne hw hy ih =>
    obtain ⟨later, hlater, hwords⟩ := ih
    refine ⟨⟨.word, w⟩ :: later, ?_, fun start => ?_⟩
    · rw [Lexer.lex?_append hne (firstMatch?_word hne hw hy), hlater]
      rfl
    · rw [runs_word_append hne hw hy, ← hwords]
      rfl

/-- The words of a text are its runs, unless there is nothing but blanks. -/
theorem words_eq (start : Nat) (s : Bytes) :
    words start s = if Blank.isBlankText s then [] else runs start s := by
  obtain ⟨lexemes, hlex, hwords⟩ := exists_lexemes s
  rw [words, hlex]
  simp only [hwords]

end AsmLens.Source
