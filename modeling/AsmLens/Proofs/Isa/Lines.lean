import AsmLens.Isa.Description
import AsmLens.Proofs.Text.Trim

/-!
# Tables line by line

A table is read off the declarations of its lines, in order (`declarations`). Those of texts one under the other follow
each other (`declarations_append_lineFeed`, `declarations_join`), so that a later text overrides an earlier one
(`find?_parse_append`), and a line counts for what it declares by itself.

* What a line declares is decided before its first colon (`declaration?_append_colon`): trimming and the cut at the
  colon leave the same text, whatever follows.
* A line declares nothing just if it is blank, a comment, or has nothing before its first colon
  (`declaration?_eq_none_iff`).

* `parse_lineByLine`: texts override each other, and neither what follows a colon nor lines that declare nothing matter.
-/

namespace AsmLens.Description

/-! ## Declarations of a text -/

/-- The declarations of a text, in order of line. -/
def declarations (text : Bytes) : List (Bytes × List Kind) := (text.splitOn 10).filterMap declaration?

theorem parse_eq (text : Bytes) : parse text = Dictionary.ofList (declarations text) := rfl

theorem declarations_append_lineFeed (a b : Bytes) :
    declarations (a ++ 10 :: b) = declarations a ++ declarations b := by
  have hsplit : (a ++ 10 :: b).splitOn 10 = a.splitOn 10 ++ b.splitOn 10 :=
    List.splitOnP_append_cons a b (beq_self_eq_true 10)
  rw [declarations, hsplit, List.filterMap_append]
  rfl

theorem declarations_join (texts : List Bytes) : declarations (Bytes.join [10] texts) = texts.flatMap declarations := by
  induction texts with
  | nil => rfl
  | cons a texts ih =>
    cases texts with
    | nil => simp [Bytes.join]
    | cons c texts =>
      rw [Bytes.join_cons_cons, List.append_assoc, List.singleton_append, declarations_append_lineFeed, ih]
      rfl

theorem declarations_line {line : Bytes} (h : 10 ∉ line) : declarations line = (declaration? line).toList := by
  have hline : ∀ b ∈ line, (b == 10) = false := fun b hb => beq_eq_false_iff_ne.2 fun hb' => h (hb' ▸ hb)
  have hsplit : line.splitOn 10 = [line] := List.splitOnP_eq_singleton hline
  rw [declarations, hsplit]
  cases hd : declaration? line <;> simp [hd]

/-- Of two texts one under the other the later overrides the earlier. -/
theorem find?_parse_append (a b m : Bytes) :
    (parse (a ++ 10 :: b)).find? m = ((parse b).find? m).or ((parse a).find? m) := by
  simp only [parse_eq, Dictionary.find?_ofList, declarations_append_lineFeed, List.reverse_append, List.lookup_append]

/-- Lines that declare the same may stand for each other. -/
theorem parse_join_congr {front back texts texts' : List Bytes}
    (h : texts.flatMap declarations = texts'.flatMap declarations) :
    parse (Bytes.join [10] (front ++ texts ++ back)) = parse (Bytes.join [10] (front ++ texts' ++ back)) := by
  simp only [parse_eq, declarations_join, List.flatMap_append, h]

/-! ## Declarations of a line -/

/-- What a line without comment declares by the part of it that stands before its colon. -/
def declared? (part : Bytes) : Option (Bytes × List Kind) :=
  match Blank.fields part with
  | [] => none
  | mnemonic :: _ => some (mnemonic, Marker.kinds ((Blank.trim part).drop mnemonic.length))

theorem declaration?_eq (line : Bytes) :
    declaration? line =
      if (Blank.trim line).head? = some 35 then none else declared? (Bytes.before 58 (Blank.trim line)) := by
  simp only [declaration?, beq_iff_eq]
  rfl

/-- What follows the first colon of a line is not looked at. -/
theorem declaration?_append_colon {part : Bytes} (h : 58 ∉ part) (rest rest' : Bytes) :
    declaration? (part ++ 58 :: rest) = declaration? (part ++ 58 :: rest') := by
  have hstart : 58 ∉ Blank.trimStart part := fun hmem => h ((Blank.trimStart_suffix part).subset hmem)
  have hone (rest : Bytes) : declaration? (part ++ 58 :: rest) =
      if (Blank.trimStart part ++ [58]).head? = some 35 then none else declared? (Blank.trimStart part) := by
    obtain ⟨t, ht⟩ := Blank.exists_trim_append part (b := 58) (by decide) rest
    rw [declaration?_eq, ht, Bytes.before_append hstart, List.head?_append, List.head?_append]
    rfl
  rw [hone, hone]

/-- The lines that declare nothing. -/
inductive DeclaresNothing : Bytes → Prop
  | blank {line : Bytes} (h : Blank.isBlankText line = true) : DeclaresNothing line
  | comment {indent : Bytes} (h : Blank.isBlankText indent = true) (rest : Bytes) :
    DeclaresNothing (indent ++ 35 :: rest)
  | nameless {indent : Bytes} (h : Blank.isBlankText indent = true) (rest : Bytes) :
    DeclaresNothing (indent ++ 58 :: rest)

theorem declared?_eq_none_iff {part : Bytes} : declared? part = none ↔ Blank.isBlankText part = true := by
  rw [← Blank.fields_eq_nil_iff, declared?]
  cases Blank.fields part <;> simp

theorem declaration?_eq_none_iff {line : Bytes} : declaration? line = none ↔ DeclaresNothing line := by
  constructor
  · intro h
    cases hblank : Blank.isBlankText line with
    | true => exact .blank hblank
    | false =>
      obtain ⟨blanks, b, y, t, hmarks, hblanks, hwidth, htrim, hprefix⟩ := Blank.exists_trim_eq_cons hblank
      rw [declaration?_eq, htrim, List.head?_cons] at h
      by_cases hhash : b = 35
      · subst hhash
        obtain ⟨indent, rfl, hindent⟩ := Blank.exists_indent hmarks hblanks
        exact .comment hindent y
      by_cases hcolon : b = 58
      · subst hcolon
        obtain ⟨indent, rfl, hindent⟩ := Blank.exists_indent hmarks hblanks
        exact .nameless hindent y
      -- Any other octet outside blanks begins a mnemonic.
      rw [if_neg (by simpa using hhash), declared?_eq_none_iff] at h
      have hbefore : Bytes.before 58 (b :: t) = b :: Bytes.before 58 t :=
        List.takeWhile_cons_of_pos (by simpa using hcolon)
      have hwidth' : Blank.width (b :: Bytes.before 58 t) ≠ 0 := by
        intro hw
        rw [hbefore, Blank.isBlankText, Blank.marks_cons, if_pos hw] at h
        cases h
      obtain ⟨rest, hrest⟩ := (List.takeWhile_prefix (· != 58)).trans hprefix
      have hlonger := Blank.width_append_of_ne_zero hwidth' rest
      rw [List.cons_append, show Bytes.before 58 t ++ rest = y from hrest, hwidth] at hlonger
      exact absurd hlonger.symm hwidth'
  · intro h
    cases h with
    | blank h =>
      rw [declaration?_eq, Blank.trim_of_isBlankText h]
      rfl
    | comment h rest =>
      obtain ⟨t, ht⟩ := Blank.exists_trim_append _ (b := 35) (by decide) rest
      rw [declaration?_eq, ht, Blank.trimStart_of_isBlankText h]
      rfl
    | nameless h rest =>
      obtain ⟨t, ht⟩ := Blank.exists_trim_append _ (b := 58) (by decide) rest
      rw [declaration?_eq, ht, Blank.trimStart_of_isBlankText h]
      rfl

/-! ## Lines in a text -/

/-- Tables are read line by line: of two texts one under the other the later overrides the earlier, what follows the
first colon of a line does not matter, and a line that declares nothing may stand anywhere between the others. -/
theorem parse_lineByLine :
    (∀ a b m : Bytes, (parse (a ++ 10 :: b)).find? m = ((parse b).find? m).or ((parse a).find? m)) ∧
      (∀ (front back : List Bytes) (part rest rest' : Bytes), 58 ∉ part → 10 ∉ part → 10 ∉ rest → 10 ∉ rest' →
        parse (Bytes.join [10] (front ++ [part ++ 58 :: rest] ++ back)) =
          parse (Bytes.join [10] (front ++ [part ++ 58 :: rest'] ++ back))) ∧
      ∀ (front back : List Bytes) (line : Bytes), DeclaresNothing line → 10 ∉ line →
        parse (Bytes.join [10] (front ++ [line] ++ back)) = parse (Bytes.join [10] (front ++ back)) := by
  refine ⟨find?_parse_append, ?_, ?_⟩
  · intro front back part rest rest' hcolon hpart hrest hrest'
    have hline {rest : Bytes} (hr : 10 ∉ rest) : 10 ∉ part ++ 58 :: rest := by simp [hpart, hr]
    apply parse_join_congr
    rw [List.flatMap_singleton, List.flatMap_singleton, declarations_line (hline hrest),
      declarations_line (hline hrest'), declaration?_append_colon hcolon rest rest']
  · intro front back line hnothing hfeed
    have hnone : [line].flatMap declarations = [].flatMap declarations := by
      rw [List.flatMap_singleton, declarations_line hfeed, declaration?_eq_none_iff.2 hnothing]
      rfl
    rw [parse_join_congr hnone, List.append_nil]

/-- A line with a carriage return at its end between two others, its opcode replaced, and a comment behind a no-break
space. -/
theorem parse_lineByLine_recoded :
    (parse (Bytes.join [10] [utf8 "add $D :", utf8 "lw $D, #I : 0011\r", utf8 "sw %O"])).entries =
        [(utf8 "add", [.register]), (utf8 "lw", [.register, .number]), (utf8 "sw", [.label])] ∧
      parse (Bytes.join [10] [utf8 "add $D :", utf8 "lw $D, #I : 0011\r", utf8 "sw %O"]) =
        parse (Bytes.join [10] [utf8 "add $D :", utf8 "lw $D, #I ::#I", utf8 "sw %O"]) ∧
      (parse (Bytes.join [10] [utf8 "add $D :", 0xC2 :: 0xA0 :: utf8 "#x:y", utf8 "add %O"])).entries =
        [(utf8 "add", [.label])] ∧
      parse (Bytes.join [10] [utf8 "add $D :", 0xC2 :: 0xA0 :: utf8 "#x:y", utf8 "add %O"]) =
        parse (Bytes.join [10] [utf8 "add $D :", utf8 "add %O"]) := by
  obtain ⟨-, hcolon, hnothing⟩ := parse_lineByLine
  have hcomment : DeclaresNothing (0xC2 :: 0xA0 :: utf8 "#x:y") :=
    @DeclaresNothing.comment [0xC2, 0xA0] (by decide) (utf8 "x:y")
  refine ⟨by decide +kernel, ?_, by decide +kernel, hnothing [utf8 "add $D :"] [utf8 "add %O"] _ hcomment (by decide)⟩
  exact hcolon [utf8 "add $D :"] [utf8 "sw %O"] (utf8 "lw $D, #I ") (utf8 " 0011\r") (utf8 ":#I") (by decide)
    (by decide) (by decide) (by decide)

end AsmLens.Description
