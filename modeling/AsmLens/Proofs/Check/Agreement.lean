import AsmLens.Check.Hover
import AsmLens.Proofs.Source.Labels
import Mathlib.Data.List.Forall2

/-!
# Comments do not matter

All that a reader gets to see of a checked document are its diagnostics with their places, its labels, and what stands
under each position. Two documents that show the same in all three `Agree`.

Labels are collected from whole lines, before anything is checked; each line is then taken apart without its comment.
The two passes see the same label definitions, because one ends before any comment (`Source.label?_code`). Hence a
document may as well be checked with its comments cut off (`ofLines_map_code`), and documents that differ in comments
only agree.

* `passes_agree`: a name means the first line whose code defines it, and what stands behind the first `!` of a line is
  never seen.
-/

namespace AsmLens

theorem Line.ofBytes_code (raw : Bytes) : Line.ofBytes (Source.code raw) = Line.ofBytes raw := by
  rw [Line.ofBytes, Source.code_code, Source.instruction_code]
  rfl

namespace Analysis

/-- Nothing that is shown tells two analyses apart. -/
structure Agree (x y : Analysis) : Prop where
  diagnostics : x.diagnostics = y.diagnostics
  labels : x.labels = y.labels
  hover : ∀ p, x.hover? p = y.hover? p

theorem Agree.refl (x : Analysis) : Agree x x := ⟨rfl, rfl, fun _ => rfl⟩

/-- Comments may be cut off before a document is checked. -/
theorem ofLines_map_code (isa : Isa) (raw : List Bytes) : ofLines isa (raw.map Source.code) = ofLines isa raw := by
  have hlines : (raw.map Source.code).map Line.ofBytes = raw.map Line.ofBytes := by
    rw [List.map_map]
    exact List.map_congr_left fun line _ => Line.ofBytes_code line
  have hlabels : Labels.ofLines (raw.map Source.code) = Labels.ofLines raw := by
    apply Labels.ofLines_congr
    rw [List.map_map]
    exact List.map_congr_left fun line _ => Source.labelName?_code line
  rw [ofLines, hlines, hlabels]
  rfl

end Analysis

/-- The line that a name means is the least one whose code defines it, and two documents whose lines are the same up to
their first `!` show the same. -/
theorem passes_agree :
    (∀ (lines : List Bytes) (name : Bytes) (i : Nat), (Labels.ofLines lines).line? name = some i ↔
      IsLeast {j | ∃ raw, lines[j]? = some raw ∧ (Line.ofBytes raw).label.map Word.text = some name} i) ∧
    ∀ (isa : Isa) (a b : List Bytes), List.Forall₂ (fun x y => Bytes.before 33 x = Bytes.before 33 y) a b →
      Analysis.Agree (Analysis.ofLines isa a) (Analysis.ofLines isa b) := by
  refine ⟨fun lines name i => Labels.line?_ofLines_eq_some_iff, fun isa a b h => ?_⟩
  have hcode : a.map Source.code = b.map Source.code := by
    rw [← List.forall₂_eq_eq_eq, List.forall₂_map_left_iff, List.forall₂_map_right_iff]
    exact h
  rw [← Analysis.ofLines_map_code isa a, hcode, Analysis.ofLines_map_code]
  exact Analysis.Agree.refl _

/-- A branch to a name that only comments define. -/
def commented : List Bytes := [utf8 "a: beq $t0, $t1, b ! b: halt", utf8 "! b:"]

/-- The same code under other comments. -/
def recommented : List Bytes := [utf8 "a: beq $t0, $t1, b !", utf8 "! a: lw"]

theorem passes_agree_commented :
    List.Forall₂ (fun x y => Bytes.before 33 x = Bytes.before 33 y) commented recommented ∧
      (Labels.ofLines commented).line? (utf8 "a") = some 0 ∧
      Analysis.Agree (Analysis.ofLines Isa.default commented) (Analysis.ofLines Isa.default recommented) := by
  have h : List.Forall₂ (fun x y => Bytes.before 33 x = Bytes.before 33 y) commented recommented :=
    .cons (by decide) (.cons (by decide) .nil)
  have hleast : IsLeast {j | ∃ raw, commented[j]? = some raw ∧
      (Line.ofBytes raw).label.map Word.text = some (utf8 "a")} 0 :=
    ⟨⟨_, rfl, by decide⟩, fun j _ => Nat.zero_le j⟩
  exact ⟨h, (passes_agree.1 commented (utf8 "a") 0).2 hleast, passes_agree.2 Isa.default commented recommented h⟩

end AsmLens
