import AsmLens.Proofs.Check.Place
import AsmLens.Proofs.Source.Labels

/-!
# Documents one behind the other

The labels of a document matter to its diagnostics in one way only: a finding that misses a label goes away when the
name is defined. So a line that is checked with more labels keeps all its diagnostics but those that the new labels
settle (`lineDiagnostics_of_more`). The number of a line only says where its diagnostics stand (`lineDiagnostics_add`).
Both carry over to any number of lines (`diagnosticsFrom_of_more`, `diagnosticsFrom_add`).

A finding that misses a label names it, and its diagnostic points at that name, so what is settled can be told from the
text that a diagnostic points at (`isSettledBy_eq_isSettled`).

* `ofLines_append`: labels and diagnostics of two documents one behind the other, from those of each.
-/

namespace AsmLens

namespace Finding

/-- A label is missing, be it an error or a warning. -/
def missesLabel : Finding → Bool
  | expectedLabel .. => true
  | undefinedLabel _ => true
  | _ => false

/-- The label that is missing is one of those given. -/
def isSettledBy (labels : Labels) : Finding → Bool
  | expectedLabel _ name => labels.isDefined name
  | undefinedLabel name => labels.isDefined name
  | _ => false

end Finding

namespace Diagnostic

/-- The stretch of the document that a diagnostic points at. -/
def spanText (raw : List Bytes) (d : Diagnostic) : Bytes := (raw[d.line]?.getD []).extract d.start d.stop

/-- A label is missing, and the text pointed at is one of those given. -/
def isSettled (raw : List Bytes) (labels : Labels) (d : Diagnostic) : Bool :=
  d.finding.missesLabel && labels.isDefined (d.spanText raw)

/-- The same diagnostic some lines further down. -/
def moved (k : Nat) (d : Diagnostic) : Diagnostic := { d with line := d.line + k }

end Diagnostic

namespace Check

open Diagnostic (moved)

/-! ## More labels -/

section MoreLabels

variable {labels more both : Labels}
  (h : ∀ name, both.isDefined name = (labels.isDefined name || more.isDefined name))

include h

theorem operandFinding?_of_more (kind : Kind) (position : Nat) (operand : Bytes) :
    operandFinding? both kind position operand =
      (operandFinding? labels kind position operand).filter (!·.isSettledBy more) := by
  cases kind with
  | register => simp only [operandFinding?]; split <;> rfl
  | number => simp only [operandFinding?]; split <;> rfl
  | based => simp only [operandFinding?]; split <;> rfl
  | label =>
    simp only [operandFinding?, h]
    cases labels.isDefined operand with
    | true => simp
    | false => cases hm : more.isDefined operand <;> simp [Option.filter, Finding.isSettledBy, hm]

theorem operandDiagnostics_of_more (number : Nat) (kinds : List Kind) (operands : List Word) :
    operandDiagnostics both number kinds operands =
      (operandDiagnostics labels number kinds operands).filter (!·.finding.isSettledBy more) := by
  rw [operandDiagnostics, operandDiagnostics, List.filter_filterMap]
  congr 1
  funext p
  simp only [operandFinding?_of_more h, Option.filter_map]
  rfl

theorem declaredDiagnostics_of_more (number : Nat) (mnemonic : Word) (kinds : List Kind) (operands : List Word) :
    declaredDiagnostics both number mnemonic kinds operands =
      (declaredDiagnostics labels number mnemonic kinds operands).filter (!·.finding.isSettledBy more) := by
  unfold declaredDiagnostics
  split
  · exact operandDiagnostics_of_more h number kinds operands
  · rfl

theorem targetDiagnostics_of_more (number : Nat) (mnemonic : Bytes) (operands : List Word) :
    targetDiagnostics both number mnemonic operands =
      (targetDiagnostics labels number mnemonic operands).filter (!·.finding.isSettledBy more) := by
  unfold targetDiagnostics
  cases operands.getLast? with
  | none => rfl
  | some target =>
    simp only [h, Bool.not_or, ← Bool.and_assoc]
    by_cases hc : (takesTarget mnemonic && target.text.head? != some 36 && !Numeral.isNumber target.text &&
        !labels.isDefined target.text) = true
    · rw [if_pos hc, hc, Bool.true_and]
      cases hm : more.isDefined target.text <;> simp [about, Finding.isSettledBy, hm]
    · rw [if_neg hc, if_neg fun hb => hc (Bool.and_eq_true_iff.1 hb).1]
      rfl

omit h in
/-- No label settles what is wrong with a register. -/
theorem filter_registerDiagnostics (number : Nat) (words : List Word) :
    (registerDiagnostics number words).filter (!·.finding.isSettledBy more) = registerDiagnostics number words := by
  rw [List.filter_eq_self]
  intro d hd
  obtain ⟨w, -, rfl⟩ := List.mem_map.1 hd
  rfl

theorem generalDiagnostics_of_more (number : Nat) (mnemonic : Word) (operands : List Word) :
    generalDiagnostics both number mnemonic operands =
      (generalDiagnostics labels number mnemonic operands).filter (!·.finding.isSettledBy more) := by
  rw [generalDiagnostics, generalDiagnostics, List.filter_append, filter_registerDiagnostics,
    ← targetDiagnostics_of_more h]

/-- More labels take away what they settle and leave the rest. -/
theorem lineDiagnostics_of_more (isa : Isa) (number : Nat) (line : Line) :
    lineDiagnostics isa both number line =
      (lineDiagnostics isa labels number line).filter (!·.finding.isSettledBy more) := by
  unfold lineDiagnostics
  split
  · rfl
  · split
    · rw [List.filter_append, ← declaredDiagnostics_of_more h, ← generalDiagnostics_of_more h]
    · unfold undeclaredDiagnostics
      split
      · exact generalDiagnostics_of_more h ..
      · rfl

end MoreLabels

/-! ## Lines further down -/

section Moved

variable (labels : Labels) (number k : Nat)

theorem operandDiagnostics_add (kinds : List Kind) (operands : List Word) :
    operandDiagnostics labels (number + k) kinds operands =
      (operandDiagnostics labels number kinds operands).map (moved k) := by
  rw [operandDiagnostics, operandDiagnostics, List.map_filterMap]
  congr 1
  funext p
  rw [Option.map_map]
  rfl

theorem declaredDiagnostics_add (mnemonic : Word) (kinds : List Kind) (operands : List Word) :
    declaredDiagnostics labels (number + k) mnemonic kinds operands =
      (declaredDiagnostics labels number mnemonic kinds operands).map (moved k) := by
  unfold declaredDiagnostics
  split
  · exact operandDiagnostics_add labels number k kinds operands
  · rfl

theorem registerDiagnostics_add (words : List Word) :
    registerDiagnostics (number + k) words = (registerDiagnostics number words).map (moved k) := by
  rw [registerDiagnostics, registerDiagnostics, List.map_map]
  rfl

theorem targetDiagnostics_add (mnemonic : Bytes) (operands : List Word) :
    targetDiagnostics labels (number + k) mnemonic operands =
      (targetDiagnostics labels number mnemonic operands).map (moved k) := by
  unfold targetDiagnostics
  split
  · rfl
  · split <;> rfl

theorem generalDiagnostics_add (mnemonic : Word) (operands : List Word) :
    generalDiagnostics labels (number + k) mnemonic operands =
      (generalDiagnostics labels number mnemonic operands).map (moved k) := by
  rw [generalDiagnostics, generalDiagnostics, List.map_append, registerDiagnostics_add, targetDiagnostics_add]

theorem lineDiagnostics_add (isa : Isa) (line : Line) :
    lineDiagnostics isa labels (number + k) line = (lineDiagnostics isa labels number line).map (moved k) := by
  unfold lineDiagnostics
  split
  · rfl
  · split
    · rw [List.map_append, declaredDiagnostics_add, generalDiagnostics_add]
    · unfold undeclaredDiagnostics
      split
      · exact generalDiagnostics_add ..
      · rfl

end Moved

/-! ## Any number of lines -/

/-- The diagnostics of lines that are counted from `start` on. -/
def diagnosticsFrom (isa : Isa) (labels : Labels) (start : Nat) (lines : List Line) : List Diagnostic :=
  (lines.zipIdx start).flatMap fun (line, i) => lineDiagnostics isa labels i line

theorem diagnosticsFrom_append (isa : Isa) (labels : Labels) (start : Nat) (x y : List Line) :
    diagnosticsFrom isa labels start (x ++ y) =
      diagnosticsFrom isa labels start x ++ diagnosticsFrom isa labels (start + x.length) y := by
  rw [diagnosticsFrom, List.zipIdx_append, List.flatMap_append]
  rfl

theorem diagnosticsFrom_of_more {labels more both : Labels}
    (h : ∀ name, both.isDefined name = (labels.isDefined name || more.isDefined name)) (isa : Isa) (start : Nat)
    (lines : List Line) :
    diagnosticsFrom isa both start lines =
      (diagnosticsFrom isa labels start lines).filter (!·.finding.isSettledBy more) := by
  rw [diagnosticsFrom, diagnosticsFrom, List.filter_flatMap]
  exact List.flatMap_congr fun p _ => lineDiagnostics_of_more h isa p.2 p.1

theorem diagnosticsFrom_add (isa : Isa) (labels : Labels) (k : Nat) (lines : List Line) : ∀ start : Nat,
    diagnosticsFrom isa labels (start + k) lines = (diagnosticsFrom isa labels start lines).map (moved k) := by
  induction lines with
  | nil => intro start; rfl
  | cons line lines ih =>
    intro start
    have hlater := ih (start + 1)
    rw [show start + 1 + k = start + k + 1 by omega] at hlater
    have hcons (n : Nat) : diagnosticsFrom isa labels n (line :: lines) =
        lineDiagnostics isa labels n line ++ diagnosticsFrom isa labels (n + 1) lines := rfl
    rw [hcons, hcons, lineDiagnostics_add, hlater, List.map_append]

/-- What is said to be missing is what it is said of. -/
theorem Says.isSettledBy_eq {line : Line} {w : Word} {finding : Finding} {message : Bytes}
    (h : Says line w finding message) (labels : Labels) :
    finding.isSettledBy labels = (finding.missesLabel && labels.isDefined w.text) := by
  cases h <;> rfl

end Check

/-! ## Documents -/

namespace Analysis

open Check
open Diagnostic (isSettled moved)

variable (isa : Isa)

theorem diagnostics_ofLines (raw : List Bytes) :
    (ofLines isa raw).diagnostics = diagnosticsFrom isa (Labels.ofLines raw) 0 (raw.map Line.ofBytes) := rfl

/-- A diagnostic that misses a label points at its name. -/
theorem isSettledBy_eq_isSettled {raw : List Bytes} {d : Diagnostic} (h : d ∈ (ofLines isa raw).diagnostics)
    (labels : Labels) : d.finding.isSettledBy labels = d.isSettled raw labels := by
  obtain ⟨line, hline, hd⟩ := exists_of_mem_diagnostics isa raw h
  have hquoted := (pointsAt_of_isSaid (isSaid_of_mem_lineDiagnostics hd)).quoted
  have hspan : d.spanText raw = line.extract d.start d.stop := by rw [Diagnostic.spanText, hline]; rfl
  rw [isSettled, hspan]
  exact hquoted.isSettledBy_eq labels

theorem line_lt_of_mem_diagnostics {raw : List Bytes} {d : Diagnostic} (h : d ∈ (ofLines isa raw).diagnostics) :
    d.line < raw.length := by
  obtain ⟨line, hline, -⟩ := exists_of_mem_diagnostics isa raw h
  exact (List.getElem?_eq_some_iff.1 hline).1

/-- The diagnostics of lines with those of other lines as additional labels. -/
theorem diagnosticsFrom_eq_filter {raw : List Bytes} {both more : Labels}
    (h : ∀ name, both.isDefined name = ((Labels.ofLines raw).isDefined name || more.isDefined name)) :
    diagnosticsFrom isa both 0 (raw.map Line.ofBytes) =
      (ofLines isa raw).diagnostics.filter (!isSettled raw more ·) := by
  rw [diagnosticsFrom_of_more h, ← diagnostics_ofLines]
  exact List.filter_congr fun d hd => by rw [isSettledBy_eq_isSettled isa hd]

theorem diagnostics_ofLines_append (a b : List Bytes) :
    (ofLines isa (a ++ b)).diagnostics =
      (ofLines isa a).diagnostics.filter (!isSettled a (Labels.ofLines b) ·) ++
        ((ofLines isa b).diagnostics.filter (!isSettled b (Labels.ofLines a) ·)).map (moved a.length) := by
  have hlater := diagnosticsFrom_add isa (Labels.ofLines (a ++ b)) a.length (b.map Line.ofBytes) 0
  have hcomm (name : Bytes) : (Labels.ofLines (a ++ b)).isDefined name =
      ((Labels.ofLines b).isDefined name || (Labels.ofLines a).isDefined name) := by
    rw [Labels.isDefined_ofLines_append, Bool.or_comm]
  rw [diagnostics_ofLines, List.map_append, diagnosticsFrom_append, List.length_map, hlater,
    diagnosticsFrom_eq_filter isa (Labels.isDefined_ofLines_append a b), diagnosticsFrom_eq_filter isa hcomm]

/-- Two documents one behind the other. A name means its line in the first, or else in the second. The diagnostics are
those of the first and those of the second, each without what is missed there and defined in the other. So none is new
on the lines of either. -/
theorem ofLines_append (a b : List Bytes) :
    (∀ name, (ofLines isa (a ++ b)).labels.line? name =
      ((ofLines isa a).labels.line? name).or (((ofLines isa b).labels.line? name).map (· + a.length))) ∧
    (ofLines isa (a ++ b)).diagnostics =
      (ofLines isa a).diagnostics.filter (!isSettled a (ofLines isa b).labels ·) ++
        ((ofLines isa b).diagnostics.filter (!isSettled b (ofLines isa a).labels ·)).map (moved a.length) ∧
    ((ofLines isa (a ++ b)).diagnostics.filter (·.line < a.length)).Sublist (ofLines isa a).diagnostics ∧
    ((ofLines isa (a ++ b)).diagnostics.filter (a.length ≤ ·.line)).Sublist
      ((ofLines isa b).diagnostics.map (moved a.length)) := by
  have hdiagnostics := diagnostics_ofLines_append isa a b
  refine ⟨Labels.line?_ofLines_append a b, hdiagnostics, ?_, ?_⟩
  · have hlater : (((ofLines isa b).diagnostics.filter (!isSettled b (Labels.ofLines a) ·)).map
        (moved a.length)).filter (·.line < a.length) = [] := by
      rw [List.filter_eq_nil_iff]
      intro d hd
      obtain ⟨d', -, rfl⟩ := List.mem_map.1 hd
      rw [decide_eq_true_eq]
      exact Nat.not_lt.2 (Nat.le_add_left _ _)
    rw [hdiagnostics, List.filter_append, hlater, List.append_nil]
    exact List.filter_sublist.trans List.filter_sublist
  · have hearlier : ((ofLines isa a).diagnostics.filter (!isSettled a (Labels.ofLines b) ·)).filter
        (a.length ≤ ·.line) = [] := by
      rw [List.filter_eq_nil_iff]
      intro d hd
      have hlt := line_lt_of_mem_diagnostics isa (List.mem_filter.1 hd).1
      simpa using hlt
    rw [hdiagnostics, List.filter_append, hearlier, List.nil_append]
    exact List.filter_sublist.trans (List.filter_sublist.map _)

-- A branch into the later document: both that is said of its target is settled there.
example : (ofLines Isa.default [utf8 "beq $t0, $t1, a"]).diagnostics =
      [⟨0, 14, 15, .expectedLabel 3 (utf8 "a")⟩, ⟨0, 14, 15, .undefinedLabel (utf8 "a")⟩] ∧
    (ofLines Isa.default [utf8 "beq $t0, $t1, a", utf8 "a: halt"]).diagnostics = [] := by
  decide +kernel

end Analysis

end AsmLens
