import AsmLens.Proofs.Source.Line
import Mathlib.Order.Bounds.Defs

/-!
# Where labels are defined

A name means the first line that defines it: looking it up is looking for the index of that line (`line?_ofLines`),
which is the least of a line that, taken apart, has the name for its label (`line?_ofLines_eq_some_iff`). The whole line
is searched for a definition on the one side, its code on the other.

Of two lists of lines one behind the other the earlier one counts first, and the lines of the later move down
(`line?_ofLines_append`).
-/

namespace AsmLens.Labels

open Source (labelName?)

/-- The definitions of lines that are counted from `k` on. -/
theorem lookup_definitions (name : Bytes) (lines : List Bytes) : ∀ k : Nat,
    ((lines.zipIdx k).filterMap fun (line, i) => (Source.label? line).map fun w => (w.text, i)).lookup name =
      (lines.findIdx? (labelName? · == some name)).map (· + k) := by
  induction lines with
  | nil => intro k; rfl
  | cons line lines ih =>
    intro k
    have hlater : (lines.findIdx? (labelName? · == some name)).map (· + (k + 1)) =
        ((lines.findIdx? (labelName? · == some name)).map (· + 1)).map (· + k) := by
      rw [Option.map_map]
      congr 1
      funext i
      simp only [Function.comp_apply]
      omega
    rw [List.zipIdx_cons, List.findIdx?_cons]
    cases hw : Source.label? line with
    | none =>
      have hnone : (labelName? line == some name) = false := by simp [labelName?, hw]
      rw [List.filterMap_cons_none (by simp [hw]), ih, hlater, hnone, if_neg Bool.false_ne_true]
    | some w =>
      have hname : (labelName? line == some name) = true ↔ name = w.text := by
        rw [beq_iff_eq, labelName?, hw, Option.map_some, Option.some.injEq]
        exact eq_comm
      rw [List.filterMap_cons_some (b := (w.text, k)) (by simp [hw]), Dictionary.lookup_entry, ih, hlater]
      simp only [hname]
      split
      · simp
      · rfl

/-- A name is looked up by looking for the first line that defines it. -/
theorem line?_ofLines (lines : List Bytes) (name : Bytes) :
    (ofLines lines).line? name = lines.findIdx? (labelName? · == some name) := by
  have h := lookup_definitions name lines 0
  simpa [ofLines, line?] using h

/-- A name means the least line that, taken apart, defines it. -/
theorem line?_ofLines_eq_some_iff {lines : List Bytes} {name : Bytes} {i : Nat} :
    (ofLines lines).line? name = some i ↔
      IsLeast {j | ∃ raw, lines[j]? = some raw ∧ (Line.ofBytes raw).label.map Word.text = some name} i := by
  have hlabel (raw : Bytes) : (Line.ofBytes raw).label.map Word.text = labelName? raw := Source.labelName?_code raw
  simp only [hlabel]
  rw [line?_ofLines, List.findIdx?_eq_some_iff_getElem]
  constructor
  · rintro ⟨hi, hdef, hleast⟩
    refine ⟨⟨lines[i], List.getElem?_eq_getElem hi, by simpa using hdef⟩, ?_⟩
    rintro j ⟨raw, hraw, hj⟩
    by_contra hlt
    obtain ⟨hjl, rfl⟩ := List.getElem?_eq_some_iff.1 hraw
    exact hleast j (by omega) (by simpa using hj)
  · rintro ⟨⟨raw, hraw, hdef⟩, hleast⟩
    obtain ⟨hi, rfl⟩ := List.getElem?_eq_some_iff.1 hraw
    refine ⟨hi, by simpa using hdef, fun j hj hdefj => ?_⟩
    have hle : i ≤ j := hleast ⟨lines[j], List.getElem?_eq_getElem (by omega), by simpa using hdefj⟩
    omega

/-- Lines that stand behind others only add names that those do not define. -/
theorem line?_ofLines_append (a b : List Bytes) (name : Bytes) :
    (ofLines (a ++ b)).line? name = ((ofLines a).line? name).or (((ofLines b).line? name).map (· + a.length)) := by
  simp only [line?_ofLines]
  exact List.findIdx?_append

theorem isDefined_ofLines_append (a b : List Bytes) (name : Bytes) :
    (ofLines (a ++ b)).isDefined name = ((ofLines a).isDefined name || (ofLines b).isDefined name) := by
  simp only [isDefined, line?_ofLines_append, Option.isSome_or, Option.isSome_map]

end AsmLens.Labels
