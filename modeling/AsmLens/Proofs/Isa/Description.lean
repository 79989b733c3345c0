import AsmLens.Isa.Description
import AsmLens.Proofs.Isa.Marker
import Mathlib.Data.List.Forall2

/-!
# Tables read back from their written form

A declaration may be written in many ways: after the mnemonic any pattern for its operands, then a space, a colon and
whatever one likes (`Written`). Whichever is chosen, the line declares just that (`declaration?_of_written`), and a text
with one such line for each of a list of declarations describes the table in which the last declaration of a mnemonic
counts (`find?_parse_of_written`).
-/

namespace AsmLens.Description

/-- What can be declared as a mnemonic. -/
structure IsMnemonic (m : Bytes) : Prop where
  ne_nil : m ≠ []
  isSolid : Blank.IsSolid m
  colon_not_mem : 58 ∉ m
  /-- Lines that begin with `#` are comments. -/
  head?_ne : m.head? ≠ some 35

/-- The ways to write a declaration on a line. -/
inductive Written : Bytes × List Kind → Bytes → Prop
  | bare {m rest : Bytes} (hm : IsMnemonic m) (hr : 10 ∉ rest) : Written (m, []) (m ++ (utf8 " :" ++ rest))
  | operands {m p rest : Bytes} {kinds : List Kind} (hm : IsMnemonic m) (hp : Marker.Pattern kinds p) (hr : 10 ∉ rest) :
    Written (m, kinds) (m ++ (utf8 " " ++ (p ++ (utf8 " :" ++ rest))))

/-- The part of a line between its mnemonic and the space before its colon. -/
inductive Body : List Kind → Bytes → Prop
  | nothing : Body [] []
  | pattern {kinds : List Kind} {p : Bytes} (hp : Marker.Pattern kinds p) : Body kinds (32 :: p)

theorem exists_body_of_written {m line : Bytes} {kinds : List Kind} (h : Written (m, kinds) line) :
    IsMnemonic m ∧ ∃ body rest, Body kinds body ∧ 10 ∉ rest ∧ line = m ++ body ++ [32] ++ 58 :: rest := by
  cases h with
  | @bare _ rest hm hr => exact ⟨hm, [], rest, .nothing, hr, by simp; rfl⟩
  | @operands _ p rest _ hm hp hr => exact ⟨hm, 32 :: p, rest, .pattern hp, hr, by simp; rfl⟩

namespace Body

variable {kinds : List Kind} {body m : Bytes}

theorem isInline (h : Body kinds body) : Marker.IsInline body := by
  cases h with
  | nothing => decide
  | pattern hp => exact Marker.isInline_append (x := [32]) (by decide) (Marker.isInline_pattern hp)

theorem kinds_eq (h : Body kinds body) : Marker.kinds body = kinds := by
  cases h with
  | nothing => rfl
  | pattern hp => exact Marker.kinds_pattern hp

/-- Behind a mnemonic and its body trimming takes off the space only. -/
theorem trim_append (h : Body kinds body) (hm : IsMnemonic m) : Blank.trim (m ++ body ++ [32]) = m ++ body := by
  have htight := Blank.isTight_of_isSolid hm.ne_nil hm.isSolid
  rw [Blank.trim_concat_blank _ (by decide)]
  cases h with
  | nothing => rw [List.append_nil, htight.trim_eq]
  | @pattern _ p hp =>
    have hp' := Marker.isTight_pattern hp
    have hboth : Blank.IsTight (m ++ 32 :: p) :=
      ⟨htight.1.append_blank (by decide) p, hp'.2.append_blank (by decide) m⟩
    exact hboth.trim_eq

theorem fields_append (h : Body kinds body) (hm : IsMnemonic m) :
    ∃ later, Blank.fields (m ++ body ++ [32]) = m :: later := by
  have hfields := Blank.fields_of_isSolid hm.ne_nil hm.isSolid
  cases h with
  | nothing => exact ⟨[], by rw [List.append_nil, Blank.fields_append_blank (by decide), hfields]; rfl⟩
  | @pattern _ p hp =>
    rw [List.append_assoc, List.cons_append, Blank.fields_append_blank (by decide), hfields]
    exact ⟨_, rfl⟩

theorem beginsTight_append (h : Body kinds body) (hm : IsMnemonic m) : Blank.BeginsTight (m ++ body ++ [32]) := by
  have htight := (Blank.isTight_of_isSolid hm.ne_nil hm.isSolid).1
  cases h with
  | nothing => rw [List.append_nil]; exact htight.append_blank (by decide) []
  | @pattern _ p hp => rw [List.append_assoc, List.cons_append]; exact htight.append_blank (by decide) _

end Body

/-- A written declaration declares what it was written for. -/
theorem declaration?_of_written {m line : Bytes} {kinds : List Kind} (h : Written (m, kinds) line) :
    declaration? line = some (m, kinds) := by
  obtain ⟨hm, body, rest, hbody, -, rfl⟩ := exists_body_of_written h
  obtain ⟨t, ht⟩ := Blank.exists_trim_append_ink (hbody.beginsTight_append hm) (b := 58) (by decide) rest
  obtain ⟨later, hfields⟩ := hbody.fields_append hm
  have hcolon : 58 ∉ m ++ body ++ [32] := by simp [hm.colon_not_mem, hbody.isInline.2]
  have hpart : Bytes.before 58 (m ++ body ++ [32] ++ 58 :: t) = m ++ body ++ [32] :=
    takeWhile_append_stop (fun b hb => by simpa using fun h : b = 58 => hcolon (h ▸ hb)) (by simp)
  have hhead : ((m ++ body ++ [32] ++ 58 :: t).head? == some 35) = false := by
    obtain ⟨b, m, rfl⟩ := List.exists_cons_of_ne_nil hm.ne_nil
    simpa using hm.head?_ne
  simp only [declaration?, ht, hhead, hpart, hfields, hbody.trim_append hm, List.drop_left, hbody.kinds_eq,
    Bool.false_eq_true, if_false]

theorem lineFeed_not_mem_of_written {m line : Bytes} {kinds : List Kind} (h : Written (m, kinds) line) : 10 ∉ line := by
  obtain ⟨hm, body, rest, hbody, hr, rfl⟩ := exists_body_of_written h
  have hfeed : 10 ∉ m := fun hc => absurd (hm.isSolid.isBlank1_false hc) (by decide)
  simp [hfeed, hbody.isInline.1, hr]

section Lines

variable {declarations : List (Bytes × List Kind)} {lines : List Bytes}

theorem filterMap_declaration?_of_written (h : List.Forall₂ Written declarations lines) :
    lines.filterMap declaration? = declarations := by
  induction h with
  | nil => rfl
  | cons hw _ ih => rw [List.filterMap_cons, declaration?_of_written hw, ih]

theorem lineFeed_not_mem_lines_of_written (h : List.Forall₂ Written declarations lines) :
    ∀ line ∈ lines, 10 ∉ line := by
  induction h with
  | nil => simp
  | cons hw _ ih =>
    intro line hline
    rcases List.mem_cons.1 hline with rfl | hline
    · exact lineFeed_not_mem_of_written hw
    · exact ih line hline

/-- Of written declarations, each on a line of its own, the last for a mnemonic counts, and nothing else is declared. -/
theorem find?_parse_of_written (h : List.Forall₂ Written declarations lines) (m : Bytes) :
    (parse (Bytes.join [10] lines)).find? m = declarations.reverse.lookup m := by
  rw [parse, Dictionary.find?_ofList]
  by_cases hne : lines = []
  · subst hne
    cases h
    rfl
  · rw [Bytes.splitOn_join hne (lineFeed_not_mem_lines_of_written h), filterMap_declaration?_of_written h]

end Lines

/-- Two declarations of one mnemonic, the later with escapes and gaps, and one without operands. -/
def escapedLines : List Bytes :=
  [utf8 "lw %O :", utf8 "halt :stop", utf8 "lw \\$D,\t#I\\s* \\( \\$S\\s*\\) : 0011"]

theorem find?_parse_of_written_escapedLines :
    List.Forall₂ Written [(utf8 "lw", [.label]), (utf8 "halt", []), (utf8 "lw", [.register, .based])] escapedLines ∧
      (parse (Bytes.join [10] escapedLines)).find? (utf8 "lw") = some [.register, .based] := by
  have hlw : IsMnemonic (utf8 "lw") := ⟨by decide, by decide +kernel, by decide, by decide⟩
  have hhalt : IsMnemonic (utf8 "halt") := ⟨by decide, by decide +kernel, by decide, by decide⟩
  have hname (b : UInt8) (hb : isAlnum b = true) : Marker.IsName [b] := ⟨by simp, by simpa using hb⟩
  have hbased : Marker.Written .based (utf8 "#I\\s* \\( \\$S\\s*\\)") :=
    .based (.spaces (.filling (b := 32) rfl .nil)) .backslash (.filling (b := 32) rfl .nil)
      (.register (hname 83 rfl) .backslash) (.spaces .nil) .backslash
  have hpattern : Marker.Pattern [.register, .based] (utf8 "\\$D,\t#I\\s* \\( \\$S\\s*\\)") :=
    @Marker.Pattern.more _ _ _ [44, 9] _ (.register (hname 68 rfl) .backslash) ⟨by decide, by decide +kernel⟩
      (.one hbased)
  have hwritten : List.Forall₂ Written
      [(utf8 "lw", [.label]), (utf8 "halt", []), (utf8 "lw", [.register, .based])] escapedLines :=
    .cons (@Written.operands _ _ [] _ hlw (.one .label) (by decide))
      (.cons (@Written.bare _ (utf8 "stop") hhalt (by decide))
        (.cons (@Written.operands _ _ (utf8 " 0011") _ hlw hpattern (by decide)) .nil))
  exact ⟨hwritten, find?_parse_of_written hwritten (utf8 "lw")⟩

end AsmLens.Description
