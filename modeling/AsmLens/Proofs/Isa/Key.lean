import AsmLens.Isa.Load
import AsmLens.Proofs.Isa.Description
import AsmLens.Proofs.Isa.Lines

/-!
# Under which names a text declares instructions

A line declares the first field of its part before the colon, unless it is a comment (`Heads`). Trimming, the cut at the
colon and the division into fields find together the first run of octets that are neither blanks nor colons
(`head?_fields_part`). Hence the mnemonic is what the trimmed part begins with, and cutting it off leaves the operands
(`Heads.cut`); it is not empty, has no blanks and colons in it and begins no comment (`Heads.isMnemonic`). On the line
as it is written it stands behind nothing but blanks, and behind it stands a blank, a colon or nothing
(`heads_iff_names`).

* `isKeyed_parse`: a table has for its keys just what the lines of its text declare, and a file that can be read is no
  table just if none of its lines declares anything.
-/

namespace AsmLens.Description

/-! ## What a line begins with -/

/-- What stands before the first colon of a line, once it is trimmed. -/
def part (line : Bytes) : Bytes := Bytes.before 58 (Blank.trim line)

/-- Neither part of a blank nor a colon. -/
def isNaming (m : UInt8 × Bool) : Bool := !m.2 && m.1 != 58

theorem isNaming_iff {m : UInt8 × Bool} : isNaming m = true ↔ m.2 = false ∧ m.1 ≠ 58 := by simp [isNaming]

/-- The marks of the octets that a line begins with behind its blanks, up to the next blank or colon. -/
def front (line : Bytes) : List (UInt8 × Bool) := ((Blank.marks line).dropWhile (·.2)).takeWhile isNaming

/-- What is trimmed begins as the line does behind its blanks. -/
theorem takeWhile_marks_trim (line : Bytes) : (Blank.marks (Blank.trim line)).takeWhile isNaming = front line := by
  rw [Blank.marks_trim]
  exact takeWhile_rdropWhile (fun m hm => (isNaming_iff.1 hm).1) _

theorem marks_part (line : Bytes) :
    Blank.marks (part line) = (Blank.marks (Blank.trim line)).takeWhile (·.1 != 58) :=
  Blank.marks_before (by decide) _

/-- No blanks are in front of the part before the colon. -/
theorem dropWhile_marks_part (line : Bytes) : (Blank.marks (part line)).dropWhile (·.2) = Blank.marks (part line) := by
  have hpart : Blank.marks (part line) <+: (Blank.marks line).dropWhile (·.2) := by
    rw [marks_part, Blank.marks_trim]
    exact (List.takeWhile_prefix _).trans (List.rdropWhile_prefix _ _)
  cases hm : Blank.marks (part line) with
  | nil => rfl
  | cons m rest =>
    obtain ⟨t, ht⟩ := hpart
    have hhead : m ∈ ((Blank.marks line).dropWhile (·.2)).head? := by
      rw [← ht, hm]
      rfl
    exact List.dropWhile_cons_of_neg (by simp [head?_dropWhile_false _ _ m hhead])

/-- The first field of the part before the colon is what the line begins with. -/
theorem head?_fields_part {line m : Bytes} :
    (Blank.fields (part line)).head? = some m ↔ m ≠ [] ∧ m = (front line).map (·.1) := by
  have hboth : (fun x : UInt8 × Bool => decide ((!x.2) = true ∧ (x.1 != 58) = true)) = isNaming := by
    funext x
    simp only [isNaming, Bool.decide_and, Bool.decide_eq_true]
  rw [Blank.head?_fields_eq_some_iff, dropWhile_marks_part, marks_part, List.takeWhile_takeWhile, hboth,
    takeWhile_marks_trim]

/-! ## Mnemonics -/

/-- A line that is no comment and has `m` for the first field of its part before the colon. -/
structure Heads (line m : Bytes) : Prop where
  not_comment : (Blank.trim line).head? ≠ some 35
  first : (Blank.fields (part line)).head? = some m

/-- What a line declares. -/
theorem declaration?_eq_some_iff {line m : Bytes} {kinds : List Kind} : declaration? line = some (m, kinds) ↔
    Heads line m ∧ kinds = Marker.kinds ((Blank.trim (part line)).drop m.length) := by
  rw [declaration?_eq]
  split
  · next hcomment =>
    constructor
    · intro h
      cases h
    · rintro ⟨h, -⟩
      exact absurd hcomment h.not_comment
  · next hcomment =>
    show declared? (part line) = _ ↔ _
    rw [declared?]
    cases hfields : Blank.fields (part line) with
    | nil =>
      constructor
      · intro h
        cases h
      · rintro ⟨h, -⟩
        simpa [hfields] using h.first
    | cons first later =>
      constructor
      · intro h
        obtain ⟨rfl, rfl⟩ := Prod.mk.inj (Option.some.inj h)
        exact ⟨⟨hcomment, by rw [hfields]; rfl⟩, rfl⟩
      · rintro ⟨h, rfl⟩
        obtain rfl : first = m := by simpa [hfields] using h.first
        rfl

/-- A line begins with its mnemonic once it is trimmed. -/
theorem head?_trim_of_head?_fields {line m : Bytes} (h : (Blank.fields (part line)).head? = some m) :
    (Blank.trim line).head? = m.head? := by
  obtain ⟨hne, rfl⟩ := head?_fields_part.1 h
  have hprefix := (List.takeWhile_prefix (l := Blank.marks (Blank.trim line)) isNaming).map (·.1)
  rw [takeWhile_marks_trim, Blank.map_fst_marks] at hprefix
  obtain ⟨t, ht⟩ := hprefix
  rw [← ht, List.head?_append_of_ne_nil _ hne]

namespace Heads

variable {line m : Bytes}

/-- The mnemonic is what the trimmed part begins with, and what is left is read as the operands. -/
theorem cut (h : Heads line m) :
    ∃ operands, Blank.trim (part line) = m ++ operands ∧ declaration? line = some (m, Marker.kinds operands) := by
  obtain ⟨operands, hoperands⟩ := Blank.prefix_trim_of_head?_fields h.first
  refine ⟨operands, hoperands.symm, declaration?_eq_some_iff.2 ⟨h, ?_⟩⟩
  rw [← hoperands, List.drop_left]

theorem isMnemonic (h : Heads line m) : IsMnemonic m := by
  have hmem : m ∈ Blank.fields (part line) := List.mem_of_mem_head? h.first
  obtain ⟨hne, hsolid⟩ := Blank.isSolid_of_mem_fields hmem
  refine ⟨hne, hsolid, fun hcolon => ?_, ?_⟩
  · have := List.mem_takeWhile_imp (Blank.mem_of_mem_fields hmem hcolon)
    simp at this
  · rw [← head?_trim_of_head?_fields h.first]
    exact h.not_comment

end Heads

/-! ## Mnemonics as they are written -/

/-- A line on which a mnemonic stands behind blanks only, and behind it a blank, a colon or nothing. -/
def Names (line m : Bytes) : Prop :=
  ∃ indent rest, line = indent ++ m ++ rest ∧ Blank.isBlankText indent = true ∧ IsMnemonic m ∧
    (rest = [] ∨ rest.head? = some 58 ∨ Blank.width rest ≠ 0)

theorem names_of_heads {line m : Bytes} (h : Heads line m) : Names line m := by
  obtain ⟨hne, rfl⟩ := head?_fields_part.1 h.first
  have hfront : front line ≠ [] := by simpa using hne
  have hnaming : ∀ x ∈ front line, x.2 = false := fun x hx => (isNaming_iff.1 (List.mem_takeWhile_imp hx)).1
  obtain ⟨blanks, back, hmarks, hblanks, hback⟩ : ∃ blanks back, Blank.marks line = blanks ++ (front line ++ back) ∧
      (∀ x ∈ blanks, x.2 = true) ∧ ∀ x ∈ back.head?, isNaming x = false :=
    ⟨(Blank.marks line).takeWhile (·.2), ((Blank.marks line).dropWhile (·.2)).dropWhile isNaming,
      by rw [front, List.takeWhile_append_dropWhile, List.takeWhile_append_dropWhile],
      fun x => List.mem_takeWhile_imp, head?_dropWhile_false isNaming _⟩
  refine ⟨blanks.map (·.1), back.map (·.1), ?_, ?_, h.isMnemonic, ?_⟩
  · rw [← List.map_append, ← List.map_append, List.append_assoc, ← hmarks, Blank.map_fst_marks]
  · have hindent : Blank.marks (blanks.map (·.1)) = blanks := (Blank.marks_cut hmarks fun _ _ x hx => .inr (by
      rw [List.head?_append_of_ne_nil _ hfront] at hx
      exact hnaming x (List.mem_of_mem_head? hx))).1
    rw [Blank.isBlankText, hindent, List.all_eq_true]
    exact hblanks
  · cases back with
    | nil => exact .inl rfl
    | cons x back =>
      by_cases hcolon : x.1 = 58
      · exact .inr (.inl (by rw [List.map_cons, List.head?_cons, hcolon]))
      · -- The mnemonic ends outside blanks, so what follows it begins one.
        have hblank : x.2 = true := by
          by_contra hx
          have := hback x rfl
          rw [isNaming_iff.2 ⟨by simpa using hx, hcolon⟩] at this
          cases this
        rw [← List.append_assoc] at hmarks
        have hrest := (Blank.marks_cut hmarks fun y hy _ _ => .inl (by
          rw [List.getLast?_append_of_ne_nil _ hfront] at hy
          exact hnaming y (List.mem_of_mem_getLast? hy))).2
        refine .inr (.inr fun hw => ?_)
        rw [List.map_cons] at hw hrest
        rw [Blank.marks_cons, if_pos hw] at hrest
        rw [← (List.cons.inj hrest).1] at hblank
        cases hblank

theorem heads_of_names {line m : Bytes} (h : Names line m) : Heads line m := by
  obtain ⟨indent, rest, rfl, hindent, hm, hrest⟩ := h
  have hne : Blank.marks m ≠ [] := fun hnil => hm.ne_nil (by rw [← Blank.map_fst_marks m, hnil]; rfl)
  have hlead : ∀ b ∈ rest.head?, Blank.isLead b = true := by
    intro b hb
    obtain ⟨tail, rfl⟩ := List.head?_eq_some_iff.1 hb
    rcases hrest with hnil | hcolon | hblank
    · cases hnil
    · obtain rfl : b = 58 := by simpa using hcolon
      rfl
    · exact Blank.isLead_of_width hblank
  have hmarks : Blank.marks (indent ++ m ++ rest) = Blank.marks indent ++ (Blank.marks m ++ Blank.marks rest) := by
    rw [List.append_assoc, Blank.marks_append_of_isBlankText hindent, Blank.marks_append_lead m hlead]
  have hstart : ∀ x ∈ (Blank.marks m ++ Blank.marks rest).head?, x.2 = false := fun x hx => by
    rw [List.head?_append_of_ne_nil _ hne] at hx
    exact hm.isSolid x (List.mem_of_mem_head? hx)
  have hnaming : ∀ x ∈ Blank.marks m, isNaming x = true := fun x hx => by
    refine isNaming_iff.2 ⟨hm.isSolid x hx, fun hcolon => hm.colon_not_mem ?_⟩
    rw [← Blank.map_fst_marks m, ← hcolon]
    exact List.mem_map_of_mem hx
  have hstop : ∀ x ∈ (Blank.marks rest).head?, isNaming x = false := by
    intro x hx
    cases rest with
    | nil => cases hx
    | cons b rest =>
      rw [Blank.marks_cons] at hx
      rcases hrest with hnil | hcolon | hblank
      · cases hnil
      · obtain rfl : b = 58 := by simpa using hcolon
        rw [if_pos (Blank.width_cons_ink (by decide) rest)] at hx
        obtain rfl : (58, false) = x := by simpa using hx
        rfl
      · rw [if_neg hblank] at hx
        obtain rfl : (b, true) = x := by simpa using hx
        rfl
  have hfront : front (indent ++ m ++ rest) = Blank.marks m := by
    rw [front, hmarks, dropWhile_append_stop (List.all_eq_true.1 hindent) hstart, takeWhile_append_stop hnaming hstop]
  have hfirst : (Blank.fields (part (indent ++ m ++ rest))).head? = some m :=
    head?_fields_part.2 ⟨hm.ne_nil, by rw [hfront, Blank.map_fst_marks]⟩
  exact ⟨by rw [head?_trim_of_head?_fields hfirst]; exact hm.head?_ne, hfirst⟩

/-- The first field before the colon is a mnemonic behind blanks, with a blank, a colon or nothing behind it. -/
theorem heads_iff_names {line m : Bytes} : Heads line m ↔ Names line m := ⟨names_of_heads, heads_of_names⟩

/-! ## Keys -/

theorem contains_parse_iff {text m : Bytes} :
    (parse text).contains m = true ↔ ∃ line ∈ text.splitOn 10, Heads line m := by
  rw [Dictionary.contains, parse_eq, Dictionary.find?_ofList, List.lookup_isSome_iff]
  simp only [List.mem_reverse, declarations, List.mem_filterMap, beq_iff_eq]
  constructor
  · rintro ⟨⟨name, kinds⟩, ⟨line, hline, hdecl⟩, rfl⟩
    exact ⟨line, hline, (declaration?_eq_some_iff.1 hdecl).1⟩
  · rintro ⟨line, hline, h⟩
    exact ⟨(m, _), ⟨line, hline, declaration?_eq_some_iff.2 ⟨h, rfl⟩⟩, rfl⟩

theorem isEmpty_parse_iff {text : Bytes} :
    (parse text).isEmpty = true ↔ ∀ line ∈ text.splitOn 10, ∀ m, ¬Heads line m := by
  have hkeys : (parse text).isEmpty = true ↔ ∀ m, ¬(parse text).contains m = true := by
    rw [Dictionary.isEmpty, List.isEmpty_iff]
    constructor
    · intro hnil m
      simp [Dictionary.contains, Dictionary.find?, hnil]
    · intro h
      by_contra hne
      obtain ⟨⟨m, kinds⟩, entries, hentries⟩ := List.exists_cons_of_ne_nil hne
      exact h m (by simp [Dictionary.contains, Dictionary.find?, hentries])
  rw [hkeys]
  simp only [contains_parse_iff]
  exact ⟨fun h line hline m hm => h m ⟨line, hline, hm⟩, fun h m ⟨line, hline, hm⟩ => h line hline m hm⟩

/-- A file fails to be a table for being empty just if it can be read and none of its lines declares anything. -/
theorem load_eq_error_empty_iff {read : Files.Reader} {path : Bytes} :
    (∃ e, Isa.load read path = .error e ∧ e.failure = .empty) ↔
      ∃ text, read path = .ok text ∧ ∀ line ∈ text.splitOn 10, ∀ m, ¬Heads line m := by
  rw [Isa.load]
  cases hread : read path with
  | error reason =>
    constructor
    · rintro ⟨e, he, hempty⟩
      obtain rfl := Except.error.inj he
      cases reason <;> cases hempty
    · rintro ⟨text, htext, -⟩
      cases htext
  | ok text =>
    simp only [Except.ok.injEq, exists_eq_left', ← isEmpty_parse_iff]
    split
    · next hempty => exact ⟨fun _ => hempty, fun _ => ⟨_, rfl, rfl⟩⟩
    · next hfull =>
      constructor
      · rintro ⟨e, he, -⟩
        cases he
      · intro hempty
        exact absurd hempty hfull

/-- The keys of the table that a text describes. -/
structure IsKeyed (text : Bytes) (isa : Isa) : Prop where
  /-- Where a line has a mnemonic, cutting it off the trimmed part leaves what is read as the operands. -/
  cut : ∀ line ∈ text.splitOn 10, ∀ m, Heads line m → ∃ operands, Blank.trim (part line) = m ++ operands ∧
    declaration? line = some (m, Marker.kinds operands)
  contains_iff : ∀ m, isa.contains m = true ↔ ∃ line ∈ text.splitOn 10, Heads line m
  /-- The same of the lines as they are written. -/
  contains_iff_names : ∀ m, isa.contains m = true ↔ ∃ line ∈ text.splitOn 10, Names line m
  isMnemonic : ∀ m, isa.contains m = true → IsMnemonic m

/-- Every text describes a table whose keys are the mnemonics that its lines begin with, and a file that can be read
fails to be a table for being empty just if there are none. -/
theorem isKeyed_parse :
    (∀ text, IsKeyed text (parse text)) ∧
      ∀ (read : Files.Reader) (path : Bytes), (∃ e, Isa.load read path = .error e ∧ e.failure = .empty) ↔
        ∃ text, read path = .ok text ∧ ∀ line ∈ text.splitOn 10, ∀ m, ¬Heads line m := by
  refine ⟨fun text => ⟨fun line _ m h => h.cut, fun m => contains_parse_iff, fun m => ?_, fun m hm => ?_⟩,
    fun read path => load_eq_error_empty_iff⟩
  · simp only [contains_parse_iff, heads_iff_names]
  · obtain ⟨line, -, h⟩ := contains_parse_iff.1 hm
    exact h.isMnemonic

/-- A mnemonic between a no-break space and a colon, a comment, and a line with nothing before its colon. -/
example : (parse (Bytes.join [10] [0xC2 :: 0xA0 :: utf8 "add:lw", utf8 " #lw $D", utf8 ": lw"])).keys =
    [utf8 "add"] := by decide +kernel

end AsmLens.Description
