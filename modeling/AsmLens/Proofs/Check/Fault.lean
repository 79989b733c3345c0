import AsmLens.Isa.Load
import AsmLens.Proofs.Check.Hover

/-!
# When a table is a fault

A table with operands given by number is looked at by three loops: along the numbers of an entry, along the lines of a
document and along the entries of the table. Each of them ends with the first fault that it meets
(`mapM_kindOf_eq_error_iff`, `check_eq_error_iff`, `catalog_eq_error_iff`), so that what a fault says is known from what
stands before it.

* `faults_exactly`: which documents, which tables and which positions are faults, and which number the fault names. The
  tables that are built in or read from a description are none.
-/

namespace AsmLens.Coded

/-! ## First elements -/

/-- The first element of a list with a property. -/
def IsFirst {α : Type} (p : α → Prop) (xs : List α) (x : α) : Prop :=
  ∃ before after, xs = before ++ x :: after ∧ p x ∧ ∀ y ∈ before, ¬ p y

namespace IsFirst

variable {α : Type} {p : α → Prop} {xs : List α} {x : α}

theorem holds (h : IsFirst p xs x) : p x := by
  obtain ⟨-, -, -, hx, -⟩ := h
  exact hx

theorem mem (h : IsFirst p xs x) : x ∈ xs := by
  obtain ⟨before, after, rfl, -⟩ := h
  exact List.mem_append_right _ (List.mem_cons_self ..)

end IsFirst

theorem isFirst_iff_find? {α : Type} {p : α → Prop} [DecidablePred p] {xs : List α} {x : α} :
    IsFirst p xs x ↔ xs.find? (p ·) = some x := by
  rw [List.find?_eq_some_iff_append]
  constructor
  · rintro ⟨before, after, rfl, hx, hbefore⟩
    exact ⟨by simpa using hx, before, after, rfl, by simpa using hbefore⟩
  · rintro ⟨hx, before, after, rfl, hbefore⟩
    exact ⟨before, after, rfl, by simpa using hx, by simpa using hbefore⟩

theorem exists_isFirst_iff {α : Type} {p : α → Prop} {xs : List α} : (∃ x, IsFirst p xs x) ↔ ∃ x ∈ xs, p x := by
  classical
  simp only [isFirst_iff_find?, ← Option.isSome_iff_exists, List.find?_isSome, decide_eq_true_eq]

/-! ## The first error of a loop -/

section Loops

variable {ε α β : Type}

/-- The first error is the one at the first element that fails. -/
theorem findSome?_error?_eq_some_iff {f : α → Except ε β} {p : α → Prop} (hp : ∀ x, (∃ e, f x = .error e) ↔ p x)
    {xs : List α} {e : ε} :
    xs.findSome? (error? <| f ·) = some e ↔ ∃ x, IsFirst p xs x ∧ f x = .error e := by
  have hok (x : α) : error? (f x) = none ↔ ¬ p x := by
    rw [← hp, Option.eq_none_iff_forall_ne_some, not_exists]
    simp
  simp only [List.findSome?_eq_some_iff, hok, error?_eq_some_iff]
  constructor
  · rintro ⟨before, x, after, rfl, hx, hbefore⟩
    exact ⟨x, ⟨before, after, rfl, (hp x).1 ⟨e, hx⟩, hbefore⟩, hx⟩
  · rintro ⟨x, ⟨before, after, rfl, -, hbefore⟩, hx⟩
    exact ⟨before, x, after, rfl, hx, hbefore⟩

end Loops

/-! ## Entries -/

/-- A number that names no kind. -/
def IsForeign (code : Int) : Prop := code < 0 ∨ 3 < code

instance : DecidablePred IsForeign := fun code => inferInstanceAs (Decidable (code < 0 ∨ 3 < code))

theorem not_isForeign_code (kind : Kind) : ¬ IsForeign kind.code := by cases kind <;> decide

/-- Some number of an entry names no kind. -/
def IsMalformed (codes : List Int) : Prop := ∃ code ∈ codes, IsForeign code

theorem kindOf_eq_error_iff {fault : Int → Fault} {code : Int} {f : Fault} :
    kindOf fault code = .error f ↔ IsForeign code ∧ f = fault code := by
  rw [IsForeign, ← Kind.ofCode?_eq_none_iff, kindOf]
  cases Kind.ofCode? code <;> simp [eq_comm]

/-- An entry fails with its first number that names no kind. -/
theorem mapM_kindOf_eq_error_iff {fault : Int → Fault} {codes : List Int} {f : Fault} :
    codes.mapM (kindOf fault) = .error f ↔ ∃ code, IsFirst IsForeign codes code ∧ f = fault code := by
  have hforeign (code : Int) : (∃ f, kindOf fault code = .error f) ↔ IsForeign code := by
    simp [kindOf_eq_error_iff]
  rw [← error?_eq_some_iff, error?_mapM, findSome?_error?_eq_some_iff hforeign]
  simp only [kindOf_eq_error_iff]
  constructor
  · rintro ⟨code, hfirst, -, rfl⟩
    exact ⟨code, hfirst, rfl⟩
  · rintro ⟨code, hfirst, rfl⟩
    exact ⟨code, hfirst, hfirst.holds, rfl⟩

theorem exists_mapM_kindOf_iff {fault : Int → Fault} {codes : List Int} :
    (∃ f, codes.mapM (kindOf fault) = .error f) ↔ IsMalformed codes := by
  rw [IsMalformed, ← exists_isFirst_iff]
  simp only [mapM_kindOf_eq_error_iff]
  constructor
  · rintro ⟨f, code, hcode, -⟩
    exact ⟨code, hcode⟩
  · rintro ⟨code, hcode⟩
    exact ⟨fault code, code, hcode, rfl⟩

/-! ## Documents -/

section Documents

variable {t : CodeTable} {raw : List Bytes} {line : Bytes} {f : Fault}

/-- A line whose mnemonic is in the table, with as many operands as the table lists for it. -/
def Meets (t : CodeTable) (line : Bytes) (codes : List Int) : Prop :=
  ∃ mnemonic operands, (Line.ofBytes line).words = mnemonic :: operands ∧ t.find? mnemonic.text = some codes ∧
    operands.length = codes.length

/-- A line whose operands are checked against an entry that is malformed. -/
def IsFaulty (t : CodeTable) (line : Bytes) : Prop := ∃ codes, Meets t line codes ∧ IsMalformed codes

theorem lineKinds_eq_error_iff :
    lineKinds t (Line.ofBytes line) = .error f ↔ ∃ codes, Meets t line codes ∧ checked codes = .error f := by
  rw [lineKinds]
  cases hwords : (Line.ofBytes line).words with
  | nil => simp [Meets, hwords]
  | cons mnemonic operands =>
    have hmeets (codes : List Int) :
        Meets t line codes ↔ t.find? mnemonic.text = some codes ∧ operands.length = codes.length := by
      simp [Meets, hwords, and_assoc]
    simp only [hmeets]
    cases t.find? mnemonic.text with
    | none => simp
    | some codes =>
      simp only [Option.some.injEq, and_assoc, exists_eq_left']
      split
      · next hlength => simp only [hlength, true_and]
      · next hlength => simp only [hlength, false_and, reduceCtorEq]

theorem exists_lineKinds_iff : (∃ f, lineKinds t (Line.ofBytes line) = .error f) ↔ IsFaulty t line := by
  simp only [lineKinds_eq_error_iff, IsFaulty]
  constructor
  · rintro ⟨f, codes, hmeets, hf⟩
    exact ⟨codes, hmeets, exists_mapM_kindOf_iff.1 ⟨f, hf⟩⟩
  · rintro ⟨codes, hmeets, hmalformed⟩
    obtain ⟨f, hf⟩ := exists_mapM_kindOf_iff.2 hmalformed
    exact ⟨f, codes, hmeets, hf⟩

/-- A document fails at its first faulty line. -/
theorem check_eq_error_iff :
    check t raw = .error f ↔ ∃ line, IsFirst (IsFaulty t) raw line ∧ lineKinds t (Line.ofBytes line) = .error f := by
  rw [← error?_eq_some_iff, error?_check, findSome?_error?_eq_some_iff fun line => exists_lineKinds_iff]

theorem exists_check_iff : (∃ f, check t raw = .error f) ↔ ∃ line ∈ raw, IsFaulty t line := by
  rw [← exists_isFirst_iff]
  simp only [check_eq_error_iff]
  constructor
  · rintro ⟨f, line, hline, -⟩
    exact ⟨line, hline⟩
  · rintro ⟨line, hline⟩
    obtain ⟨f, hf⟩ := exists_lineKinds_iff.2 hline.holds
    exact ⟨f, line, hline, hf⟩

end Documents

/-! ## Catalogues -/

section Catalogues

variable {t : CodeTable} {f : Fault}

theorem catalog_eq_error_iff :
    catalog t = .error f ↔ ∃ entry, IsFirst (IsMalformed ·.2) t.entries entry ∧ described entry.2 = .error f := by
  have hentry (entry : Bytes × List Int) :
      (∃ f, described entry.2 = .error f) ↔ IsMalformed entry.2 := exists_mapM_kindOf_iff
  rw [← error?_eq_some_iff, catalog, error?_mapM, ← findSome?_error?_eq_some_iff hentry]
  simp only [error?_map]

theorem exists_catalog_iff :
    (∃ f, catalog t = .error f) ↔ ∃ mnemonic codes, t.find? mnemonic = some codes ∧ IsMalformed codes := by
  simp only [catalog_eq_error_iff]
  constructor
  · rintro ⟨f, ⟨mnemonic, codes⟩, hentry, -⟩
    exact ⟨mnemonic, codes, (Dictionary.find?_eq_some_iff t).2 hentry.mem, hentry.holds⟩
  · rintro ⟨mnemonic, codes, hfind, hmalformed⟩
    have hmem : ∃ entry ∈ t.entries, IsMalformed entry.2 :=
      ⟨(mnemonic, codes), (Dictionary.find?_eq_some_iff t).1 hfind, hmalformed⟩
    obtain ⟨entry, hentry⟩ := exists_isFirst_iff.2 hmem
    obtain ⟨f, hf⟩ := exists_mapM_kindOf_iff.2 hentry.holds
    exact ⟨f, entry, hentry, hf⟩

/-- The first entry with a property has the least mnemonic. -/
theorem eq_or_lt_of_isFirst {p : List Int → Prop} {mnemonic m : Bytes} {codes cs : List Int}
    (h : IsFirst (p ·.2) t.entries (mnemonic, codes)) (hm : t.find? m = some cs) (hp : p cs) :
    mnemonic = m ∨ mnemonic < m := by
  obtain ⟨before, after, hentries, -, hbefore⟩ := h
  have hsorted := t.sorted
  have hmem := (Dictionary.find?_eq_some_iff t).1 hm
  rw [hentries] at hsorted hmem
  -- No entry before the first has the property, and behind it the mnemonics are greater.
  rcases List.mem_append.1 hmem with hmem | hmem
  · exact absurd hp (hbefore _ hmem)
  · rcases List.mem_cons.1 hmem with heq | hmem
    · exact .inl (Prod.mk.inj heq).1.symm
    · exact .inr ((List.pairwise_cons.1 (List.pairwise_append.1 hsorted).2.1).1 _ hmem)

end Catalogues

end AsmLens.Coded

/-! ## Positions -/

namespace AsmLens.Analysis

variable {raw : List Bytes} {p : Position}

/-- The position is inside the mnemonic of a line. -/
def IsOverMnemonic (raw : List Bytes) (p : Position) (mnemonic : Bytes) : Prop :=
  ∃ (i : Nat) (line : Bytes) (w : Word), p.line = i ∧ raw[i]? = some line ∧
    (Line.ofBytes line).mnemonic? = some w ∧ w.covers p.character = true ∧ w.text = mnemonic

theorem mnemonic?_of_wordAt? {line : Line} {column : Int} {w : Word} (h : wordAt? line column = some (w, true)) :
    line.mnemonic? = some w ∧ w.covers column = true := by
  obtain ⟨⟨v, k⟩, hfound, hv⟩ := Option.map_eq_some_iff.1 h
  simp only [Prod.mk.injEq, beq_iff_eq] at hv
  obtain ⟨rfl, rfl⟩ := hv
  have hget := List.mk_mem_zipIdx_iff_getElem?.1 (List.mem_of_find?_eq_some hfound)
  refine ⟨?_, by simpa using List.find?_some hfound⟩
  rw [Line.mnemonic?, List.head?_eq_getElem?, hget]

theorem hoverMnemonic?_eq_instruction_iff {a : Analysis} {name mnemonic : Bytes} {kinds : List Kind} :
    a.hoverMnemonic? name = some (.instruction mnemonic kinds) ↔
      name = mnemonic ∧ a.isa.find? mnemonic = some kinds := by
  rw [hoverMnemonic?]
  constructor
  · intro h
    split at h
    · next hfind =>
      cases h
      exact ⟨rfl, hfind⟩
    · split at h <;> cases h
  · rintro ⟨rfl, hfind⟩
    rw [hfind]

/-- An instruction is shown over the mnemonics that are in the table, and nowhere else. -/
theorem hover?_eq_instruction_iff {isa : Isa} {mnemonic : Bytes} {kinds : List Kind} :
    (ofLines isa raw).hover? p = some (.instruction mnemonic kinds) ↔
      IsOverMnemonic raw p mnemonic ∧ isa.find? mnemonic = some kinds := by
  constructor
  · intro hh
    obtain ⟨i, line, hi, hline, hh⟩ := exists_line_of_hover? hh
    rw [hoverLine?] at hh
    split at hh
    · cases hh
    · split at hh
      · cases hh
      · next w hw =>
        obtain ⟨hmnemonic, hc⟩ := mnemonic?_of_wordAt? hw
        obtain ⟨htext, hfind⟩ := hoverMnemonic?_eq_instruction_iff.1 hh
        exact ⟨⟨i, line, w, hi, hline, hmnemonic, hc, htext⟩, hfind⟩
      · exact absurd hh hoverPiece?_ne_instruction
  · rintro ⟨⟨i, line, w, hi, hline, hw, hc, htext⟩, hfind⟩
    obtain ⟨l, column⟩ := p
    obtain rfl : l = i := hi
    rw [hover?_of_line isa hline, hoverLine?_of_mnemonic _ _ hw hc]
    exact hoverMnemonic?_eq_instruction_iff.2 ⟨htext, hfind⟩

end AsmLens.Analysis

namespace AsmLens.Coded

open Analysis

section Positions

variable {t : CodeTable} {raw : List Bytes} {p : Position} {f : Fault}

/-- A position of a checked document is a fault if it is over a mnemonic whose entry is one. -/
theorem hover?_eq_error_iff {c : Checked} (h : check t raw = .ok c) : c.hover? p = .error f ↔
    ∃ mnemonic codes, IsOverMnemonic raw p mnemonic ∧ t.find? mnemonic = some codes ∧ checked codes = .error f := by
  obtain rfl := eq_of_check h
  constructor
  · intro hf
    rw [Checked.hover?] at hf
    split at hf
    · next mnemonic kinds hh =>
      obtain ⟨hover, hkinds⟩ := hover?_eq_instruction_iff.1 hh
      rw [find?_toIsa, Option.map_eq_some_iff] at hkinds
      obtain ⟨codes, hcodes, -⟩ := hkinds
      rw [← error?_eq_some_iff, error?_map, error?_eq_some_iff, hcodes, Option.getD_some] at hf
      exact ⟨mnemonic, codes, hover, hcodes, hf⟩
    · cases hf
  · rintro ⟨mnemonic, codes, hover, hcodes, hf⟩
    have hh := hover?_eq_instruction_iff.2 ⟨hover, (find?_toIsa t mnemonic).trans (congrArg (Option.map _) hcodes)⟩
    rw [Checked.hover?, hh]
    simp only [hcodes, Option.getD_some, hf]
    rfl

theorem exists_hover?_iff {c : Checked} (h : check t raw = .ok c) : (∃ f, c.hover? p = .error f) ↔
    ∃ mnemonic codes, IsOverMnemonic raw p mnemonic ∧ t.find? mnemonic = some codes ∧ IsMalformed codes := by
  simp only [hover?_eq_error_iff h]
  constructor
  · rintro ⟨f, mnemonic, codes, hover, hcodes, hf⟩
    exact ⟨mnemonic, codes, hover, hcodes, exists_mapM_kindOf_iff.1 ⟨f, hf⟩⟩
  · rintro ⟨mnemonic, codes, hover, hcodes, hmalformed⟩
    obtain ⟨f, hf⟩ := exists_mapM_kindOf_iff.2 hmalformed
    exact ⟨f, mnemonic, codes, hover, hcodes, hf⟩

end Positions

/-! ## Tables -/

/-- Nothing that a table is used for is a fault. -/
structure IsFaultless (t : CodeTable) : Prop where
  documents : ∀ raw, ∃ c, check t raw = .ok c ∧ ∀ p, ∃ h, c.hover? p = .ok h
  catalogue : ∃ entries, catalog t = .ok entries

theorem isFaultless_of_forall {t : CodeTable}
    (h : ∀ mnemonic codes, t.find? mnemonic = some codes → ¬ IsMalformed codes) : IsFaultless t where
  documents := by
    intro raw
    have hcheck : ¬ ∃ f, check t raw = .error f := by
      rw [exists_check_iff]
      rintro ⟨line, -, codes, ⟨mnemonic, operands, -, hcodes, -⟩, hmalformed⟩
      exact h _ _ hcodes hmalformed
    obtain ⟨c, hc⟩ := exists_eq_ok hcheck
    refine ⟨c, hc, fun p => exists_eq_ok ?_⟩
    rw [exists_hover?_iff hc]
    rintro ⟨mnemonic, codes, -, hcodes, hmalformed⟩
    exact h _ _ hcodes hmalformed
  catalogue := by
    apply exists_eq_ok
    rw [exists_catalog_iff]
    rintro ⟨mnemonic, codes, hcodes, hmalformed⟩
    exact h _ _ hcodes hmalformed

/-- The numbers of kinds are never faults. -/
theorem isFaultless_ofIsa (isa : Isa) : IsFaultless (ofIsa isa) := by
  apply isFaultless_of_forall
  rintro mnemonic codes hcodes ⟨code, hmem, hforeign⟩
  rw [find?_ofIsa, Option.map_eq_some_iff] at hcodes
  obtain ⟨kinds, -, rfl⟩ := hcodes
  obtain ⟨kind, -, rfl⟩ := List.mem_map.1 hmem
  exact not_isForeign_code kind hforeign

/-- What the faults of a table are, in documents, in its catalogue and under positions. -/
structure FaultsExactly (t : CodeTable) (raw : List Bytes) : Prop where
  /-- A document is a fault just if a mnemonic with a malformed entry has as many operands as are listed for it. -/
  check_iff : (∃ f, check t raw = .error f) ↔ ∃ line ∈ raw, IsFaulty t line
  /-- The fault names the first number that is no kind, on the first such line. -/
  check_message : ∀ f, check t raw = .error f → ∃ line codes code, IsFirst (IsFaulty t) raw line ∧
    Meets t line codes ∧ IsFirst IsForeign codes code ∧
    f.message = utf8 "assembler: unhandled operand type " ++ Bytes.signedDecimal code
  /-- A catalogue is a fault just if an entry is malformed. -/
  catalog_iff : (∃ f, catalog t = .error f) ↔ ∃ mnemonic codes, t.find? mnemonic = some codes ∧ IsMalformed codes
  /-- The fault names the first number that is no kind, of the least such mnemonic. -/
  catalog_message : ∀ f, catalog t = .error f → ∃ mnemonic codes code, t.find? mnemonic = some codes ∧
    (∀ m cs, t.find? m = some cs → IsMalformed cs → mnemonic = m ∨ mnemonic < m) ∧ IsFirst IsForeign codes code ∧
    f.message = utf8 "isa: unknown operand type " ++ Bytes.signedDecimal code
  /-- A position of a checked document is a fault just if it is inside a mnemonic with a malformed entry. -/
  hover_iff : ∀ c, check t raw = .ok c → ∀ p, (∃ f, c.hover? p = .error f) ↔
    ∃ mnemonic codes, IsOverMnemonic raw p mnemonic ∧ t.find? mnemonic = some codes ∧ IsMalformed codes

/-- The faults of every table, and that none comes from the tables that are built in, described or loaded. -/
theorem faults_exactly :
    (∀ t raw, FaultsExactly t raw) ∧ IsFaultless (ofIsa Isa.default) ∧
      (∀ text, IsFaultless (ofIsa (Description.parse text))) ∧
      ∀ read path isa, Isa.load read path = .ok isa → IsFaultless (ofIsa isa) := by
  refine ⟨fun t raw => ⟨exists_check_iff, fun f hf => ?_, exists_catalog_iff, fun f hf => ?_,
    fun c hc p => exists_hover?_iff hc⟩, isFaultless_ofIsa _, fun text => isFaultless_ofIsa _,
    fun read path isa _ => isFaultless_ofIsa isa⟩
  · obtain ⟨line, hfirst, hline⟩ := check_eq_error_iff.1 hf
    obtain ⟨codes, hmeets, hcodes⟩ := lineKinds_eq_error_iff.1 hline
    obtain ⟨code, hcode, rfl⟩ := mapM_kindOf_eq_error_iff.1 hcodes
    exact ⟨line, codes, code, hfirst, hmeets, hcode, rfl⟩
  · obtain ⟨⟨mnemonic, codes⟩, hfirst, hcodes⟩ := catalog_eq_error_iff.1 hf
    obtain ⟨code, hcode, rfl⟩ := mapM_kindOf_eq_error_iff.1 hcodes
    exact ⟨mnemonic, codes, code, (Dictionary.find?_eq_some_iff t).2 hfirst.mem,
      fun m cs hm hcs => eq_or_lt_of_isFirst hfirst hm hcs, hcode, rfl⟩

/-- A table with an entry whose second number names no kind. -/
def foreign : CodeTable := Dictionary.ofList [(utf8 "m", [0, 7]), (utf8 "n", [1])]

theorem faults_exactly_foreign :
    (∃ f, check foreign [utf8 "n 1", utf8 "m $t0, 1"] = .error f) ∧ (∃ f, catalog foreign = .error f) ∧
      ∃ c, check foreign [utf8 "go: m"] = .ok c ∧ ∃ f, c.hover? ⟨0, 4⟩ = .error f := by
  obtain ⟨hfaults, -⟩ := faults_exactly
  have hentry : foreign.find? (utf8 "m") = some [0, 7] := by decide +kernel
  have hmalformed : IsMalformed [0, 7] := ⟨7, by decide, by decide⟩
  have hc : check foreign [utf8 "go: m"] = .ok ⟨foreign, Analysis.ofLines (toIsa foreign) [utf8 "go: m"]⟩ := rfl
  have hover : IsOverMnemonic [utf8 "go: m"] ⟨0, 4⟩ (utf8 "m") :=
    ⟨0, _, ⟨utf8 "m", 4⟩, rfl, rfl, by decide +kernel, by decide, rfl⟩
  have hwords : (Line.ofBytes (utf8 "m $t0, 1")).words = ⟨utf8 "m", 0⟩ :: [⟨utf8 "$t0", 2⟩, ⟨utf8 "1", 7⟩] := by
    decide +kernel
  refine ⟨(hfaults _ _).check_iff.2 ⟨_, .tail _ (.head _), [0, 7], ⟨_, _, hwords, hentry, rfl⟩, hmalformed⟩,
    (hfaults foreign []).catalog_iff.2 ⟨_, _, hentry, hmalformed⟩, _, hc, ?_⟩
  exact ((hfaults _ _).hover_iff _ hc _).2 ⟨_, _, hover, hentry, hmalformed⟩

end AsmLens.Coded
