import AsmLens.Check.Coded

/-!
# Checking against numbers and against kinds

The operand loop looks at numbers as it goes along, so that what it gives and how it fails are found in the same pass.
Here the two are taken apart. `lineKinds` are the kinds that the operands of a line are checked against, and nothing
else can fail about the line: its check fails as they do, and otherwise gives what a check against the instruction set
of the table gives (`lineDiagnostics_eq`).

* `error?_check`: a document fails with the first failure of its lines.
* `eq_of_check`: a document that does not fail is analysed as against the instruction set of the table.
* `check_ofIsa`: numbers of kinds never fail.
-/

namespace AsmLens.Coded

/-! ## Loops that end with the first error -/

section Loops

variable {ε α β : Type}

/-- What a computation failed with. -/
def error? : Except ε α → Option ε
  | .error e => some e
  | .ok _ => none

@[simp]
theorem error?_eq_some_iff {x : Except ε α} {e : ε} : error? x = some e ↔ x = .error e := by
  cases x <;> simp [error?]

theorem exists_eq_ok {x : Except ε α} (h : ¬ ∃ e, x = .error e) : ∃ a, x = .ok a := by
  cases x with
  | error e => exact absurd ⟨e, rfl⟩ h
  | ok a => exact ⟨a, rfl⟩

@[simp]
theorem error?_map (f : α → β) (x : Except ε α) : error? (x.map f) = error? x := by cases x <;> rfl

theorem error?_mapM (f : α → Except ε β) (xs : List α) : error? (xs.mapM f) = xs.findSome? (error? <| f ·) := by
  induction xs with
  | nil => rfl
  | cons x xs ih =>
    rw [List.mapM_cons, List.findSome?_cons]
    cases f x with
    | error e => rfl
    | ok b =>
      show error? (xs.mapM f >>= fun bs => pure (b :: bs)) = _
      rw [← ih]
      cases xs.mapM f <;> rfl

/-- A loop that goes through gives what its steps give. -/
theorem eq_map_of_mapM {f : α → Except ε β} {g : α → β} (hf : ∀ x y, f x = .ok y → y = g x) {xs : List α} :
    ∀ {ys : List β}, xs.mapM f = .ok ys → ys = xs.map g := by
  induction xs with
  | nil =>
    intro ys h
    cases h
    rfl
  | cons x xs ih =>
    intro ys h
    rw [List.mapM_cons] at h
    cases hx : f x with
    | error e => rw [hx] at h; cases h
    | ok y =>
      cases hxs : xs.mapM f with
      | error e => rw [hx, hxs] at h; cases h
      | ok rest =>
        rw [hx, hxs] at h
        obtain rfl : y :: rest = ys := Except.ok.inj h
        rw [List.map_cons, ← hf x y hx, ← ih hxs]

end Loops

/-! ## Kinds in place of numbers -/

theorem find?_toIsa (t : CodeTable) (mnemonic : Bytes) : (toIsa t).find? mnemonic =
    (t.find? mnemonic).map (List.map fun code => (Kind.ofCode? code).getD .number) := Dictionary.find?_map _ _ _

theorem eq_map_of_checked {codes : List Int} {kinds : List Kind} (h : checked codes = .ok kinds) :
    kinds = codes.map fun code => (Kind.ofCode? code).getD .number := by
  refine eq_map_of_mapM (fun code kind hk => ?_) h
  rw [kindOf] at hk
  split at hk
  · next hcode =>
    rw [hcode]
    exact (Except.ok.inj hk).symm
  · cases hk

/-! ## Lines -/

section Lines

variable (labels : Labels) (number : Nat)

/-- A loop over operands that looks at a number each time fails as the numbers do. -/
theorem filterMapM_kindOf {β : Type} (fault : Int → Fault) (g : Kind → Word → Nat → Option β) {codes : List Int} :
    ∀ {operands : List Word} (start : Nat), operands.length = codes.length →
      ((codes.zip operands).zipIdx start).filterMapM
          (fun p => (kindOf fault p.1.1).map fun kind => g kind p.1.2 p.2) =
        (codes.mapM (kindOf fault)).map fun kinds =>
          ((kinds.zip operands).zipIdx start).filterMap fun p => g p.1.1 p.1.2 p.2 := by
  induction codes with
  | nil =>
    intro operands start h
    rw [List.length_eq_zero_iff.1 h]
    rfl
  | cons code codes ih =>
    intro operands start h
    obtain ⟨w, operands, rfl⟩ := List.exists_cons_of_length_eq_add_one h
    have ih := @ih operands (start + 1) (Nat.succ.inj h)
    rw [List.zip_cons_cons, List.zipIdx_cons, List.filterMapM_cons, List.mapM_cons, ih]
    cases kindOf fault code with
    | error f => rfl
    | ok kind =>
      cases hg : g kind w start <;> cases codes.mapM (kindOf fault) <;>
        simp [hg, Except.map, bind, Except.bind, pure, Except.pure]

/-- The operand loop looks at the numbers from the left and checks against their kinds. -/
theorem operandDiagnostics_eq {codes : List Int} {operands : List Word} (h : operands.length = codes.length) :
    operandDiagnostics labels number codes operands =
      (checked codes).map fun kinds => Check.operandDiagnostics labels number kinds operands :=
  filterMapM_kindOf .unchecked
    (fun kind w i => (Check.operandFinding? labels kind (i + 1) w.text).map (Check.about number w)) 0 h

/-- The kinds that the operands of a line are checked against, where there are as many of the one as of the other. -/
def lineKinds (t : CodeTable) (line : Line) : Except Fault (List Kind) :=
  match line.words with
  | [] => .ok []
  | mnemonic :: operands =>
    match t.find? mnemonic.text with
    | none => .ok []
    | some codes => if operands.length = codes.length then checked codes else .ok []

/-- Nothing but its kinds can fail about a line. -/
theorem lineDiagnostics_eq (t : CodeTable) (line : Line) : lineDiagnostics t labels number line =
    (lineKinds t line).map fun _ => Check.lineDiagnostics (toIsa t) labels number line := by
  unfold lineDiagnostics lineKinds Check.lineDiagnostics
  cases line.words with
  | nil => rfl
  | cons mnemonic operands =>
    simp only [find?_toIsa]
    cases t.find? mnemonic.text with
    | none => rfl
    | some codes =>
      simp only [Option.map_some, declaredDiagnostics, Check.declaredDiagnostics, List.length_map]
      split
      · next hlength =>
        rw [operandDiagnostics_eq labels number hlength]
        cases hkinds : checked codes with
        | error f => rfl
        | ok kinds =>
          rw [← eq_map_of_checked hkinds]
          rfl
      · rfl

end Lines

/-! ## Documents -/

section Documents

variable {t : CodeTable} {raw : List Bytes}

theorem check_eq (t : CodeTable) (raw : List Bytes) : check t raw =
    ((raw.map Line.ofBytes).zipIdx.mapM fun p => lineDiagnostics t (Labels.ofLines raw) p.2 p.1).map fun found =>
      ⟨t, toIsa t, raw.map Line.ofBytes, Labels.ofLines raw, found.flatten⟩ := by
  rw [check]
  cases (raw.map Line.ofBytes).zipIdx.mapM fun p => lineDiagnostics t (Labels.ofLines raw) p.2 p.1 <;> rfl

theorem error?_check (t : CodeTable) (raw : List Bytes) :
    error? (check t raw) = raw.findSome? (error? <| lineKinds t <| Line.ofBytes ·) := by
  have hlines := List.findSome?_map (l := (raw.map Line.ofBytes).zipIdx) (f := Prod.fst)
    (p := fun line => error? (lineKinds t line))
  rw [List.zipIdx_map_fst, List.findSome?_map] at hlines
  rw [check_eq, error?_map, error?_mapM]
  simp only [lineDiagnostics_eq, error?_map]
  exact hlines.symm

/-- A document that is checked is analysed as against the instruction set of the table. -/
theorem eq_of_check {c : Checked} (h : check t raw = .ok c) : c = ⟨t, Analysis.ofLines (toIsa t) raw⟩ := by
  have hline (p : Line × Nat) (found : List Diagnostic)
      (hp : lineDiagnostics t (Labels.ofLines raw) p.2 p.1 = .ok found) :
      found = Check.lineDiagnostics (toIsa t) (Labels.ofLines raw) p.2 p.1 := by
    rw [lineDiagnostics_eq] at hp
    cases hkinds : lineKinds t p.1 with
    | error f => rw [hkinds] at hp; cases hp
    | ok kinds =>
      rw [hkinds] at hp
      exact (Except.ok.inj hp).symm
  rw [check_eq] at h
  cases hloop : (raw.map Line.ofBytes).zipIdx.mapM fun p => lineDiagnostics t (Labels.ofLines raw) p.2 p.1 with
  | error f => rw [hloop] at h; cases h
  | ok found =>
    rw [hloop, eq_map_of_mapM hline hloop] at h
    exact (Except.ok.inj h).symm

end Documents

/-! ## Numbers of kinds -/

section Kinds

variable (isa : Isa) (raw : List Bytes)

theorem find?_ofIsa (mnemonic : Bytes) :
    (ofIsa isa).find? mnemonic = (isa.find? mnemonic).map (List.map Kind.code) := Dictionary.find?_map _ _ _

/-- The kinds of an instruction set are found again by their numbers. -/
theorem toIsa_ofIsa : toIsa (ofIsa isa) = isa := by
  have hcode : (fun code => (Kind.ofCode? code).getD .number) ∘ Kind.code = id := by
    funext kind
    simp
  apply Dictionary.ext_find?
  intro mnemonic
  rw [find?_toIsa, find?_ofIsa, Option.map_map]
  cases isa.find? mnemonic with
  | none => rfl
  | some kinds => simp only [Option.map_some, Function.comp_apply, List.map_map, hcode, List.map_id_fun, id]

theorem error?_lineKinds_ofIsa (line : Line) : error? (lineKinds (ofIsa isa) line) = none := by
  rw [lineKinds]
  split
  · rfl
  · rw [find?_ofIsa]
    cases isa.find? _ with
    | none => rfl
    | some kinds =>
      simp only [Option.map_some, checked, mapM_kindOf_map_code]
      split <;> rfl

/-- A table in which every number names a kind is never a fault. -/
theorem check_ofIsa : check (ofIsa isa) raw = .ok ⟨ofIsa isa, Analysis.ofLines isa raw⟩ := by
  have hfaultless : ¬ ∃ f, check (ofIsa isa) raw = .error f := by
    rintro ⟨f, hf⟩
    rw [← error?_eq_some_iff, error?_check] at hf
    obtain ⟨line, -, hline⟩ := List.exists_of_findSome?_eq_some hf
    rw [error?_lineKinds_ofIsa] at hline
    cases hline
  obtain ⟨c, hc⟩ := exists_eq_ok hfaultless
  rw [hc, eq_of_check hc, toIsa_ofIsa]

end Kinds

end AsmLens.Coded
