import AsmLens.Proofs.Check.Append
import AsmLens.Proofs.Check.Hover

/-!
# Names that have to be registers

Every `$` of a word belongs to a name that has to be a register: the whole word if it begins with `$`, and otherwise the
`$` with all the word characters behind it (`nameAt`). The scan of the checker finds just these names
(`mem_registerNames_iff`), each of them once, as they come one behind the other (`pairwise_registerNames`).

The invalid registers that are reported of a line with a legal mnemonic are those names that are no registers, in order
(`filter_diagnostics_eq`), whatever else is wrong with the line.

* `registersChecked`: every `$` is looked at once, and reported just if its name is no register.
-/

namespace AsmLens

namespace Check

/-! ## Names in words -/

/-- The name that the `k`-th octet of a word, a `$`, belongs to. -/
def nameAt (around : Word) (k : Nat) : Word :=
  if around.text.head? = some 36 then around
  else ⟨36 :: (around.text.drop (k + 1)).takeWhile isWordByte, around.start + k⟩

/-- A name that one of the words has at a `$`. -/
def IsChecked (words : List Word) (name : Word) : Prop :=
  ∃ around ∈ words, ∃ k, around.text[k]? = some 36 ∧ name = nameAt around k

theorem mem_dollarNames_iff_getElem? {s : Bytes} {w : Word} : ∀ {start : Nat},
    w ∈ dollarNames start s ↔
      ∃ k, s[k]? = some 36 ∧ w = ⟨36 :: (s.drop (k + 1)).takeWhile isWordByte, start + k⟩ := by
  induction s with
  | nil => simp [dollarNames]
  | cons b s ih =>
    intro start
    have hstep : w ∈ dollarNames start (b :: s) ↔
        (b = 36 ∧ w = ⟨36 :: s.takeWhile isWordByte, start⟩) ∨ w ∈ dollarNames (start + 1) s := by
      rw [dollarNames]
      split
      · next hb => simp [hb]
      · next hb => simp [hb]
    rw [hstep, ih]
    constructor
    · rintro (⟨rfl, rfl⟩ | ⟨k, hk, rfl⟩)
      · exact ⟨0, rfl, rfl⟩
      · refine ⟨k + 1, hk, ?_⟩
        rw [List.drop_succ_cons, show start + 1 + k = start + (k + 1) by omega]
    · rintro ⟨k, hk, rfl⟩
      cases k with
      | zero => exact .inl ⟨by simpa using hk, rfl⟩
      | succ k =>
        refine .inr ⟨k, hk, ?_⟩
        rw [List.drop_succ_cons, show start + 1 + k = start + (k + 1) by omega]

/-- The names that are looked at in a word are those at its `$`s. -/
theorem mem_registerNames_iff {around w : Word} :
    w ∈ registerNames around ↔ ∃ k, around.text[k]? = some 36 ∧ w = nameAt around k := by
  rw [registerNames]
  simp only [nameAt]
  split
  · next hd =>
    rw [List.mem_singleton]
    constructor
    · rintro rfl
      exact ⟨0, by rw [← List.head?_eq_getElem?, hd], rfl⟩
    · rintro ⟨k, -, rfl⟩
      rfl
  · exact mem_dollarNames_iff_getElem?

theorem isChecked_iff {words : List Word} {name : Word} :
    IsChecked words name ↔ name ∈ words.flatMap registerNames := by
  simp only [IsChecked, List.mem_flatMap, mem_registerNames_iff]

/-- A name covers the `$` that it is found at. -/
theorem covers_nameAt {around : Word} {k : Nat} (hk : around.text[k]? = some 36) :
    (nameAt around k).covers (around.start + k) = true := by
  have hlt : k < around.text.length := (List.getElem?_eq_some_iff.1 hk).1
  rw [Word.covers_iff, nameAt]
  split
  · rw [Word.stop]
    omega
  · simp only [Word.stop, List.length_cons]
    omega

/-! ## Names one behind the other -/

/-- A run ends before any octet that does not belong to it. -/
theorem length_takeWhile_le {s : Bytes} {p : UInt8 → Bool} {k : Nat} {b : UInt8} (hk : s[k]? = some b)
    (hb : p b = false) : (s.takeWhile p).length ≤ k := by
  by_contra hlt
  rw [Nat.not_le] at hlt
  obtain ⟨rest, hrest⟩ := List.takeWhile_prefix p (l := s)
  rw [← hrest, List.getElem?_append_left hlt] at hk
  have hpb := List.mem_takeWhile_imp (List.mem_of_getElem? hk)
  rw [hb] at hpb
  cases hpb

theorem pairwise_dollarNames (s : Bytes) : ∀ start, (dollarNames start s).Pairwise (·.stop ≤ ·.start) := by
  induction s with
  | nil => intro start; exact .nil
  | cons b s ih =>
    intro start
    rw [dollarNames]
    split
    · refine List.pairwise_cons.2 ⟨fun w hw => ?_, ih (start + 1)⟩
      -- A name ends before the next `$`, which is no word character.
      obtain ⟨k, hk, rfl⟩ := mem_dollarNames_iff_getElem?.1 hw
      have hle := length_takeWhile_le (p := isWordByte) hk (by decide)
      simp only [Word.stop, List.length_cons]
      omega
    · exact ih (start + 1)

theorem pairwise_registerNames {words : List Word} (h : words.Pairwise (·.stop ≤ ·.start)) :
    (words.flatMap registerNames).Pairwise (·.stop ≤ ·.start) := by
  rw [List.pairwise_flatMap]
  refine ⟨fun around _ => ?_, h.imp fun {v w} hvw x hx y hy => ?_⟩
  · rw [registerNames]
    split
    · exact List.pairwise_singleton _ _
    · exact pairwise_dollarNames _ _
  · have hstop : x.stop ≤ v.start + v.text.length := (standsIn_of_mem_registerNames hx).1.stop_le
    have hstart : w.start ≤ y.start := (standsIn_of_mem_registerNames hy).1.start_le
    have hvw : v.start + v.text.length ≤ w.start := hvw
    omega

/-- Of words one behind the other only one covers a column. -/
theorem eq_of_covers {words : List Word} (h : words.Pairwise (·.stop ≤ ·.start)) {v w : Word} (hv : v ∈ words)
    (hw : w ∈ words) {column : Int} (hcv : v.covers column = true) (hcw : w.covers column = true) : v = w := by
  obtain ⟨i, hi, rfl⟩ := List.mem_iff_getElem.1 hv
  obtain ⟨j, hj, rfl⟩ := List.mem_iff_getElem.1 hw
  rw [Word.covers_iff] at hcv hcw
  have hpairwise := List.pairwise_iff_getElem.1 h
  rcases Nat.lt_trichotomy i j with hij | rfl | hji
  · have := hpairwise i j hi hj hij
    omega
  · rfl
  · have := hpairwise j i hj hi hji
    omega

end Check

/-! ## What is reported of them -/

/-- A name is reported for not being a register. -/
def Finding.isInvalidRegister : Finding → Bool
  | invalidRegister _ => true
  | _ => false

namespace Check

section Lines

variable {isa : Isa} {labels : Labels} {number : Nat}

theorem filter_declaredDiagnostics (mnemonic : Word) (kinds : List Kind) (operands : List Word) :
    (declaredDiagnostics labels number mnemonic kinds operands).filter (·.finding.isInvalidRegister) = [] := by
  rw [List.filter_eq_nil_iff]
  intro d hd
  rw [declaredDiagnostics] at hd
  split at hd
  · obtain ⟨k, kind, w, -, -, -, rfl⟩ := mem_operandDiagnostics_iff.1 hd
    cases kind <;> exact Bool.false_ne_true
  · obtain rfl := List.mem_singleton.1 hd
    exact Bool.false_ne_true

theorem filter_targetDiagnostics (mnemonic : Bytes) (operands : List Word) :
    (targetDiagnostics labels number mnemonic operands).filter (·.finding.isInvalidRegister) = [] := by
  rw [List.filter_eq_nil_iff]
  intro d hd
  obtain ⟨-, target, -, -, rfl⟩ := mem_targetDiagnostics_iff.1 hd
  exact Bool.false_ne_true

theorem filter_registerDiagnostics_self (words : List Word) :
    (registerDiagnostics number words).filter (·.finding.isInvalidRegister) = registerDiagnostics number words := by
  rw [List.filter_eq_self]
  intro d hd
  obtain ⟨around, -, w, -, -, rfl⟩ := mem_registerDiagnostics_iff.1 hd
  rfl

/-- Behind a legal mnemonic names are looked at whatever the other checks find. -/
theorem filter_lineDiagnostics {line : Line} {mnemonic : Word} (hm : line.mnemonic? = some mnemonic)
    (hl : IsLegal isa mnemonic.text) :
    (lineDiagnostics isa labels number line).filter (·.finding.isInvalidRegister) =
      registerDiagnostics number line.words := by
  obtain ⟨operands, hwords⟩ := List.head?_eq_some_iff.1 hm
  have hgeneral : (generalDiagnostics labels number mnemonic operands).filter (·.finding.isInvalidRegister) =
      registerDiagnostics number (mnemonic :: operands) := by
    rw [generalDiagnostics, List.filter_append, filter_targetDiagnostics, filter_registerDiagnostics_self,
      List.append_nil]
  unfold lineDiagnostics
  rw [hwords]
  simp only
  cases hk : isa.find? mnemonic.text with
  | some kinds => simp only [List.filter_append, filter_declaredDiagnostics, hgeneral, List.nil_append]
  | none =>
    have hd : Directive.isName mnemonic.text = true := hl.resolve_left (by simp [hk])
    simp only [undeclaredDiagnostics, hd, if_true, hgeneral]

theorem line_of_mem_diagnosticsFrom {start : Nat} {lines : List Line} {d : Diagnostic}
    (h : d ∈ diagnosticsFrom isa labels start lines) : start ≤ d.line ∧ d.line < start + lines.length := by
  obtain ⟨⟨line, i⟩, hmem, hd⟩ := List.mem_flatMap.1 h
  obtain ⟨w, hline, -⟩ := isSaid_of_mem_lineDiagnostics hd
  obtain rfl : d.line = i := by rw [hline]; rfl
  obtain ⟨hle, hlt, -⟩ := List.mem_zipIdx hmem
  exact ⟨hle, hlt⟩

theorem filter_line_diagnosticsFrom_eq_nil {start i : Nat} {lines : List Line}
    (h : i < start ∨ start + lines.length ≤ i) :
    (diagnosticsFrom isa labels start lines).filter (·.line == i) = [] := by
  rw [List.filter_eq_nil_iff]
  intro d hd
  have hline := line_of_mem_diagnosticsFrom hd
  rw [beq_iff_eq]
  omega

theorem filter_line_diagnosticsFrom_singleton (i : Nat) (line : Line) :
    (diagnosticsFrom isa labels i [line]).filter (·.line == i) = lineDiagnostics isa labels i line := by
  have hself : diagnosticsFrom isa labels i [line] = lineDiagnostics isa labels i line := List.flatMap_singleton ..
  rw [← hself, List.filter_eq_self]
  intro d hd
  have hline := line_of_mem_diagnosticsFrom hd
  rw [List.length_singleton] at hline
  rw [beq_iff_eq]
  omega

end Lines

end Check

namespace Analysis

open Check

section Documents

variable (isa : Isa) {raw : List Bytes} {i : Nat} {line : Bytes}

/-- The diagnostics with the number of a line are those of the line. -/
theorem filter_line_diagnostics (hline : raw[i]? = some line) :
    (ofLines isa raw).diagnostics.filter (·.line == i) =
      lineDiagnostics isa (Labels.ofLines raw) i (Line.ofBytes line) := by
  obtain ⟨hi, rfl⟩ := List.getElem?_eq_some_iff.1 hline
  have hraw : raw.map Line.ofBytes =
      (raw.take i).map Line.ofBytes ++ ([Line.ofBytes raw[i]] ++ (raw.drop (i + 1)).map Line.ofBytes) := by
    rw [← List.map_singleton, ← List.map_append, ← List.map_append, List.singleton_append,
      ← List.drop_eq_getElem_cons hi, List.take_append_drop]
  have hlength : ((raw.take i).map Line.ofBytes).length = i := by simp [Nat.min_eq_left hi.le]
  rw [diagnostics_ofLines, hraw, diagnosticsFrom_append, diagnosticsFrom_append, List.filter_append,
    List.filter_append, hlength, Nat.zero_add, filter_line_diagnosticsFrom_singleton,
    filter_line_diagnosticsFrom_eq_nil (.inr (by omega)), filter_line_diagnosticsFrom_eq_nil (.inl (by simp)),
    List.nil_append, List.append_nil]

variable {isa} {mnemonic : Word}

/-- The invalid registers that are reported of a line. -/
theorem filter_diagnostics_eq (hline : raw[i]? = some line)
    (hm : (Line.ofBytes line).mnemonic? = some mnemonic) (hl : IsLegal isa mnemonic.text) :
    (ofLines isa raw).diagnostics.filter (fun d => d.finding.isInvalidRegister && d.line == i) =
      registerDiagnostics i (Line.ofBytes line).words := by
  rw [← List.filter_filter, filter_line_diagnostics isa hline, filter_lineDiagnostics hm hl]

end Documents

end Analysis

open Analysis Check

/-- The names of a line are looked at: every `$` in one name, and the names that are no registers reported in order. -/
structure RegistersChecked (isa : Isa) (raw : List Bytes) (i : Nat) (words : List Word) : Prop where
  /-- Reports of a line stand one behind the other. -/
  increasing : ((ofLines isa raw).diagnostics.filter fun d => d.finding.isInvalidRegister && d.line == i).Pairwise
    fun d d' => d.start < d'.start ∧ d.stop ≤ d'.start
  /-- A `$` lies in its own name and in no other. -/
  once : ∀ around ∈ words, ∀ k, around.text[k]? = some 36 → (nameAt around k).covers (around.start + k) = true ∧
    ∀ name, IsChecked words name → name.covers (around.start + k) = true → name = nameAt around k
  /-- A name is reported, at its place, just if it is no register. -/
  reported_iff : ∀ name, IsChecked words name →
    (about i name (.invalidRegister name.text) ∈ (ofLines isa raw).diagnostics ↔
      ∀ r : Register, r.name ≠ name.text)
  /-- Nothing else is reported to be an invalid register. -/
  eq_about : ∀ d ∈ (ofLines isa raw).diagnostics, d.line = i → ∀ text, d.finding = .invalidRegister text →
    ∃ name, IsChecked words name ∧ d = about i name (.invalidRegister name.text)

/-- On a line with a legal mnemonic every `$` is looked at once and reported just if its name is no register, whatever
the number and the kinds of the operands. -/
theorem registersChecked (isa : Isa) {raw : List Bytes} {i : Nat} {line : Bytes} (hline : raw[i]? = some line)
    {mnemonic : Word} (hm : (Line.ofBytes line).mnemonic? = some mnemonic) (hl : IsLegal isa mnemonic.text) :
    RegistersChecked isa raw i (Line.ofBytes line).words := by
  have hwords := (List.pairwise_append.1 (Line.pairwise_stretches line)).2.1
  have hnames := pairwise_registerNames hwords
  have hreports := filter_diagnostics_eq hline hm hl
  have hmem {d : Diagnostic} (hf : d.finding.isInvalidRegister = true) (hi : d.line = i) :
      d ∈ (ofLines isa raw).diagnostics ↔ ∃ name, IsChecked (Line.ofBytes line).words name ∧
        ¬ Register.isName name.text = true ∧ d = about i name (.invalidRegister name.text) := by
    have hfilter : d ∈ (ofLines isa raw).diagnostics ↔
        d ∈ registerDiagnostics i (Line.ofBytes line).words := by
      rw [← hreports, List.mem_filter]
      simp [hf, hi]
    simp only [hfilter, mem_registerDiagnostics_iff, isChecked_iff, List.mem_flatMap]
    constructor
    · rintro ⟨around, ha, name, hn, hr, rfl⟩
      exact ⟨name, ⟨around, ha, hn⟩, hr, rfl⟩
    · rintro ⟨name, ⟨around, ha, hn⟩, hr, rfl⟩
      exact ⟨around, ha, name, hn, hr, rfl⟩
  refine ⟨?_, fun around ha k hk => ⟨covers_nameAt hk, fun name hname hc => ?_⟩, fun name hname => ?_,
    fun d hd hi text hf => ?_⟩
  · rw [hreports, registerDiagnostics, List.pairwise_map]
    refine (hnames.filter _).imp_of_mem fun {v w} hv _ hvw => ⟨?_, hvw⟩
    obtain ⟨around, -, hv⟩ := List.mem_flatMap.1 (List.mem_filter.1 hv).1
    obtain ⟨tail, htail⟩ := List.head?_eq_some_iff.1 (standsIn_of_mem_registerNames hv).2
    have hvw : v.start + v.text.length ≤ w.start := hvw
    rw [htail, List.length_cons] at hvw
    show v.start < w.start
    omega
  · exact eq_of_covers hnames (isChecked_iff.1 hname) (isChecked_iff.1 ⟨around, ha, k, hk, rfl⟩) hc (covers_nameAt hk)
  · rw [hmem rfl rfl]
    have hregister : (∀ r : Register, r.name ≠ name.text) ↔ ¬ Register.isName name.text = true := by
      rw [Register.isName_iff, not_exists]
    rw [hregister]
    constructor
    · rintro ⟨name', -, hr, heq⟩
      obtain ⟨-, -, -, hf⟩ := Diagnostic.mk.inj heq
      rwa [Finding.invalidRegister.inj hf]
    · exact fun hr => ⟨name, hname, hr, rfl⟩
  · obtain ⟨name, hname, -, heq⟩ := (hmem (by rw [hf]; rfl) hi).1 hd
    exact ⟨name, hname, heq⟩

/-- Names that begin words and names within one, on a line with a label and with operands of wrong kinds. -/
def manyNames : Bytes := utf8 "go: lw $t0$, 4($sp)x$é$q"

theorem registersChecked_manyNames :
    RegistersChecked Isa.default [manyNames] 0 (Line.ofBytes manyNames).words ∧
      ⟨0, 23, 25, .invalidRegister (utf8 "$q")⟩ ∈ (ofLines Isa.default [manyNames]).diagnostics ∧
      ⟨0, 15, 18, .invalidRegister (utf8 "$sp")⟩ ∉ (ofLines Isa.default [manyNames]).diagnostics := by
  have hwords : (Line.ofBytes manyNames).words =
      [⟨utf8 "lw", 4⟩, ⟨utf8 "$t0$", 7⟩, ⟨utf8 "4($sp)x$é$q", 13⟩] := by decide +kernel
  have hline : [manyNames][0]? = some manyNames := rfl
  have hm : (Line.ofBytes manyNames).mnemonic? = some ⟨utf8 "lw", 4⟩ := by rw [Line.mnemonic?, hwords]; rfl
  have h := registersChecked Isa.default hline hm (.inl (by decide +kernel))
  have hq : IsChecked (Line.ofBytes manyNames).words ⟨utf8 "$q", 23⟩ := by
    rw [hwords]
    exact ⟨_, .tail _ (.tail _ (.head _)), 10, by decide +kernel⟩
  have hsp : IsChecked (Line.ofBytes manyNames).words ⟨utf8 "$sp", 15⟩ := by
    rw [hwords]
    exact ⟨_, .tail _ (.tail _ (.head _)), 2, by decide +kernel⟩
  refine ⟨h, (h.reported_iff _ hq).2 fun r => ?_, fun hd => (h.reported_iff _ hsp).1 hd .stack ?_⟩
  · cases r <;> decide
  · decide

end AsmLens
