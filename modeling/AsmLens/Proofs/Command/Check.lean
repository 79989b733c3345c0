import AsmLens.Command.Run
import AsmLens.Proofs.Check.Place

/-!
# What `check` reports

Files are checked in order up to the first that cannot be read (`ReadsUpTo`). `diagnosticsOf` is what there is to report
about the files before it; that and nothing else is found (`fileDiagnostics_eq`). A message quotes words, kinds and
numbers, none of which has a line feed in it (`Check.Says.lineFeed_not_mem`), so each diagnostic is one line of output
if no path has one either.

* `isReport_checkFiles`: output, exit status and number of errors for a table that was loaded.
* `isReport_run`: the same for every command line that asks for files to be checked, in whatever way its flags are
  written. How they are told apart from the files is left open, and that there is such a command line is known of the
  rules in `Command.Flags`.
-/

namespace AsmLens

/-! ## Messages on one line -/

theorem Bytes.lineFeed_not_mem_decimal (n : Nat) : 10 ∉ decimal n :=
  fun h => absurd (isDigit_of_mem_decimal h) (by decide)

theorem Kind.lineFeed_not_mem_name (k : Kind) : 10 ∉ k.name := by cases k <;> decide

theorem Severity.lineFeed_not_mem_name (s : Severity) : 10 ∉ s.name := by cases s <;> decide

theorem Line.lineFeed_not_mem_word {raw : Bytes} {w : Word} (h : w ∈ (Line.ofBytes raw).words) : 10 ∉ w.text := by
  intro hfeed
  have hseparator := Source.not_isSeparator_of_mem_runs (Source.mem_runs_of_mem_words h) 10 hfeed
  exact absurd hseparator (by decide)

theorem Check.Says.lineFeed_not_mem {raw : Bytes} {w : Word} {finding : Finding} {message : Bytes}
    (h : Says (Line.ofBytes raw) w finding message) : 10 ∉ message := by
  obtain ⟨around, ha, hin, -⟩ := h.inWord
  have hw : 10 ∉ w.text := fun hfeed => Line.lineFeed_not_mem_word ha (hin.subset hfeed)
  have hnumber := Bytes.lineFeed_not_mem_decimal
  cases h with
  | illegalMnemonic _ => exact List.not_mem_append (by decide) hw
  | operandCount _ _ _ =>
    simp only [List.mem_append, not_or]
    exact ⟨⟨⟨⟨⟨by decide, hnumber _⟩, by decide⟩, hw⟩, by decide⟩, hnumber _⟩
  | operandKind kind _ _ _ =>
    have hformat : (10 : UInt8) ∉ if kind = .based then utf8 " format" else [] := by cases kind <;> decide
    simp only [List.mem_append, not_or]
    exact ⟨⟨⟨⟨⟨⟨⟨by decide, kind.lineFeed_not_mem_name⟩, hformat⟩, by decide⟩, hnumber _⟩, by decide⟩, hw⟩, by decide⟩
  | expectedLabel _ _ =>
    simp only [List.mem_append, not_or]
    exact ⟨⟨⟨⟨by decide, hnumber _⟩, by decide⟩, hw⟩, by decide⟩
  | invalidRegister _ _ _ _ => exact List.not_mem_append (by decide) hw
  | undefinedLabel _ => exact List.not_mem_append (by decide) hw

theorem Analysis.lineFeed_not_mem_message {isa : Isa} {text : Bytes} {d : Diagnostic}
    (h : d ∈ (ofText isa text).diagnostics) : 10 ∉ d.message := by
  obtain ⟨line, -, hd⟩ := exists_of_mem_diagnostics isa (Source.lines text) h
  obtain ⟨w, -, hsays⟩ := Check.isSaid_of_mem_lineDiagnostics hd
  exact hsays.lineFeed_not_mem

namespace Command

/-! ## Files read in order -/

/-- The files before the first that cannot be read, with their contents, and the paths from that one on. -/
structure ReadsUpTo (read : Files.Reader) (paths : List Bytes) (files : List (Bytes × Bytes)) (rest : List Bytes) :
    Prop where
  paths_eq : paths = files.map (·.1) ++ rest
  readable : ∀ f ∈ files, read f.1 = .ok f.2
  stops : ∀ path ∈ rest.head?, ∃ reason, read path = .error reason

section Reading

variable {read : Files.Reader} {paths : List Bytes} {files : List (Bytes × Bytes)} {rest : List Bytes}

theorem exists_readsUpTo (read : Files.Reader) (paths : List Bytes) :
    ∃ files rest, ReadsUpTo read paths files rest := by
  induction paths with
  | nil => exact ⟨[], [], rfl, by simp, by simp⟩
  | cons path paths ih =>
    cases hread : read path with
    | error reason => exact ⟨[], path :: paths, rfl, by simp, by simpa using ⟨reason, hread⟩⟩
    | ok text =>
      obtain ⟨files, rest, rfl, hfiles, hstops⟩ := ih
      exact ⟨(path, text) :: files, rest, rfl, by simpa [hread] using hfiles, hstops⟩

/-- Nothing is left just if every file can be read. -/
theorem ReadsUpTo.rest_eq_nil_iff (h : ReadsUpTo read paths files rest) :
    rest = [] ↔ ∀ path ∈ paths, ∃ text, read path = .ok text := by
  obtain ⟨rfl, hfiles, hstops⟩ := h
  constructor
  · rintro rfl path hpath
    rw [List.append_nil] at hpath
    obtain ⟨f, hf, rfl⟩ := List.mem_map.1 hpath
    exact ⟨f.2, hfiles f hf⟩
  · intro hall
    cases rest with
    | nil => rfl
    | cons path rest =>
      obtain ⟨reason, herror⟩ := hstops path rfl
      obtain ⟨text, hok⟩ := hall path (by simp)
      rw [herror] at hok
      cases hok

/-! ## What is found -/

/-- Everything there is to report about files, in order, with the path it belongs to. -/
def diagnosticsOf (isa : Isa) (files : List (Bytes × Bytes)) : List (Bytes × Diagnostic) :=
  files.flatMap fun f => (Analysis.ofText isa f.2).diagnostics.map (f.1, ·)

theorem fileDiagnostics_eq (h : ReadsUpTo read paths files rest) (isa : Isa) :
    (fileDiagnostics read isa paths).1 = diagnosticsOf isa files ∧
      ((fileDiagnostics read isa paths).2 = none ↔ rest = []) := by
  obtain ⟨rfl, hfiles, hstops⟩ := h
  induction files with
  | nil =>
    cases rest with
    | nil => simp [fileDiagnostics, diagnosticsOf]
    | cons path rest =>
      obtain ⟨reason, hread⟩ := hstops path rfl
      simp [fileDiagnostics, diagnosticsOf, hread]
  | cons f files ih =>
    obtain ⟨hfound, hfailure⟩ := ih fun g hg => hfiles g (List.mem_cons_of_mem _ hg)
    have hread := hfiles f List.mem_cons_self
    refine ⟨?_, ?_⟩
    · simp only [List.map_cons, List.cons_append, fileDiagnostics, hread, hfound]
      rfl
    · simpa only [List.map_cons, List.cons_append, fileDiagnostics, hread] using hfailure

/-! ## Outcomes -/

/-- The text of a diagnostic in the output: the path, the line and the column counted from 1, the severity and the
message. -/
def reportText (path : Bytes) (d : Diagnostic) : Bytes :=
  path ++ utf8 ":" ++ Bytes.decimal (d.line + 1) ++ utf8 ":" ++ Bytes.decimal (d.start + 1) ++ utf8 ": " ++
    d.severity.name ++ utf8 ": " ++ d.message

/-- How many of some diagnostics are errors. -/
def errorCount (found : List (Bytes × Diagnostic)) : Nat := found.countP fun p => p.2.severity == .error

theorem Outcome.status_cases (o : Outcome) : o.status = 0 ∨ o.status = 1 := by
  rw [status]
  split
  · exact .inr rfl
  · exact .inl rfl

/-- The outcome of checking files against a table. -/
structure IsReport (read : Files.Reader) (isa : Isa) (paths : List Bytes) (files : List (Bytes × Bytes)) (o : Outcome) :
    Prop where
  /-- The output is one text and line feed for each diagnostic, in order. -/
  output_eq : o.output = (diagnosticsOf isa files).flatMap fun p => reportText p.1 p.2 ++ [10]
  /-- Neither message nor text has a line feed in it. -/
  oneLine : ∀ p ∈ diagnosticsOf isa files, 10 ∉ p.2.message ∧ 10 ∉ reportText p.1 p.2
  status_eq_zero_iff : o.status = 0 ↔
    (∀ path ∈ paths, ∃ text, read path = .ok text) ∧ ∀ p ∈ diagnosticsOf isa files, p.2.severity ≠ .error
  status_cases : o.status = 0 ∨ o.status = 1
  /-- If every file was read a failure tells the number of errors. -/
  errors_eq : (∀ path ∈ paths, ∃ text, read path = .ok text) → o.status = 1 →
    o.errors = utf8 "Error: " ++ Bytes.decimal (errorCount (diagnosticsOf isa files)) ++ utf8 " error(s)\n"

theorem lineFeed_not_mem_reportText {path : Bytes} {d : Diagnostic} (hpath : 10 ∉ path) (hd : 10 ∉ d.message) :
    10 ∉ reportText path d := by
  have hnumber := Bytes.lineFeed_not_mem_decimal
  simp only [reportText, List.mem_append, not_or]
  exact ⟨⟨⟨⟨⟨⟨⟨⟨hpath, by decide⟩, hnumber _⟩, by decide⟩, hnumber _⟩, by decide⟩,
    d.severity.lineFeed_not_mem_name⟩, by decide⟩, hd⟩

theorem oneLine_diagnosticsOf (h : ReadsUpTo read paths files rest) (hfeed : ∀ path ∈ paths, 10 ∉ path) (isa : Isa) :
    ∀ p ∈ diagnosticsOf isa files, 10 ∉ p.2.message ∧ 10 ∉ reportText p.1 p.2 := by
  intro p hp
  obtain ⟨f, hf, hp⟩ := List.mem_flatMap.1 hp
  obtain ⟨d, hd, rfl⟩ := List.mem_map.1 hp
  have hpath : f.1 ∈ paths := by
    rw [h.paths_eq]
    exact List.mem_append_left _ (List.mem_map_of_mem hf)
  have hmessage := Analysis.lineFeed_not_mem_message hd
  exact ⟨hmessage, lineFeed_not_mem_reportText (hfeed _ hpath) hmessage⟩

theorem errorCount_eq_zero_iff {found : List (Bytes × Diagnostic)} :
    errorCount found = 0 ↔ ∀ p ∈ found, p.2.severity ≠ .error := by
  simp [errorCount, List.countP_eq_zero]

theorem diagnosticLine_eq (path : Bytes) (d : Diagnostic) : diagnosticLine path d = reportText path d ++ [10] := rfl

/-- The outcome by what was found and by the file that could not be read. -/
theorem checkFiles_eq (read : Files.Reader) (isa : Isa) (paths : List Bytes) {found : List (Bytes × Diagnostic)}
    {failure : Option Bytes} (h : fileDiagnostics read isa paths = (found, failure)) :
    checkFiles read isa paths = ⟨found.flatMap fun p => reportText p.1 p.2 ++ [10],
      failure.or (if errorCount found = 0 then none
        else some (Bytes.decimal (errorCount found) ++ utf8 " error(s)"))⟩ := by
  simp only [checkFiles, h, diagnosticLine_eq, errorCount, List.countP_eq_length_filter]
  cases failure with
  | some message => rfl
  | none =>
    simp only [Option.none_or]
    split <;> rfl

theorem isReport_checkFiles (h : ReadsUpTo read paths files rest) (hfeed : ∀ path ∈ paths, 10 ∉ path) (isa : Isa) :
    IsReport read isa paths files (checkFiles read isa paths) := by
  obtain ⟨hfound, hfailure⟩ := fileDiagnostics_eq h isa
  rw [h.rest_eq_nil_iff] at hfailure
  obtain ⟨failure, hf⟩ : ∃ failure, fileDiagnostics read isa paths = (diagnosticsOf isa files, failure) :=
    ⟨_, Prod.ext hfound rfl⟩
  rw [hf] at hfailure
  rw [checkFiles_eq read isa paths hf]
  refine ⟨rfl, oneLine_diagnosticsOf h hfeed isa, ?_, Outcome.status_cases _, ?_⟩
  · rw [← hfailure, ← errorCount_eq_zero_iff]
    cases failure <;> simp [Outcome.status]
  · intro hall hstatus
    obtain rfl := hfailure.2 hall
    by_cases hzero : errorCount (diagnosticsOf isa files) = 0
    · simp [Outcome.status, hzero] at hstatus
    · have hend : utf8 " error(s)" ++ utf8 "\n" = utf8 " error(s)\n" := by decide
      simp [Outcome.errors, hzero, hend]

end Reading

/-! ## Command lines -/

/-- Arguments that, told apart by `parse`, ask for files to be checked against the table of a file, if one is named. -/
def Asks (parse : FlagReader) (isaPath : Option Bytes) (paths arguments : List Bytes) : Prop :=
  ∃ options, parse Name.check.flags arguments = .ok (options, paths) ∧ options.isa = isaPath.getD [] ∧
    options.help = false

/-- A command line that asks for files to be checked, whatever their names. -/
def commandLine (isaPath : Option Bytes) (paths : List Bytes) : List Bytes :=
  (isaPath.elim [] fun path => [utf8 "--isa", path]) ++ utf8 "--" :: paths

theorem asks_commandLine (isaPath : Option Bytes) (paths : List Bytes) :
    Asks parseFlags isaPath paths (commandLine isaPath paths) := by
  cases isaPath with
  | none => exact ⟨Options.none, rfl, rfl, rfl⟩
  | some path => exact ⟨{ Options.none with isa := path }, rfl, rfl, rfl⟩

theorem runWith_of_asks {parse : FlagReader} {isaPath : Option Bytes} {paths arguments : List Bytes}
    (h : Asks parse isaPath paths arguments) (hne : paths ≠ []) (read : Files.Reader) :
    runWith parse read .check arguments = check read (isaPath.getD []) paths := by
  obtain ⟨options, hflags, hisa, hhelp⟩ := h
  obtain ⟨path, paths, rfl⟩ := List.exists_cons_of_ne_nil hne
  simp only [runWith, hflags, hhelp, hisa, Bool.false_eq_true, if_false]

/-- Files can be asked to be checked. Whoever asks for it, however arguments are told apart, gets this: no output and a
failure if the table cannot be loaded, and otherwise the report on the files before the first that cannot be read. -/
theorem isReport_run (read : Files.Reader) (isaPath : Option Bytes) {paths : List Bytes} (hne : paths ≠ [])
    (hfeed : ∀ path ∈ paths, 10 ∉ path) :
    Asks parseFlags isaPath paths (commandLine isaPath paths) ∧ ∀ parse arguments, Asks parse isaPath paths arguments →
      (∀ e, table read (isaPath.getD []) = .error e →
        (runWith parse read .check arguments).output = [] ∧ (runWith parse read .check arguments).status = 1) ∧
      ∀ isa, table read (isaPath.getD []) = .ok isa → ∃ files rest, ReadsUpTo read paths files rest ∧
        IsReport read isa paths files (runWith parse read .check arguments) := by
  refine ⟨asks_commandLine isaPath paths, fun parse arguments hasks => ?_⟩
  rw [runWith_of_asks hasks hne]
  refine ⟨fun e he => ?_, fun isa hisa => ?_⟩
  · simp only [check, he]
    exact ⟨rfl, rfl⟩
  · obtain ⟨files, rest, hreads⟩ := exists_readsUpTo read paths
    refine ⟨files, rest, hreads, ?_⟩
    simp only [check, hisa]
    exact isReport_checkFiles hreads hfeed isa

/-- A file with a warning and an error on its second line, and no other file. -/
def lone : Files.Reader := fun path =>
  if path = utf8 "-bad.s" then .ok (utf8 "halt\n  lea $t0, NOWHERE\n") else .error .noEntry

theorem isReport_run_lone :
    (∃ files rest, ReadsUpTo lone [utf8 "-bad.s", utf8 "gone.s"] files rest ∧
      IsReport lone Isa.default [utf8 "-bad.s", utf8 "gone.s"] files
        (run lone .check [utf8 "--", utf8 "-bad.s", utf8 "gone.s"])) ∧
      (run lone .check [utf8 "--", utf8 "-bad.s", utf8 "gone.s"]).output =
        utf8 "-bad.s:2:12: warning: Expected label at position 2, got 'NOWHERE'\n" ++
          utf8 "-bad.s:2:12: error: Undefined label: NOWHERE\n" := by
  have hfeed : ∀ path ∈ [utf8 "-bad.s", utf8 "gone.s"], 10 ∉ path := by decide +kernel
  obtain ⟨hasks, hreport⟩ := isReport_run lone none (by decide) hfeed
  exact ⟨(hreport _ _ hasks).2 Isa.default rfl, by decide +kernel⟩

end Command

end AsmLens
