import AsmLens.Server.Session
import Mathlib.Data.List.Induction

/-!
# Runs of a session

A run takes messages one after the other, each with the files as they are when it is taken, and collects what the server
does. What holds of the fresh session and is kept by every message holds after every run (`run_induction`). A message
is refused (`receive_of_error`) or carried out (`receive_of_ok`).

Every event has one purpose (`Event.purpose`), and each part of a session sends events for few of them (`OnlyFor`): a
reload writes to the log or tells the user how it went (`onlyFor_reload`), `publishAll` only publishes
(`onlyFor_publishAll`), and so on. A view that sees the events for one purpose (`Sees`) finds nothing in the others
(`Sees.eq_none`).

What was published last for a document is such a view (`lastPublished?`). `publishAll` publishes every assembly document
once (`lastPublished?_publishAll`). A reload takes the built-in table where no file is named (`reload_of_eq_nil`), the
table of the file (`reload_of_ok`), or the built-in one after a failure (`reload_of_error`), and changes nothing but the
active table (`reload_fst`).
-/

namespace AsmLens.Server

namespace Session

/-- A message, with what reading a file gives at the time. -/
abbrev Step := Files.Reader × Message

/-- Takes messages one after the other. -/
def run (s : Session) : List Step → Session × List Event
  | [] => (s, [])
  | (read, m) :: rest =>
    let (s, events) := s.receive read m
    let (s, later) := run s rest
    (s, events ++ later)

/-- The last message of a run is taken where the run before it ended. -/
theorem run_concat (steps : List Step) (read : Files.Reader) (m : Message) : ∀ s : Session,
    s.run (steps ++ [(read, m)]) =
      (((s.run steps).1.receive read m).1, (s.run steps).2 ++ ((s.run steps).1.receive read m).2) := by
  induction steps with
  | nil => intro s; simp [run]
  | cons step steps ih =>
    intro s
    simp only [List.cons_append, run, ih, List.append_assoc]

/-- A property of the history, the session and what was sent that every message keeps. -/
theorem run_induction {motive : List Message → Session → List Event → Prop} {s : Session} (start : motive [] s [])
    (step : ∀ (history : List Message) (s : Session) (events : List Event) (read : Files.Reader) (m : Message),
      motive history s events → motive (history ++ [m]) (s.receive read m).1 (events ++ (s.receive read m).2))
    (steps : List Step) : motive (steps.map (·.2)) (s.run steps).1 (s.run steps).2 := by
  induction steps using List.reverseRecOn with
  | nil => exact start
  | append_singleton steps last ih =>
    rw [run_concat, List.map_append]
    exact step _ _ _ last.1 last.2 ih

/-! ## Messages -/

/-- Another check of a document changes nothing but documents. -/
theorem checkDocument_eq_mk (s : Session) (uri : Bytes) :
    s.checkDocument uri = { s with documents := (s.checkDocument uri).documents } := by
  unfold checkDocument
  split <;> rfl

@[simp]
theorem take_message (read : Files.Reader) (s : Session) (m : Message) :
    s.take read (.message m) = s.receive read m := rfl

section

variable {read : Files.Reader} {s : Session} {m : Message}

theorem receiveWith_of_error {publishAll : Session → Session × List Event} {refusal : Refusal}
    (h : Request.ofMessage m = .error refusal) :
    s.receiveWith publishAll read m = (s, Event.note (utf8 "received request: " ++ m.method) :: refuse m refusal) := by
  simp only [receiveWith, h]

theorem receiveWith_of_ok {publishAll : Session → Session × List Event} {request : Request}
    (h : Request.ofMessage m = .ok request) :
    s.receiveWith publishAll read m = ((s.handleWith publishAll read (m.id.getD (.number 0)) request).1,
      Event.note (utf8 "received request: " ++ m.method) ::
        (s.handleWith publishAll read (m.id.getD (.number 0)) request).2) := by
  simp only [receiveWith, h]

theorem receive_of_error {refusal : Refusal} (h : Request.ofMessage m = .error refusal) :
    s.receive read m = (s, Event.note (utf8 "received request: " ++ m.method) :: refuse m refusal) :=
  receiveWith_of_error h

theorem receive_of_ok {request : Request} (h : Request.ofMessage m = .ok request) :
    s.receive read m = ((s.handle read (m.id.getD (.number 0)) request).1,
      Event.note (utf8 "received request: " ++ m.method) :: (s.handle read (m.id.getD (.number 0)) request).2) :=
  receiveWith_of_ok h

end

end Session

/-! ## What events are for -/

/-- What an event is for. -/
inductive Purpose
  | entry
  | answer
  | publication
  | notice
  | registration
  | farewell
deriving DecidableEq

def Event.purpose : Event → Purpose
  | .log _ => .entry
  | .send (.result ..) | .send (.refusal ..) => .answer
  | .send (.publish ..) => .publication
  | .send (.notify ..) => .notice
  | .send (.register _) => .registration
  | .hangUp => .farewell

namespace Event

@[simp]
theorem purpose_note (line : Bytes) : (note line).purpose = .entry := rfl

@[simp]
theorem purpose_result (id : Id) (r : Result) : (send (.result id r)).purpose = .answer := rfl

@[simp]
theorem purpose_refusal (id : Id) (r : Refusal) : (send (.refusal id r)).purpose = .answer := rfl

@[simp]
theorem purpose_publish (uri : Bytes) (version : Int) (diagnostics : List Diagnostic) :
    (send (.publish uri version diagnostics)).purpose = .publication := rfl

@[simp]
theorem purpose_notify (notice : Notice) (text : Bytes) : (send (.notify notice text)).purpose = .notice := rfl

@[simp]
theorem purpose_register (n : Nat) : (send (.register n)).purpose = .registration := rfl

end Event

/-- All events are for one of these purposes. -/
def OnlyFor (purposes : List Purpose) (events : List Event) : Prop := ∀ e ∈ events, e.purpose ∈ purposes

theorem OnlyFor.purpose_ne {purposes : List Purpose} {events : List Event} (h : OnlyFor purposes events)
    {purpose : Purpose} (hp : purpose ∉ purposes) {e : Event} (he : e ∈ events) : e.purpose ≠ purpose := by
  rintro rfl
  exact hp (h e he)

/-- A view of the events sees those for one purpose at most. -/
def Sees {α : Type} (purpose : Purpose) (view : Event → Option α) : Prop := ∀ e, e.purpose ≠ purpose → view e = none

/-- A view finds nothing among events for other purposes. -/
theorem Sees.eq_none {α : Type} {purpose : Purpose} {view : Event → Option α} (h : Sees purpose view)
    {purposes : List Purpose} {events : List Event} (he : OnlyFor purposes events) (hp : purpose ∉ purposes) :
    ∀ e ∈ events, view e = none := by
  intro e hmem
  exact h e (he.purpose_ne hp hmem)

namespace Session

theorem onlyFor_reload (read : Files.Reader) (s : Session) : OnlyFor [.entry, .notice] (s.reload read).2 := by
  unfold reload
  simp only
  split
  · simp [OnlyFor]
  · split <;> simp [OnlyFor]

theorem onlyFor_rootOf (rootUri rootPath : Bytes) : OnlyFor [.entry] (rootOf rootUri rootPath).2 := by
  unfold rootOf
  split
  · simp [OnlyFor]
  · split <;> simp [OnlyFor]

theorem onlyFor_publishAll (s : Session) : OnlyFor [.publication] s.publishAll.2 := by
  intro e he
  obtain ⟨_, _, rfl⟩ := List.mem_map.1 he
  exact List.mem_singleton.2 rfl

theorem onlyFor_refuse (m : Message) (refusal : Refusal) : OnlyFor [.entry, .answer] (refuse m refusal) := by
  unfold refuse
  cases m.id <;> cases refusal <;> simp [OnlyFor]

end Session

/-! ## Publications -/

/-- The version and the diagnostics that an event publishes for a document. -/
def Event.published? (uri : Bytes) : Event → Option (Int × List Diagnostic)
  | .send (.publish u version diagnostics) => if u = uri then some (version, diagnostics) else none
  | _ => none

/-- The version and the diagnostics that were published last for a document. -/
def lastPublished? (uri : Bytes) (events : List Event) : Option (Int × List Diagnostic) :=
  events.reverse.findSome? (Event.published? uri)

@[simp]
theorem lastPublished?_nil (uri : Bytes) : lastPublished? uri [] = none := rfl

@[simp]
theorem lastPublished?_singleton (uri : Bytes) (e : Event) : lastPublished? uri [e] = e.published? uri := by
  simp [lastPublished?]

@[simp]
theorem lastPublished?_append (uri : Bytes) (es es' : List Event) :
    lastPublished? uri (es ++ es') = (lastPublished? uri es').or (lastPublished? uri es) := by
  simp [lastPublished?, List.findSome?_append]

@[simp]
theorem lastPublished?_cons (uri : Bytes) (e : Event) (es : List Event) :
    lastPublished? uri (e :: es) = (lastPublished? uri es).or (e.published? uri) := by
  rw [← List.singleton_append, lastPublished?_append, lastPublished?_singleton]

@[simp]
theorem Event.published?_publish (uri u : Bytes) (version : Int) (diagnostics : List Diagnostic) :
    (send (.publish u version diagnostics)).published? uri = if u = uri then some (version, diagnostics) else none :=
  rfl

theorem sees_published? (uri : Bytes) : Sees .publication (Event.published? uri) := by
  intro e he
  unfold Event.published?
  split
  · exact absurd rfl he
  · rfl

@[simp]
theorem Event.published?_of_ne {e : Event} (h : ¬ e.purpose = .publication) (uri : Bytes) : e.published? uri = none :=
  sees_published? uri e h

/-- Nothing is published by events for other purposes. -/
theorem OnlyFor.lastPublished?_eq_none {purposes : List Purpose} {events : List Event} (h : OnlyFor purposes events)
    (hp : Purpose.publication ∉ purposes) (uri : Bytes) : lastPublished? uri events = none := by
  rw [lastPublished?, List.findSome?_eq_none_iff]
  intro e he
  exact (sees_published? uri).eq_none h hp e (List.mem_reverse.1 he)

namespace Session

/-- What `publishAll` publishes for a document. -/
theorem lastPublished?_publishAll (s : Session) (uri : Bytes) :
    lastPublished? uri s.publishAll.2 =
      (s.documents.find? uri).bind fun d =>
        if d.isAssembly then some (d.version, d.diagnostics s.active.isa) else none := by
  have hmem {d : Document} : (uri, d) ∈ s.documents.entries ↔ s.documents.find? uri = some d :=
    (s.documents.find?_eq_some_iff).symm
  cases hl : lastPublished? uri s.publishAll.2 with
  | some p =>
    obtain ⟨e, he, hp⟩ := List.exists_of_findSome?_eq_some hl
    obtain ⟨⟨u, d⟩, hd, rfl⟩ := List.mem_map.1 (List.mem_reverse.1 he)
    obtain ⟨hd, ha⟩ := List.mem_filter.1 hd
    rw [Event.published?_publish] at hp
    split at hp
    · next hu =>
      subst hu
      rw [hmem.1 hd, ← hp]
      simp [ha]
    · cases hp
  | none =>
    rw [eq_comm, Option.bind_eq_none_iff]
    intro d hd
    split
    · next ha =>
      have := List.findSome?_eq_none_iff.1 hl _ (List.mem_reverse.2
        (List.mem_map_of_mem (List.mem_filter.2 ⟨hmem.2 hd, ha⟩)))
      simp at this
    · rfl

/-! ## Reloads -/

section

variable {read : Files.Reader} {s : Session}

theorem reload_of_eq_nil (hp : Path.resolve s.root s.setting = []) :
    s.reload read = ({ s with active := .builtIn }, [Event.note (utf8 "using the default instruction table")]) := by
  simp [reload, hp]

theorem reload_of_ok (hp : Path.resolve s.root s.setting ≠ []) {isa : Isa}
    (hl : Isa.load read (Path.resolve s.root s.setting) = .ok isa) :
    s.reload read = ({ s with active := ⟨isa, Path.resolve s.root s.setting⟩ },
      [.send (.notify .info (utf8 "Loaded ISA specs from: " ++ s.setting))]) := by
  simp [reload, Active.load, hp, hl]

theorem reload_of_error (hp : Path.resolve s.root s.setting ≠ []) {e : LoadError}
    (hl : Isa.load read (Path.resolve s.root s.setting) = .error e) :
    s.reload read = ({ s with active := .builtIn },
      [.send (.notify .error (utf8 "Failed to load ISA file: " ++ e.summary))]) := by
  simp [reload, Active.load, hp, hl]

end

/-- A reload changes nothing but the active table. -/
theorem reload_fst (read : Files.Reader) (s : Session) :
    (s.reload read).1 = { s with active := (s.reload read).1.active } := by
  unfold reload
  simp only
  split
  · rfl
  · split <;> rfl

@[simp]
theorem documents_reload (read : Files.Reader) (s : Session) : (s.reload read).1.documents = s.documents := by
  rw [reload_fst]

@[simp]
theorem lastPublished?_reload (read : Files.Reader) (s : Session) (uri : Bytes) :
    lastPublished? uri (s.reload read).2 = none :=
  (onlyFor_reload read s).lastPublished?_eq_none (by decide) uri

@[simp]
theorem lastPublished?_rootOf (rootUri rootPath uri : Bytes) :
    lastPublished? uri (rootOf rootUri rootPath).2 = none :=
  (onlyFor_rootOf rootUri rootPath).lastPublished?_eq_none (by decide) uri

end Session

end AsmLens.Server
