import AsmLens.Proofs.Server.Run
import Mathlib.Tactic.ByContra

/-!
# What the client sees

The history of a conversation alone tells which documents are open and what they hold (`held?`): the language is that of
the last opening since the last closing, the text and the version are those of that opening or of the last change since.
As long as the client keeps two promises (`IsOrderly`), the session agrees with the history after every message: what
was published last for a document, what a request for its diagnostics answers and what a hover is answered from are all
the check of the text that the history tells against the table that is now active (`inSync_run`).

The invariant behind this is `Invariant`. A message that opens or changes one document restores it for that one
(`Invariant.insert`), and so does one that closes it (`Invariant.close`); one that changes the table restores it by
checking every document again (`Invariant.publishAll`), and all others leave it alone (`Invariant.quiet`).
-/

namespace AsmLens.Server

/-! ## What the history tells -/

/-- An open document as its client knows it. -/
structure Held where
  language : Bytes
  version : Int
  text : Bytes
deriving DecidableEq

namespace Held

/-- What a check of the document gives; nothing in another language. -/
def analysis? (isa : Isa) (d : Held) : Option Analysis :=
  if d.language = assemblyLanguage then some (Analysis.ofText isa d.text) else none

end Held

/-- What a request makes of a document that it finds as it is given; nothing stands for one that is not open. -/
def heldBy? (uri : Bytes) (before : Option Held) : Request → Option Held
  | .open u language version text => if u = uri then some ⟨language, version, text⟩ else before
  | .close u => if u = uri then none else before
  | .change u version texts =>
    if u = uri then
      match texts.getLast? with
      | some text => before.map fun d => { d with version, text }
      | none => before
    else before
  | _ => before

/-- What a message makes of a document; one that is refused changes nothing. -/
def heldAfter? (uri : Bytes) (m : Message) (before : Option Held) : Option Held :=
  match Request.ofMessage m with
  | .ok request => heldBy? uri before request
  | .error _ => before

/-- What a history, the latest message first, tells of a document. -/
def heldFrom? (uri : Bytes) : List Message → Option Held
  | [] => none
  | m :: earlier => heldAfter? uri m (heldFrom? uri earlier)

/-- What a history tells of a document; nothing if it is not open. -/
def held? (uri : Bytes) (history : List Message) : Option Held := heldFrom? uri history.reverse

@[simp]
theorem held?_nil (uri : Bytes) : held? uri [] = none := rfl

@[simp]
theorem held?_concat (uri : Bytes) (history : List Message) (m : Message) :
    held? uri (history ++ [m]) = heldAfter? uri m (held? uri history) := by
  simp [held?, heldFrom?]

theorem held?_concat_of_ok {history : List Message} {m : Message} {request : Request}
    (h : Request.ofMessage m = .ok request) (uri : Bytes) :
    held? uri (history ++ [m]) = heldBy? uri (held? uri history) request := by
  simp only [held?_concat, heldAfter?, h]

theorem held?_concat_of_error {history : List Message} {m : Message} {refusal : Refusal}
    (h : Request.ofMessage m = .error refusal) (uri : Bytes) : held? uri (history ++ [m]) = held? uri history := by
  simp only [held?_concat, heldAfter?, h]

/-- What a client promises of a message at the end of a history: a workspace is opened while no assembly document is,
and a document is opened while it is not open. -/
def IsPromised (history : List Message) (m : Message) : Prop :=
  match Request.ofMessage m with
  | .ok (.start ..) => ∀ uri d, held? uri history = some d → d.language ≠ assemblyLanguage
  | .ok (.open uri ..) => held? uri history = none
  | _ => True

/-- The client keeps its promises with every message. -/
def IsOrderly (history : List Message) : Prop :=
  ∀ earlier m later, history = earlier ++ m :: later → IsPromised earlier m

theorem isOrderly_nil : IsOrderly [] := by
  intro earlier m later h
  simp at h

theorem isOrderly_concat_iff (history : List Message) (m : Message) :
    IsOrderly (history ++ [m]) ↔ IsOrderly history ∧ IsPromised history m := by
  constructor
  · intro h
    refine ⟨fun earlier m' later hh => ?_, h history m [] rfl⟩
    exact h earlier m' (later ++ [m]) (by simp [hh])
  · rintro ⟨ho, hp⟩ earlier m' later h
    rcases List.eq_nil_or_concat later with rfl | ⟨later, last, rfl⟩
    · obtain ⟨rfl, rfl⟩ : history = earlier ∧ m = m' := by simpa using List.append_inj' h rfl
      exact hp
    · have h' : history ++ [m] = (earlier ++ m' :: later) ++ [last] := by simpa using h
      exact ho earlier m' later (List.append_inj' h' rfl).1

/-! ## The invariant -/

namespace Document

/-- The document as its client knows it. -/
def held (d : Document) : Held := ⟨d.language, d.version, d.text⟩

/-- A check changes nothing but what is kept of it. -/
theorem check_eq_mk (isa : Isa) (d : Document) : d.check isa = { d with analysis := (d.check isa).analysis } := by
  unfold check
  split <;> rfl

@[simp]
theorem held_check (isa : Isa) (d : Document) : (d.check isa).held = d.held := by
  rw [check_eq_mk]
  rfl

/-- The kept check is up to date. -/
def IsChecked (isa : Isa) (d : Document) : Prop := d.analysis = d.held.analysis? isa

theorem isAssembly_iff (d : Document) : d.isAssembly = true ↔ d.held.language = assemblyLanguage := by
  simp [isAssembly, held]

theorem isChecked_check {isa isa' : Isa} {d : Document} (h : d.IsChecked isa') : (d.check isa).IsChecked isa := by
  unfold check
  split
  · next ha =>
    have ha := d.isAssembly_iff.1 ha
    rw [IsChecked, Held.analysis?]
    exact (if_pos ha).symm
  · next ha =>
    have ha : ¬d.held.language = assemblyLanguage := fun hc => ha (d.isAssembly_iff.2 hc)
    rw [IsChecked, Held.analysis?, if_neg ha] at h ⊢
    exact h

theorem check_of_not_isAssembly (isa : Isa) {d : Document} (h : ¬d.isAssembly = true) : d.check isa = d := by
  rw [check, if_neg h]

theorem diagnostics_of_isAssembly (isa : Isa) {d : Document} (h : d.isAssembly = true) :
    d.diagnostics isa = (Analysis.ofText isa d.text).diagnostics := by
  rw [diagnostics, if_pos h]

/-- A document whose check is up to date is not changed by another check. -/
theorem IsChecked.check_eq {isa : Isa} {d : Document} (h : d.IsChecked isa) : d.check isa = d := by
  unfold check
  split
  · next ha =>
    have : some (Analysis.ofText isa d.text) = d.analysis := by
      rw [h, Held.analysis?, if_pos (d.isAssembly_iff.1 ha)]
      rfl
    rw [this]
  · rfl

end Document

/-- Whether what was published last for a document is what a check gives; without a check it must be empty. -/
def IsShown (isa : Isa) (d : Option Held) (shown : Option (Int × List Diagnostic)) : Prop :=
  match d.bind fun d => (d.analysis? isa).map fun a => (d.version, a.diagnostics) with
  | some current => shown = some current
  | none => ∀ p ∈ shown, p.2 = []

theorem isShown_of_language {isa : Isa} {d : Option Held} (h : ∀ d' ∈ d, d'.language ≠ assemblyLanguage)
    {shown : Option (Int × List Diagnostic)} : IsShown isa d shown ↔ ∀ p ∈ shown, p.2 = [] := by
  cases d with
  | none => rfl
  | some d => simp [IsShown, Held.analysis?, h d rfl]

/-- The client has no diagnostics where nothing was published. -/
theorem IsShown.diagnostics_eq {isa : Isa} {d : Option Held} {shown : Option (Int × List Diagnostic)}
    (h : IsShown isa d shown) :
    (shown.map (·.2)).getD [] = (d.bind (Held.analysis? isa)).elim [] Analysis.diagnostics := by
  have hempty (hn : ∀ p ∈ shown, p.2 = []) : (shown.map (·.2)).getD [] = [] := by
    cases shown with
    | none => rfl
    | some p => exact hn p rfl
  cases d with
  | none => exact hempty h
  | some d =>
    cases ha : d.analysis? isa with
    | none =>
      simp only [IsShown, ha, Option.bind_some, Option.map_none] at h
      simp only [ha, Option.bind_some, Option.elim_none, hempty h]
    | some a =>
      simp only [IsShown, ha, Option.bind_some, Option.map_some] at h
      simp [h, ha]

/-- The session agrees with the history, and the client with the session. -/
structure Invariant (history : List Message) (s : Session) (events : List Event) : Prop where
  stored : ∀ uri, (s.documents.find? uri).map Document.held = held? uri history
  checked : ∀ uri d, s.documents.find? uri = some d → d.IsChecked s.active.isa
  shown : ∀ uri, IsShown s.active.isa (held? uri history) (lastPublished? uri events)

namespace Invariant

variable {history history' : List Message} {s s' : Session} {events events' : List Event}

theorem fresh : Invariant [] Session.fresh [] := by
  refine ⟨fun _ => rfl, fun _ _ h => ?_, fun _ _ h => ?_⟩
  · cases h
  · cases h

/-- A step that changes no document and publishes nothing, with a new table only if no document needs it. -/
theorem quiet (h : Invariant history s events) (hd : s'.documents = s.documents)
    (ha : s'.active = s.active ∨ ∀ uri d, held? uri history = some d → d.language ≠ assemblyLanguage)
    (hh : ∀ uri, held? uri history' = held? uri history) (he : ∀ uri, lastPublished? uri events' = none) :
    Invariant history' s' (events ++ events') := by
  have hlast (uri : Bytes) : lastPublished? uri (events ++ events') = lastPublished? uri events := by
    rw [lastPublished?_append, he, Option.none_or]
  refine ⟨fun uri => ?_, fun uri d hf => ?_, fun uri => ?_⟩
  · rw [hd, hh, h.stored]
  · rw [hd] at hf
    have hc := h.checked uri d hf
    rcases ha with ha | ha
    · rw [ha]
      exact hc
    · have hl := ha uri d.held (by rw [← h.stored, hf]; rfl)
      rw [Document.IsChecked, Held.analysis?, if_neg hl] at hc ⊢
      exact hc
  · rw [hh, hlast]
    rcases ha with ha | ha
    · rw [ha]
      exact h.shown uri
    · exact (isShown_of_language (ha uri)).2 ((isShown_of_language (ha uri)).1 (h.shown uri))

/-- A step that stores one document, checks it, and publishes the check if there is one. -/
theorem store {u : Bytes} {d : Document} (h : Invariant history s events) (ha : s'.active = s.active)
    (hd : ∀ uri, s'.documents.find? uri = if uri = u then some (d.check s.active.isa) else s.documents.find? uri)
    (hc : (d.check s.active.isa).IsChecked s.active.isa)
    (hh : ∀ uri, held? uri history' = if uri = u then some d.held else held? uri history)
    (he : ∀ uri, lastPublished? uri events' =
      if uri = u ∧ d.isAssembly = true then some (d.version, d.diagnostics s.active.isa) else none)
    (hs : ¬d.isAssembly = true → ∀ p ∈ lastPublished? u events, p.2 = []) :
    Invariant history' s' (events ++ events') := by
  refine ⟨fun uri => ?_, fun uri d' hf => ?_, fun uri => ?_⟩
  · rw [hd, hh]
    split
    · simp
    · exact h.stored uri
  · rw [ha]
    rw [hd] at hf
    split at hf
    · obtain rfl := Option.some.inj hf
      exact hc
    · exact h.checked uri d' hf
  · rw [ha, hh, lastPublished?_append, he]
    by_cases hu : uri = u
    · subst hu
      by_cases hasm : d.isAssembly = true
      · have hl := d.isAssembly_iff.1 hasm
        simp only [IsShown, Held.analysis?, hl, hasm, and_self, if_true, Option.bind_some, Option.map_some,
          Option.some_or, Document.diagnostics_of_isAssembly _ hasm]
        rfl
      · have hl : ∀ d' ∈ some d.held, d'.language ≠ assemblyLanguage := by
          rintro _ ⟨⟩ hc
          exact hasm (d.isAssembly_iff.2 hc)
        rw [if_pos rfl, if_neg (fun hc => hasm hc.2), Option.none_or, isShown_of_language hl]
        exact hs hasm
    · simp only [hu, if_false, false_and, Option.none_or]
      exact h.shown uri

/-- A step that forgets one document and publishes that nothing is wrong with it. -/
theorem close {u : Bytes} (h : Invariant history s events) (ha : s'.active = s.active)
    (hd : s'.documents = s.documents.erase u)
    (hh : ∀ uri, held? uri history' = if uri = u then none else held? uri history)
    (he : ∀ uri, lastPublished? uri events' = if uri = u then some (0, []) else none) :
    Invariant history' s' (events ++ events') := by
  refine ⟨fun uri => ?_, fun uri d hf => ?_, fun uri => ?_⟩
  · rw [hd, hh, Dictionary.find?_erase]
    split
    · rfl
    · exact h.stored uri
  · rw [hd, Dictionary.find?_erase] at hf
    split at hf
    · cases hf
    · rw [ha]
      exact h.checked uri d hf
  · rw [ha, hh, lastPublished?_append, he]
    split
    · rintro p ⟨⟩
      rfl
    · exact h.shown uri

/-- A step that puts another table in place and checks every document again. -/
theorem publishAll (h : Invariant history s events) (hd : s'.documents = s.documents)
    (hh : ∀ uri, held? uri history' = held? uri history)
    (he : ∀ uri, lastPublished? uri events' = lastPublished? uri s'.publishAll.2) :
    Invariant history' s'.publishAll.1 (events ++ events') := by
  have hf (uri : Bytes) : s'.publishAll.1.documents.find? uri =
      (s.documents.find? uri).map (Document.check s'.active.isa) := by
    rw [← hd]
    exact Dictionary.find?_map _ _ uri
  refine ⟨fun uri => ?_, fun uri d hdoc => ?_, fun uri => ?_⟩
  · rw [hf, hh, ← h.stored, Option.map_map]
    congr 1
    funext d
    exact d.held_check _
  · rw [hf] at hdoc
    obtain ⟨d', hd', rfl⟩ := Option.map_eq_some_iff.1 hdoc
    exact Document.isChecked_check (h.checked uri d' hd')
  · rw [hh, lastPublished?_append, he, Session.lastPublished?_publishAll, hd]
    have hstored := h.stored uri
    have hshown := h.shown uri
    rw [← hstored] at hshown ⊢
    cases hdoc : s.documents.find? uri with
    | none => rw [hdoc] at hshown; exact hshown
    | some d =>
      by_cases hasm : d.isAssembly = true
      · have hl := d.isAssembly_iff.1 hasm
        simp only [IsShown, Held.analysis?, hl, hasm, if_true, Option.map_some, Option.bind_some, Option.some_or,
          Document.diagnostics_of_isAssembly _ hasm]
        rfl
      · have hl : ∀ d' ∈ Option.map Document.held (some d), d'.language ≠ assemblyLanguage := by
          rintro _ ⟨⟩ hc
          exact hasm (d.isAssembly_iff.2 hc)
        rw [hdoc, isShown_of_language hl] at hshown
        rw [isShown_of_language hl, Option.bind_some, if_neg hasm, Option.none_or]
        exact hshown

end Invariant

/-! ## Messages -/

namespace Session

theorem lastPublished?_refuse (m : Message) (refusal : Refusal) (uri : Bytes) :
    lastPublished? uri (refuse m refusal) = none :=
  (onlyFor_refuse m refusal).lastPublished?_eq_none (by decide) uri

/-- A request for edits is answered and changes nothing. -/
theorem handle_willSave (read : Files.Reader) (s : Session) (id : Id) (uri : Bytes) :
    ∃ answers, s.handle read id (.willSave uri) = (s, answers) ∧ ∀ u, lastPublished? u answers = none := by
  simp only [handle, handleWith]
  cases s.documents.find? uri with
  | none => exact ⟨_, rfl, fun u => rfl⟩
  | some d =>
    simp only
    split
    · exact ⟨_, rfl, fun u => rfl⟩
    · exact ⟨_, rfl, fun u => rfl⟩

/-- A hover is answered and changes nothing. -/
theorem handle_hover (read : Files.Reader) (s : Session) (id : Id) (uri : Bytes) (position : Position) :
    ∃ answers, s.handle read id (.hover uri position) = (s, answers) ∧ ∀ u, lastPublished? u answers = none := by
  simp only [handle, handleWith]
  cases s.hoverText? uri position with
  | none => exact ⟨_, rfl, fun u => rfl⟩
  | some markdown => exact ⟨_, rfl, fun u => rfl⟩

/-- Storing a document and publishing its check. -/
theorem find?_publish_insert (s : Session) (u : Bytes) (d : Document) (uri : Bytes) :
    ((Session.publish { s with documents := s.documents.insert u d } u d).1).documents.find? uri =
      if uri = u then some (d.check s.active.isa) else s.documents.find? uri := by
  simp only [publish, checkDocument, Dictionary.find?_insert, if_true]
  split <;> rfl

theorem active_checkDocument (s : Session) (u : Bytes) : (s.checkDocument u).active = s.active := by
  rw [checkDocument_eq_mk]

theorem lastPublished?_publish_insert (s : Session) (u : Bytes) (d : Document) (uri : Bytes) :
    lastPublished? uri (Session.publish { s with documents := s.documents.insert u d } u d).2 =
      if uri = u then some (d.version, d.diagnostics s.active.isa) else none := by
  simp only [publish, diagnostics, Dictionary.find?_insert, if_true, lastPublished?_singleton,
    Event.published?_publish, eq_comm]

end Session

namespace Invariant

variable {history : List Message} {s : Session} {events : List Event} {m : Message} {request : Request}
  {read : Files.Reader}

/-- A note in front of what a message causes does not matter. -/
theorem of_note {line : Bytes} {es : List Event} (h : Invariant history s (events ++ es)) :
    Invariant history s (events ++ Event.note line :: es) := by
  refine ⟨h.stored, h.checked, fun uri => ?_⟩
  have := h.shown uri
  simpa using this

/-- A document is not changed by another check. -/
theorem checkDocument_eq (h : Invariant history s events) (uri : Bytes) : s.checkDocument uri = s := by
  unfold Session.checkDocument
  split
  · next d hd => rw [(h.checked uri d hd).check_eq, Dictionary.insert_eq_self hd]
  · rfl

/-- A document is stored, and its check is published if it has one. -/
theorem insert (h : Invariant history s events) {history' : List Message} {u : Bytes} {d : Document}
    (notes : List Event)
    (hh : ∀ uri, held? uri history' = if uri = u then some d.held else held? uri history)
    (hnotes : ∀ uri, lastPublished? uri notes = none)
    (hother : ¬d.isAssembly = true → d.analysis = none ∧ ∀ p ∈ lastPublished? u events, p.2 = [])
    {r : Session × List Event} (hr : r = if d.isAssembly = true
      then Session.publish { s with documents := s.documents.insert u d } u d
      else ({ s with documents := s.documents.insert u d }, notes)) :
    Invariant history' r.1 (events ++ r.2) := by
  subst hr
  split
  · next ha =>
    refine h.store (Session.active_checkDocument _ _) (Session.find?_publish_insert s u d) ?_ hh ?_
      fun hc => absurd ha hc
    · rw [Document.check, if_pos ha, Document.IsChecked, Held.analysis?]
      exact (if_pos (d.isAssembly_iff.1 ha)).symm
    · intro uri
      rw [Session.lastPublished?_publish_insert]
      simp [ha]
  · next ha =>
    have hcheck : d.check s.active.isa = d := Document.check_of_not_isAssembly _ ha
    refine @store _ _ _ _ _ _ u d h rfl (fun uri => ?_) ?_ hh ?_ fun hc => (hother hc).2
    · rw [hcheck, Dictionary.find?_insert]
    · rw [hcheck, Document.IsChecked, Held.analysis?, if_neg fun hc => ha (d.isAssembly_iff.2 hc)]
      exact (hother ha).1
    · intro uri
      rw [hnotes, if_neg fun hc => ha hc.2]

/-- Opening a document. -/
theorem handle_open (h : Invariant history s events) {uri language text : Bytes} {version : Int}
    (hr : Request.ofMessage m = .ok (.open uri language version text)) (hp : held? uri history = none) (id : Id) :
    Invariant (history ++ [m]) (s.handle read id (.open uri language version text)).1
      (events ++ (s.handle read id (.open uri language version text)).2) := by
  refine @insert _ _ _ h _ uri ⟨language, version, text, none⟩
    [Event.note (utf8 "ignoring " ++ language ++ utf8 " document " ++ uri)] (fun u => ?_) (fun u => rfl)
    (fun _ => ⟨rfl, ?_⟩) _ rfl
  · simp only [held?_concat_of_ok hr, heldBy?, eq_comm]
    rfl
  · have := h.shown uri
    rwa [hp] at this

/-- Changing a document. -/
theorem handle_change (h : Invariant history s events) {uri : Bytes} {version : Int} {texts : List Bytes}
    (hr : Request.ofMessage m = .ok (.change uri version texts)) (id : Id) :
    Invariant (history ++ [m]) (s.handle read id (.change uri version texts)).1
      (events ++ (s.handle read id (.change uri version texts)).2) := by
  simp only [Session.handle, Session.handleWith]
  cases hd : s.documents.find? uri with
  | none =>
    have hnone : held? uri history = none := by rw [← h.stored, hd]; rfl
    refine h.quiet rfl (.inl rfl) (fun u => ?_) fun u => rfl
    simp only [held?_concat_of_ok hr, heldBy?]
    split
    · next hu =>
      subst hu
      cases texts.getLast? with
      | none => rfl
      | some text => simp [hnone]
    · rfl
  | some d =>
    cases ht : texts.getLast? with
    | none =>
      refine h.quiet rfl (.inl rfl) (fun u => ?_) fun u => rfl
      simp only [held?_concat_of_ok hr, heldBy?, ht, ite_self]
    | some text =>
      refine @insert _ _ _ h _ uri { d with text, version } [] (fun u => ?_) (fun u => rfl) (fun ha => ?_) _ rfl
      · simp only [held?_concat_of_ok hr, heldBy?, ht, eq_comm]
        split
        · next hu =>
          subst hu
          rw [← h.stored, hd]
          rfl
        · rfl
      · -- The language stays, so the document had no check before either.
        have hl : ¬d.held.language = assemblyLanguage := fun hc => ha (d.isAssembly_iff.2 hc)
        have hc := h.checked uri d hd
        have hshown := h.shown uri
        rw [← h.stored, hd] at hshown
        rw [Document.IsChecked, Held.analysis?, if_neg hl] at hc
        refine ⟨hc, (isShown_of_language ?_).1 hshown⟩
        rintro _ ⟨⟩
        exact hl

/-- Putting another table in place. -/
theorem handle_table (h : Invariant history s events) (s' : Session) (before after : List Event)
    (hd : s'.documents = s.documents) (hh : ∀ uri, held? uri (history ++ [m]) = held? uri history)
    (hb : ∀ uri, lastPublished? uri before = none) (ha : ∀ uri, lastPublished? uri after = none) :
    Invariant (history ++ [m]) s'.publishAll.1 (events ++ (before ++ s'.publishAll.2 ++ after)) := by
  refine h.publishAll hd hh fun uri => ?_
  rw [lastPublished?_append, lastPublished?_append, hb, ha, Option.none_or, Option.or_none]

/-- A message that the client may send keeps the invariant. -/
theorem receive (h : Invariant history s events) (hp : IsPromised history m) (read : Files.Reader) :
    Invariant (history ++ [m]) (s.receive read m).1 (events ++ (s.receive read m).2) := by
  cases hr : Request.ofMessage m with
  | error refusal =>
    rw [Session.receive_of_error hr]
    exact of_note (h.quiet rfl (.inl rfl) (held?_concat_of_error hr) (Session.lastPublished?_refuse m refusal))
  | ok request =>
    rw [Session.receive_of_ok hr]
    refine of_note ?_
    have hheld (u : Bytes) : held? u (history ++ [m]) = heldBy? u (held? u history) request := held?_concat_of_ok hr u
    simp only [IsPromised, hr] at hp
    cases request with
    | start rootUri rootPath setting =>
      refine h.quiet ?_ (.inr hp) hheld fun u => ?_
      · simp [Session.handle, Session.handleWith]
      · simp [Session.handle, Session.handleWith]
    | «open» uri language version text => exact h.handle_open hr hp _
    | close uri =>
      refine h.close rfl rfl (fun u => ?_) fun u => ?_
      · rw [hheld, heldBy?]
        simp only [eq_comm]
      · simp [Session.handle, Session.handleWith, eq_comm]
    | change uri version texts => exact h.handle_change hr _
    | diagnose uri =>
      refine h.quiet ?_ (.inl ?_) hheld fun u => rfl
      · simp only [Session.handle, Session.handleWith, h.checkDocument_eq]
      · simp only [Session.handle, Session.handleWith, h.checkDocument_eq]
    | willSave uri =>
      obtain ⟨answers, he, hnone⟩ := s.handle_willSave read (m.id.getD (.number 0)) uri
      rw [he]
      exact h.quiet rfl (.inl rfl) hheld hnone
    | hover uri position =>
      obtain ⟨answers, he, hnone⟩ := s.handle_hover read (m.id.getD (.number 0)) uri position
      rw [he]
      exact h.quiet rfl (.inl rfl) hheld hnone
    | configure setting =>
      cases setting with
      | none => exact h.quiet rfl (.inl rfl) hheld fun u => rfl
      | some setting =>
        by_cases hset : setting = s.setting
        · simp only [Session.handle, Session.handleWith, hset, if_true]
          exact h.quiet rfl (.inl rfl) hheld fun u => rfl
        · simp only [Session.handle, Session.handleWith, hset, if_false]
          have := h.handle_table _ _ [] (Session.documents_reload read { s with setting }) hheld
            (Session.lastPublished?_reload read { s with setting }) fun u => rfl
          simpa using this
    | selectTable path =>
      exact h.handle_table _ _ _ (Session.documents_reload read _) hheld (Session.lastPublished?_reload read _)
        fun u => rfl
    | reloadTable =>
      exact h.handle_table _ _ _ (Session.documents_reload read s) hheld (Session.lastPublished?_reload read s)
        fun u => rfl
    | resetTable =>
      exact h.handle_table { s with setting := [], active := .builtIn }
        [.send (.notify .info (utf8 "Using the default CS2200 instruction table"))] _ rfl hheld (fun u => rfl)
        fun u => rfl
    | started | complete | shutdown | exit =>
      exact h.quiet rfl (.inl rfl) hheld fun u => rfl

/-- After every orderly run. -/
theorem run (steps : List Session.Step) (h : IsOrderly (steps.map (·.2))) :
    Invariant (steps.map (·.2)) (Session.fresh.run steps).1 (Session.fresh.run steps).2 := by
  refine Session.run_induction (motive := fun history s events => IsOrderly history → Invariant history s events)
    (fun _ => fresh) (fun history s events read m ih ho => ?_) steps h
  obtain ⟨ho, hp⟩ := (isOrderly_concat_iff history m).1 ho
  exact (ih ho).receive hp read

end Invariant

/-! ## The client and the server agree -/

/-- What the client sees of a document is the check of what the history tells of it against the active table. -/
structure InSync (history : List Message) (s : Session) (events : List Event) (uri : Bytes) : Prop where
  /-- The diagnostics that were published last, none if there were never any. -/
  published : ((lastPublished? uri events).map (·.2)).getD [] =
    ((held? uri history).bind (Held.analysis? s.active.isa)).elim [] Analysis.diagnostics
  /-- They carry the version of an assembly document. -/
  version : ∀ d, held? uri history = some d → d.language = assemblyLanguage →
    (lastPublished? uri events).map (·.1) = some d.version
  /-- What a request for the diagnostics answers. -/
  reported : ∀ read m, Request.ofMessage m = .ok (.diagnose uri) →
    (s.receive read m).2.filterMap Event.message? = [.result (m.id.getD (.number 0))
      (.report (((held? uri history).bind (Held.analysis? s.active.isa)).elim [] Analysis.diagnostics))]
  /-- What a hover answers. -/
  hovered : ∀ read m position, Request.ofMessage m = .ok (.hover uri position) →
    (s.receive read m).2.filterMap Event.message? = [.result (m.id.getD (.number 0))
      (match ((held? uri history).bind (Held.analysis? s.active.isa)).bind (·.hover? position) with
        | some hover => .hover hover.markdown
        | none => .nothing)]
  /-- The check that is kept. -/
  cached : (s.documents.find? uri).bind Document.analysis = (held? uri history).bind (Held.analysis? s.active.isa)

namespace Invariant

variable {history : List Message} {s : Session} {events : List Event}

theorem cached (h : Invariant history s events) (uri : Bytes) :
    (s.documents.find? uri).bind Document.analysis = (held? uri history).bind (Held.analysis? s.active.isa) := by
  rw [← h.stored]
  cases hd : s.documents.find? uri with
  | none => rfl
  | some d => exact h.checked uri d hd

theorem diagnostics_eq (h : Invariant history s events) (uri : Bytes) :
    s.diagnostics uri = ((held? uri history).bind (Held.analysis? s.active.isa)).elim [] Analysis.diagnostics := by
  rw [← h.stored, Session.diagnostics]
  cases hd : s.documents.find? uri with
  | none => rfl
  | some d =>
    simp only [Document.diagnostics, Option.map_some, Option.bind_some, Held.analysis?, d.isAssembly_iff]
    split <;> rfl

theorem hoverText?_eq (h : Invariant history s events) (uri : Bytes) (position : Position) :
    s.hoverText? uri position =
      (((held? uri history).bind (Held.analysis? s.active.isa)).bind (·.hover? position)).map Hover.markdown := by
  rw [← h.cached]
  cases hd : s.documents.find? uri with
  | none => simp [Session.hoverText?, hd]
  | some d =>
    cases ha : d.analysis with
    | none => simp [Session.hoverText?, hd, ha]
    | some a => cases hh : a.hover? position <;> simp [Session.hoverText?, hd, ha, hh]

/-- The session and the client agree wherever the invariant holds. -/
theorem inSync (h : Invariant history s events) (uri : Bytes) : InSync history s events uri := by
  refine ⟨(h.shown uri).diagnostics_eq, fun d hd hl => ?_, fun read m hm => ?_, fun read m position hm => ?_,
    h.cached uri⟩
  · have hshown := h.shown uri
    simp only [IsShown, hd, Held.analysis?, if_pos hl, Option.bind_some, Option.map_some] at hshown
    rw [hshown]
    rfl
  · rw [Session.receive_of_ok hm]
    simp only [Session.handle, Session.handleWith, h.diagnostics_eq]
    rfl
  · rw [Session.receive_of_ok hm]
    simp only [Session.handle, Session.handleWith, h.hoverText?_eq]
    cases ((held? uri history).bind (Held.analysis? s.active.isa)).bind (·.hover? position) <;> rfl

end Invariant

/-- After every orderly run, and so after every message of one, the client sees of every document the check of what the
history tells of it. -/
theorem inSync_run (steps : List Session.Step) (h : IsOrderly (steps.map (·.2))) (uri : Bytes) :
    InSync (steps.map (·.2)) (Session.fresh.run steps).1 (Session.fresh.run steps).2 uri :=
  (Invariant.run steps h).inSync uri

/-- A conversation without files in which a document is opened and then changed. -/
def edited : List Session.Step :=
  let document (members : List (String × Json)) : String × Json :=
    ("textDocument", .ofMembers (("uri", .string (utf8 "a.asm")) :: members))
  let opening : Json := .ofMembers [document [
    ("languageId", .string assemblyLanguage), ("version", .number (utf8 "1")), ("text", .string (utf8 "halt"))]]
  let change : Json := .ofMembers [document [("version", .number (utf8 "2"))],
    ("contentChanges", .array [.ofMembers [("text", .string (utf8 "halt now"))]])]
  [(fun _ => .error .noEntry, ⟨utf8 "textDocument/didOpen", none, some opening⟩),
    (fun _ => .error .noEntry, ⟨utf8 "textDocument/didChange", none, some change⟩)]

theorem inSync_run_edited : IsOrderly (edited.map (·.2)) ∧
    held? (utf8 "a.asm") (edited.map (·.2)) = some ⟨assemblyLanguage, 2, utf8 "halt now"⟩ ∧
    InSync (edited.map (·.2)) (Session.fresh.run edited).1 (Session.fresh.run edited).2 (utf8 "a.asm") := by
  have ho : IsOrderly (edited.map (·.2)) :=
    (isOrderly_concat_iff [_] _).2 ⟨(isOrderly_concat_iff [] _).2 ⟨isOrderly_nil, rfl⟩, trivial⟩
  exact ⟨ho, by rfl, inSync_run edited ho _⟩

end AsmLens.Server
