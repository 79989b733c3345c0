import AsmLens.Proofs.Server.Answer

/-!
# Open documents do not interfere

A client that works with one document could leave out of a conversation all that is about other documents: what the
server does because of the rest stays the same, but for what it publishes for the others
(`exchanges_filter_isElsewhere`).

What a session knows of one document is the session with no other document open (`Session.only`). A message that is
about another document leaves this as it is (`only_handle_of_ne`). Every other message is handled by the session with
the one document as by the whole session (`handle_only`): what it asks for depends on that document, on the table, on
the workspace and on the setting, and only `publishAll` looks at all documents, each for itself (`publishAll_only`).
-/

namespace AsmLens

namespace Dictionary

/-! ## Dictionaries with one key -/

variable {α β : Type}

/-- The dictionary with the entry at one key, if there is one, and no other. -/
def only (k : Bytes) (d : Dictionary α) : Dictionary α := ⟨d.entries.filter (·.1 == k), d.sorted.filter _⟩

theorem lookup_filter_eq (k k' : Bytes) (es : List (Bytes × α)) :
    (es.filter (·.1 == k)).lookup k' = if k' = k then es.lookup k' else none := by
  induction es with
  | nil => simp
  | cons e es ih =>
    rw [List.filter_cons]
    split
    · next h =>
      rw [lookup_entry, lookup_entry, ih]
      split
      · next h' => rw [if_pos (h'.trans (by simpa using h))]
      · rfl
    · next h =>
      rw [ih, lookup_entry]
      split
      · next h' => rw [if_neg fun he => h (by simp [← he, h'])]
      · rfl

@[simp]
theorem find?_only (k k' : Bytes) (d : Dictionary α) : (d.only k).find? k' = if k' = k then d.find? k' else none :=
  lookup_filter_eq k k' d.entries

theorem only_insert_self (k : Bytes) (v : α) (d : Dictionary α) : (d.insert k v).only k = (d.only k).insert k v := by
  apply ext_find?
  intro k'
  by_cases h : k' = k <;> simp [h]

theorem only_insert_of_ne {k k' : Bytes} (h : k' ≠ k) (v : α) (d : Dictionary α) :
    (d.insert k' v).only k = d.only k := by
  apply ext_find?
  intro x
  by_cases hx : x = k <;> simp [hx, h.symm]

theorem only_erase_self (k : Bytes) (d : Dictionary α) : (d.erase k).only k = (d.only k).erase k := by
  apply ext_find?
  intro k'
  by_cases h : k' = k <;> simp [h]

theorem only_erase_of_ne {k k' : Bytes} (h : k' ≠ k) (d : Dictionary α) : (d.erase k').only k = d.only k := by
  apply ext_find?
  intro x
  by_cases hx : x = k <;> simp [hx, h.symm]

theorem only_map (k : Bytes) (f : α → β) (d : Dictionary α) : (d.map f).only k = (d.only k).map f := by
  apply ext_find?
  intro k'
  by_cases h : k' = k <;> simp [h]

end Dictionary

namespace Server

/-! ## What is about which document -/

/-- The document that a request is about. -/
def Request.document? : Request → Option Bytes
  | .open uri .. | .close uri | .change uri .. | .diagnose uri | .willSave uri | .hover uri _ => some uri
  | _ => none

/-- Whether what arrives is understood and is about another document. -/
def Arrival.isElsewhere (uri : Bytes) : Arrival → Bool
  | .message m =>
    match Request.ofMessage m with
    | .ok request => request.document?.any (· != uri)
    | .error _ => false
  | _ => false

/-- Whether diagnostics are published for another document. -/
def Event.isElsewhere (uri : Bytes) : Event → Bool
  | .send (.publish u _ _) => u != uri
  | _ => false

/-- The events without publications for other documents. -/
def eventsFor (uri : Bytes) (events : List Event) : List Event := events.filter (!·.isElsewhere uri)

section

variable (uri : Bytes) (es : List Event)

@[simp]
theorem eventsFor_nil : eventsFor uri [] = [] := rfl

@[simp]
theorem eventsFor_append (es' : List Event) : eventsFor uri (es ++ es') = eventsFor uri es ++ eventsFor uri es' :=
  List.filter_append ..

theorem Event.isElsewhere_of_ne (e : Event) (h : e.purpose ≠ .publication) : e.isElsewhere uri = false := by
  unfold Event.isElsewhere
  split
  · exact absurd rfl h
  · rfl

@[simp]
theorem eventsFor_cons_of_ne {e : Event} (h : ¬ e.purpose = .publication) :
    eventsFor uri (e :: es) = e :: eventsFor uri es :=
  List.filter_cons_of_pos (by simp [e.isElsewhere_of_ne uri h])

theorem OnlyFor.eventsFor_eq {es : List Event} {purposes : List Purpose} (h : OnlyFor purposes es)
    (hp : Purpose.publication ∉ purposes) : eventsFor uri es = es := by
  refine List.filter_eq_self.2 fun e he => ?_
  simp [e.isElsewhere_of_ne uri (h.purpose_ne hp he)]

@[simp]
theorem eventsFor_publish_self (version : Int) (ds : List Diagnostic) :
    eventsFor uri (.send (.publish uri version ds) :: es) = .send (.publish uri version ds) :: eventsFor uri es := by
  simp [eventsFor, Event.isElsewhere]

theorem eventsFor_eventsFor : eventsFor uri (eventsFor uri es) = eventsFor uri es := by simp [eventsFor]

theorem any_endsConversation_eventsFor :
    (eventsFor uri es).any Event.endsConversation = es.any Event.endsConversation := by
  rw [eventsFor, List.any_filter]
  congr 1
  funext e
  cases e with
  | send message => simp [Event.endsConversation]
  | log line => rfl
  | hangUp => rfl

end

namespace Session

/-! ## Sessions with one document -/

/-- The session as if no other document were open. -/
def only (uri : Bytes) (s : Session) : Session := { s with documents := s.documents.only uri }

variable (uri : Bytes) (s : Session)

theorem only_fresh : only uri fresh = fresh := rfl

@[simp]
theorem documents_only : (s.only uri).documents = s.documents.only uri := rfl

@[simp]
theorem active_only : (s.only uri).active = s.active := rfl

@[simp]
theorem root_only : (s.only uri).root = s.root := rfl

@[simp]
theorem setting_only : (s.only uri).setting = s.setting := rfl

@[simp]
theorem registrations_only : (s.only uri).registrations = s.registrations := rfl

/-- Changes of anything but the documents can be made before the other documents are left out. -/
theorem mk_only (documents : Dictionary Document) (active : Active) (root setting : Bytes) (registrations : Nat) :
    Session.mk (documents.only uri) active root setting registrations =
      only uri ⟨documents, active, root, setting, registrations⟩ := rfl

theorem find?_documents_only : (s.only uri).documents.find? uri = s.documents.find? uri := by simp

theorem diagnostics_only : (s.only uri).diagnostics uri = s.diagnostics uri := by
  simp only [diagnostics, find?_documents_only, active_only]

theorem hoverText?_only (p : Position) : (s.only uri).hoverText? uri p = s.hoverText? uri p := by
  simp only [hoverText?, find?_documents_only]

theorem checkDocument_only : (s.only uri).checkDocument uri = (s.checkDocument uri).only uri := by
  simp only [checkDocument, find?_documents_only]
  cases s.documents.find? uri with
  | none => rfl
  | some d => simp only [only, Dictionary.only_insert_self]

theorem only_checkDocument_of_ne {u : Bytes} (h : u ≠ uri) : (s.checkDocument u).only uri = s.only uri := by
  unfold checkDocument
  cases s.documents.find? u with
  | none => rfl
  | some d => simp only [only, Dictionary.only_insert_of_ne h]

theorem publish_only (d : Document) :
    (s.only uri).publish uri d = ((s.publish uri d).1.only uri, eventsFor uri (s.publish uri d).2) := by
  simp only [publish, checkDocument_only, diagnostics_only, eventsFor_publish_self, eventsFor_nil]

/-- Every document is checked for itself. -/
theorem publishAll_only : (s.only uri).publishAll = (s.publishAll.1.only uri, eventsFor uri s.publishAll.2) := by
  simp only [publishAll, only, Dictionary.only_map, Prod.mk.injEq, true_and]
  -- Leaving out entries before they are published and publications after it are filters of the same list.
  simp only [eventsFor, Dictionary.only, List.filter_map, List.filter_filter]
  congr 1
  refine List.filter_congr fun e _ => ?_
  simp [Event.isElsewhere, Bool.and_comm, bne]

/-- A table is loaded whatever documents are open. -/
theorem reload_only (read : Files.Reader) :
    (s.only uri).reload read = ((s.reload read).1.only uri, eventsFor uri (s.reload read).2) := by
  by_cases hp : Path.resolve s.root s.setting = []
  · rw [reload_of_eq_nil hp, @reload_of_eq_nil read (s.only uri) hp]
    rfl
  · cases hl : Isa.load read (Path.resolve s.root s.setting) with
    | ok isa =>
      rw [reload_of_ok hp hl, @reload_of_ok read (s.only uri) hp isa hl]
      rfl
    | error e =>
      rw [reload_of_error hp hl, @reload_of_error read (s.only uri) hp e hl]
      rfl

@[simp]
theorem eventsFor_rootOf (rootUri rootPath : Bytes) :
    eventsFor uri (rootOf rootUri rootPath).2 = (rootOf rootUri rootPath).2 :=
  (onlyFor_rootOf rootUri rootPath).eventsFor_eq uri (by decide)

@[simp]
theorem eventsFor_refuse (m : Message) (r : Refusal) : eventsFor uri (refuse m r) = refuse m r :=
  (onlyFor_refuse m r).eventsFor_eq uri (by decide)

/-! ## Requests -/

/-- Another document may be stored or forgotten. -/
theorem only_insert_of_ne {u : Bytes} (h : u ≠ uri) (d : Document) :
    only uri { s with documents := s.documents.insert u d } = s.only uri := by
  simp only [only, Dictionary.only_insert_of_ne h]

theorem only_publish_of_ne {u : Bytes} (h : u ≠ uri) (d : Document) : (s.publish u d).1.only uri = s.only uri :=
  s.only_checkDocument_of_ne uri h

theorem insert_only (d : Document) :
    { s.only uri with documents := (s.only uri).documents.insert uri d } =
      only uri { s with documents := s.documents.insert uri d } := by
  simp only [only, Dictionary.only_insert_self]

variable {request : Request} (read : Files.Reader) (id : Id)

/-- A request about another document changes nothing but that, and does not end the conversation. -/
theorem only_handle_of_ne {u : Bytes} (h : request.document? = some u) (hne : u ≠ uri) :
    (s.handle read id request).1.only uri = s.only uri ∧
      (s.handle read id request).2.any Event.endsConversation = false := by
  cases request with
  | «open» v language version text =>
    obtain rfl : v = u := Option.some.inj h
    simp only [handle, handleWith]
    split
    · exact ⟨by rw [only_publish_of_ne _ _ hne, only_insert_of_ne _ _ hne], rfl⟩
    · exact ⟨only_insert_of_ne _ _ hne _, rfl⟩
  | close v =>
    obtain rfl : v = u := Option.some.inj h
    exact ⟨by simp only [handle, handleWith, only, Dictionary.only_erase_of_ne hne], rfl⟩
  | change v version texts =>
    obtain rfl : v = u := Option.some.inj h
    simp only [handle, handleWith]
    split
    · split
      · exact ⟨by rw [only_publish_of_ne _ _ hne, only_insert_of_ne _ _ hne], rfl⟩
      · exact ⟨only_insert_of_ne _ _ hne _, rfl⟩
    · exact ⟨rfl, rfl⟩
  | diagnose v =>
    obtain rfl : v = u := Option.some.inj h
    exact ⟨only_checkDocument_of_ne _ _ hne, rfl⟩
  | willSave v =>
    simp only [handle, handleWith]
    split
    · split <;> exact ⟨rfl, rfl⟩
    · exact ⟨rfl, rfl⟩
  | hover v position =>
    simp only [handle, handleWith]
    split <;> exact ⟨rfl, rfl⟩
  | start | started | complete | configure | selectTable | reloadTable | resetTable | shutdown | exit => cases h

/-- Any other request is carried out alike where no other document is open. -/
theorem handle_only (h : ∀ u ∈ request.document?, u = uri) :
    (s.only uri).handle read id request =
      ((s.handle read id request).1.only uri, eventsFor uri (s.handle read id request).2) := by
  cases request with
  | start rootUri rootPath setting => simp [handle, handleWith, mk_only, reload_only]
  | started => rfl
  | «open» v language version text =>
    obtain rfl : v = uri := h v rfl
    simp only [handle, handleWith, insert_only]
    split
    · exact publish_only _ _ _
    · rfl
  | close v =>
    obtain rfl : v = uri := h v rfl
    simp [handle, handleWith, only, Dictionary.only_erase_self]
  | change v version texts =>
    obtain rfl : v = uri := h v rfl
    simp only [handle, handleWith, find?_documents_only]
    split
    · simp only [insert_only]
      split
      · exact publish_only _ _ _
      · rfl
    · rfl
  | diagnose v =>
    obtain rfl : v = uri := h v rfl
    simp [handle, handleWith, checkDocument_only, diagnostics_only]
  | willSave v =>
    obtain rfl : v = uri := h v rfl
    simp only [handle, handleWith, find?_documents_only]
    split
    · split <;> rfl
    · rfl
  | hover v position =>
    obtain rfl : v = uri := h v rfl
    simp only [handle, handleWith, hoverText?_only]
    split <;> rfl
  | complete => rfl
  | configure setting =>
    cases setting with
    | none => rfl
    | some setting =>
      by_cases hs : setting = s.setting
      · simp [handle, handleWith, hs]
      · simp [handle, handleWith, hs, mk_only, reload_only, publishAll_only]
  | selectTable path => simp [handle, handleWith, mk_only, reload_only, publishAll_only]
  | reloadTable => simp [handle, handleWith, reload_only, publishAll_only]
  | resetTable => simp [handle, handleWith, mk_only, publishAll_only]
  | shutdown => rfl
  | exit => rfl

/-! ## Conversations -/

theorem only_take_of_isElsewhere {a : Arrival} (h : a.isElsewhere uri = true) :
    (s.take read a).1.only uri = s.only uri ∧ (s.take read a).2.any Event.endsConversation = false := by
  cases a with
  | message m =>
    cases hm : Request.ofMessage m with
    | error r => simp [Arrival.isElsewhere, hm] at h
    | ok request =>
      obtain ⟨u, hu, hne⟩ : ∃ u, request.document? = some u ∧ u ≠ uri := by
        simpa [Arrival.isElsewhere, hm, Option.any_eq_true] using h
      obtain ⟨hdoc, hend⟩ := s.only_handle_of_ne uri read (m.id.getD (.number 0)) hu hne
      rw [take_message, receive_of_ok hm]
      exact ⟨hdoc, hend⟩
  | answer => cases h
  | garbled => cases h

theorem take_only {a : Arrival} (h : a.isElsewhere uri = false) :
    (s.only uri).take read a = ((s.take read a).1.only uri, eventsFor uri (s.take read a).2) := by
  cases a with
  | message m =>
    cases hm : Request.ofMessage m with
    | error r => simp [receive_of_error hm]
    | ok request =>
      have hu : ∀ u ∈ request.document?, u = uri := by
        intro u hu
        simpa [Arrival.isElsewhere, hm, Option.mem_def.1 hu] using h
      simp [receive_of_ok hm, handle_only _ _ _ _ hu]
  | answer => rfl
  | garbled => rfl

/-- What is exchanged without what is about other documents. -/
theorem exchanges_only (arrivals : List (Files.Reader × Arrival)) : ∀ s : Session,
    (s.only uri).exchanges (arrivals.filter (!·.2.isElsewhere uri)) =
      ((s.exchanges arrivals).filter (!·.1.isElsewhere uri)).map fun x => (x.1, eventsFor uri x.2) := by
  induction arrivals with
  | nil => intro s; rfl
  | cons arrival arrivals ih =>
    obtain ⟨read, a⟩ := arrival
    intro s
    cases h : a.isElsewhere uri with
    | true =>
      -- Left out: it neither changes what is known of the document nor ends the conversation.
      obtain ⟨hdoc, hend⟩ := s.only_take_of_isElsewhere uri read h
      simp only [exchanges, List.filter_cons, h, hend, Bool.not_true, Bool.false_eq_true, if_false]
      rw [← ih, hdoc]
    | false =>
      simp only [exchanges, List.filter_cons, h, Bool.not_false, if_true, take_only uri s read h,
        any_endsConversation_eventsFor, List.map_cons, ih]
      split <;> rfl

end Session

/-- Open documents do not interfere: if all that is about other documents is left out of a conversation, the server does
the same because of the rest, in the same order, but for what it publishes for other documents. The files may be others
each time something arrives. -/
theorem exchanges_filter_isElsewhere (uri : Bytes) (arrivals : List (Files.Reader × Arrival)) :
    Session.fresh.exchanges (arrivals.filter (!·.2.isElsewhere uri)) =
      ((Session.fresh.exchanges arrivals).filter (!·.1.isElsewhere uri)).map fun x => (x.1, eventsFor uri x.2) :=
  Session.exchanges_only uri arrivals Session.fresh

end Server

end AsmLens
