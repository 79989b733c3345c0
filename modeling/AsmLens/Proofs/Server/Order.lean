import AsmLens.Proofs.Server.Coherence
import AsmLens.Proofs.Server.Isolation
import AsmLens.Proofs.Server.View

/-!
# The order of publications

`publishAll` goes through the open documents in order of identifier. A server may as well go through them in any other
order, and in another one each time (`Tour`), and check and publish them one by one (`publishEach`). This leaves the
same session behind and does the same for every single document (`Tour.matches_publishAll`): only publications for
different documents change places (`Reordered`), which no view of the events sees (`Reordered.filterMap_eq`).

So whatever is shown of a session holds for every order.

* `matches_runIn`: a run with any tours ends in the same session, with its events reordered. Hence the client and the
  server agree (`inSync_runIn`), and the table fits the setting (`isCoherent_runIn`).
* `map_exchangesIn`: a conversation shows the same, exchange by exchange. Hence the same exchanges are disciplined
  (`isDisciplined_iff_of_mem_exchangesIn`), and documents do not interfere (`exchangesIn_filter_isElsewhere`).
-/

namespace AsmLens.Server

/-! ## Events in another order -/

/-- The same events, with publications for different documents in another order. -/
structure Reordered (es es' : List Event) : Prop where
  perm : es.Perm es'
  eventsFor : ∀ uri, eventsFor uri es = eventsFor uri es'

namespace Reordered

variable {es es' fs fs' : List Event}

theorem refl (es : List Event) : Reordered es es := ⟨.refl es, fun _ => rfl⟩

theorem append (h : Reordered es es') (hf : Reordered fs fs') : Reordered (es ++ fs) (es' ++ fs') :=
  ⟨h.perm.append hf.perm, fun uri => by rw [eventsFor_append, eventsFor_append, h.eventsFor, hf.eventsFor]⟩

theorem cons (e : Event) (h : Reordered es es') : Reordered (e :: es) (e :: es') := (refl [e]).append h

/-- A view that does not see what is published for other documents does not see the order. -/
theorem filterMap_eq (h : Reordered es es') {α : Type} {view : Event → Option α} (uri : Bytes)
    (hv : ∀ e : Event, e.isElsewhere uri = true → view e = none) : es.filterMap view = es'.filterMap view := by
  have hsame (es : List Event) : (Server.eventsFor uri es).filterMap view = es.filterMap view := by
    rw [Server.eventsFor, List.filterMap_filter]
    refine List.filterMap_congr fun e _ => ?_
    cases he : e.isElsewhere uri with
    | true => simp [hv e he]
    | false => rfl
  rw [← hsame es, h.eventsFor, hsame]

theorem filterMap_eq_of_sees (h : Reordered es es') {α : Type} {view : Event → Option α} {purpose : Purpose}
    (hv : Sees purpose view) (hp : purpose ≠ .publication) : es.filterMap view = es'.filterMap view := by
  refine h.filterMap_eq [] fun e he => hv e ?_
  rintro rfl
  rw [e.isElsewhere_of_ne [] hp] at he
  cases he

theorem answersOf_eq (h : Reordered es es') : answersOf es = answersOf es' :=
  h.filterMap_eq_of_sees sees_answered? (by decide)

theorem noticesOf_eq (h : Reordered es es') : noticesOf es = noticesOf es' :=
  h.filterMap_eq_of_sees sees_notice? (by decide)

theorem lastPublished?_eq (h : Reordered es es') (uri : Bytes) : lastPublished? uri es = lastPublished? uri es' := by
  have hseen : es.filterMap (Event.published? uri) = es'.filterMap (Event.published? uri) := by
    refine h.filterMap_eq uri fun e he => ?_
    unfold Event.isElsewhere at he
    split at he
    · rw [Event.published?_publish, if_neg (by simpa using he)]
    · cases he
  rw [lastPublished?, ← List.getLast?_filterMap, hseen, List.getLast?_filterMap]
  rfl

theorem any_endsConversation_eq (h : Reordered es es') :
    es.any Event.endsConversation = es'.any Event.endsConversation := by
  rw [← any_endsConversation_eventsFor [] es, h.eventsFor, any_endsConversation_eventsFor]

end Reordered

/-! ## One document after the other -/

namespace Document

variable (isa isa' : Isa) (d : Document)

@[simp]
theorem isAssembly_check : (d.check isa).isAssembly = d.isAssembly := by
  rw [check_eq_mk]
  rfl

@[simp]
theorem version_check : (d.check isa).version = d.version := by
  rw [check_eq_mk]

@[simp]
theorem diagnostics_check : (d.check isa).diagnostics isa' = d.diagnostics isa' := by
  rw [check_eq_mk]
  rfl

@[simp]
theorem check_check : (d.check isa).check isa = d.check isa := by
  by_cases ha : d.isAssembly = true
  · rw [check, if_pos (by simpa using ha), check, if_pos ha]
  · rw [check_of_not_isAssembly isa ha, check_of_not_isAssembly isa ha]

end Document

namespace Session

/-- Checks the documents with these identifiers again and publishes what was found, one after the other. -/
def publishEach (s : Session) : List Bytes → Session × List Event
  | [] => (s, [])
  | uri :: rest =>
    match s.documents.find? uri with
    | some d =>
      if d.isAssembly then
        let (s, first) := s.publish uri d
        let (s, later) := s.publishEach rest
        (s, first ++ later)
      else s.publishEach rest
    | none => s.publishEach rest

/-- What is published for a document, if anything is. -/
def publication? (s : Session) (uri : Bytes) : Option Event :=
  (s.documents.find? uri).bind fun d =>
    if d.isAssembly then some (.send (.publish uri d.version (d.diagnostics s.active.isa))) else none

theorem isElsewhere_of_publication? {s : Session} {u : Bytes} {e : Event} (h : s.publication? u = some e)
    (uri : Bytes) : e.isElsewhere uri = (u != uri) := by
  obtain ⟨d, -, h⟩ := Option.bind_eq_some_iff.1 h
  obtain ⟨-, h⟩ := Option.ite_none_right_eq_some.1 h
  cases h
  rfl

theorem find?_checkDocument (s : Session) (uri k : Bytes) :
    (s.checkDocument uri).documents.find? k =
      (s.documents.find? k).map fun d => if k = uri then d.check s.active.isa else d := by
  unfold checkDocument
  split
  · next d hd =>
    rw [Dictionary.find?_insert]
    split
    · next h => rw [h, hd]; rfl
    · simp
  · next hd =>
    by_cases h : k = uri
    · rw [h, hd]; rfl
    · simp [h]

theorem checkDocument_of_not_isAssembly {s : Session} {uri : Bytes} {d : Document}
    (hd : s.documents.find? uri = some d) (ha : ¬d.isAssembly = true) : s.checkDocument uri = s := by
  simp only [checkDocument, hd, Document.check_of_not_isAssembly _ ha, Dictionary.insert_eq_self hd]

/-- Another check changes nothing that is published. -/
theorem publication?_checkDocument (s : Session) (u : Bytes) :
    (s.checkDocument u).publication? = s.publication? := by
  funext uri
  rw [publication?, publication?, find?_checkDocument, Option.bind_map, active_checkDocument]
  congr 1
  funext d
  by_cases h : uri = u <;> simp [h]

/-- The first document is checked, and published if there is something to publish. -/
theorem publishEach_cons (s : Session) (uri : Bytes) (rest : List Bytes) :
    s.publishEach (uri :: rest) = (((s.checkDocument uri).publishEach rest).1,
      (s.publication? uri).toList ++ ((s.checkDocument uri).publishEach rest).2) := by
  rw [publishEach]
  split
  · next d hd =>
    split
    · next ha => simp [publish, publication?, diagnostics, hd, ha]
    · next ha => simp [publication?, hd, ha, checkDocument_of_not_isAssembly hd ha]
  · next hd => simp [publication?, checkDocument, hd]

theorem publishEach_snd (uris : List Bytes) : ∀ s : Session,
    (s.publishEach uris).2 = uris.filterMap s.publication? := by
  induction uris with
  | nil => intro s; rfl
  | cons uri uris ih =>
    intro s
    rw [publishEach_cons, ih, publication?_checkDocument]
    cases h : s.publication? uri with
    | none => rw [List.filterMap_cons_none h]; rfl
    | some e => rw [List.filterMap_cons_some h]; rfl

/-- Nothing but documents is changed, and they are only checked. -/
theorem publishEach_fst (uris : List Bytes) : ∀ s : Session,
    (s.publishEach uris).1 = { s with documents := (s.publishEach uris).1.documents } ∧
      ∀ k, (s.publishEach uris).1.documents.find? k =
        (s.documents.find? k).map fun d => if k ∈ uris then d.check s.active.isa else d := by
  induction uris with
  | nil => intro s; exact ⟨rfl, fun k => by simp [publishEach]⟩
  | cons uri uris ih =>
    intro s
    obtain ⟨hother, hdocs⟩ := ih (s.checkDocument uri)
    rw [publishEach_cons]
    refine ⟨?_, fun k => ?_⟩
    · rw [hother, checkDocument_eq_mk]
    · rw [hdocs, find?_checkDocument, Option.map_map, active_checkDocument]
      congr 1
      funext d
      by_cases hk : k = uri <;> simp [hk]

/-- `publishAll` goes through the documents in order of identifier. -/
theorem publishAll_snd (s : Session) : s.publishAll.2 = s.documents.keys.filterMap s.publication? := by
  rw [publishAll, Dictionary.keys, List.filterMap_map, ← List.filterMap_eq_map, List.filterMap_filter]
  refine List.filterMap_congr fun e he => ?_
  have hf : s.documents.find? e.1 = some e.2 := s.documents.find?_eq_some_iff.2 he
  simp [publication?, hf]

/-- In whatever order the documents are gone through, all of them are checked. -/
theorem publishEach_fst_of_perm {s : Session} {uris : List Bytes} (h : uris.Perm s.documents.keys) :
    (s.publishEach uris).1 = s.publishAll.1 := by
  obtain ⟨hother, hdocs⟩ := s.publishEach_fst uris
  have hall : (s.publishEach uris).1.documents = s.documents.map (·.check s.active.isa) := by
    apply Dictionary.ext_find?
    intro k
    rw [hdocs, Dictionary.find?_map]
    refine Option.map_congr fun d hd => if_pos ?_
    exact h.mem_iff.2 (s.documents.mem_keys_iff.2 ⟨d, hd⟩)
  rw [hother, hall, publishAll]

/-- Publications for one document do not change places. -/
theorem reordered_publishEach {s : Session} {uris : List Bytes} (h : uris.Perm s.documents.keys) :
    Reordered s.publishAll.2 (s.publishEach uris).2 := by
  rw [publishAll_snd, publishEach_snd]
  refine ⟨h.symm.filterMap _, fun uri => ?_⟩
  -- Those for one document are what the mentions of it give, and there are as many of them in every order.
  have hmentions (l : List Bytes) :
      eventsFor uri (l.filterMap s.publication?) = (l.filter (· == uri)).filterMap s.publication? := by
    rw [eventsFor, List.filter_filterMap, List.filterMap_filter]
    refine List.filterMap_congr fun u _ => ?_
    cases he : s.publication? u with
    | none => simp
    | some e => simp [Option.filter, isElsewhere_of_publication? he]
  rw [hmentions, hmentions, List.filter_beq, List.filter_beq, h.count_eq]

end Session

/-! ## Requests in any order -/

/-- A way to go through the open documents. -/
structure Tour where
  visit : Dictionary Document → List Bytes
  /-- Every document is visited once. -/
  perm : ∀ documents, (visit documents).Perm documents.keys

/-- In order of identifier. -/
instance : Inhabited Tour := ⟨⟨Dictionary.keys, fun _ => .refl _⟩⟩

/-- Checks every open document again and publishes what was found, in the order of the tour. -/
def Tour.publishAll (tour : Tour) (s : Session) : Session × List Event := s.publishEach (tour.visit s.documents)

/-- The one ends up in the same session as the other and sends the same but for the order of publications. -/
structure Matches (r r' : Session × List Event) : Prop where
  session : r.1 = r'.1
  events : Reordered r.2 r'.2

/-- Neither what is sent before nor what the session is asked for afterwards tells the two apart. -/
theorem Matches.between {r r' : Session × List Event} (h : Matches r r') (before : List Event)
    (after : Session → List Event) :
    Matches (r.1, before ++ r.2 ++ after r.1) (r'.1, before ++ r'.2 ++ after r'.1) := by
  refine ⟨h.session, ?_⟩
  rw [h.session]
  exact ((Reordered.refl before).append h.events).append (.refl _)

theorem Tour.matches_publishAll (tour : Tour) (s : Session) : Matches s.publishAll (tour.publishAll s) :=
  ⟨(Session.publishEach_fst_of_perm (tour.perm _)).symm, Session.reordered_publishEach (tour.perm _)⟩

namespace Session

variable (tour : Tour) (read : Files.Reader) (s : Session)

theorem matches_handleWith (id : Id) (request : Request) :
    Matches (s.handle read id request) (s.handleWith tour.publishAll read id request) := by
  cases request with
  | configure setting =>
    cases setting with
    | none => exact ⟨rfl, .refl _⟩
    | some setting =>
      simp only [handle, handleWith]
      split
      · exact ⟨rfl, .refl _⟩
      · simpa using (tour.matches_publishAll (reload read { s with setting }).1).between _ fun _ => []
  | selectTable path => exact (tour.matches_publishAll _).between _ fun t => [.send (.result id (.setting t.setting))]
  | reloadTable => exact (tour.matches_publishAll _).between _ fun t => [.send (.result id (.setting t.setting))]
  | resetTable =>
    exact (tour.matches_publishAll { s with setting := [], active := .builtIn }).between
      [.send (.notify .info (utf8 "Using the default CS2200 instruction table"))]
      fun t => [.send (.result id (.setting t.setting))]
  | start | started | «open» | close | change | diagnose | willSave | hover | complete | shutdown | exit =>
    exact ⟨rfl, .refl _⟩

theorem matches_receiveWith (m : Message) :
    Matches (s.receive read m) (s.receiveWith tour.publishAll read m) := by
  cases hm : Request.ofMessage m with
  | error refusal =>
    rw [receive_of_error hm, receiveWith_of_error hm]
    exact ⟨rfl, .refl _⟩
  | ok request =>
    obtain ⟨hs, he⟩ := matches_handleWith tour read s (m.id.getD (.number 0)) request
    rw [receive_of_ok hm, receiveWith_of_ok hm]
    exact ⟨hs, he.cons _⟩

theorem matches_takeWith (a : Arrival) : Matches (s.take read a) (s.takeWith tour.publishAll read a) := by
  cases a with
  | message m => exact matches_receiveWith tour read s m
  | answer => exact ⟨rfl, .refl _⟩
  | garbled => exact ⟨rfl, .refl _⟩

/-! ## Runs in any order -/

/-- Takes messages one after the other, each with a tour of its own. -/
def runIn (s : Session) : List (Tour × Step) → Session × List Event
  | [] => (s, [])
  | (tour, read, m) :: rest =>
    let (s, events) := s.receiveWith tour.publishAll read m
    let (s, later) := runIn s rest
    (s, events ++ later)

/-- Whatever the tours, a run ends in the same session and sends the same but for the order of publications. -/
theorem matches_runIn (steps : List (Tour × Step)) : ∀ s : Session,
    Matches (s.run (steps.map (·.2))) (s.runIn steps) := by
  induction steps with
  | nil => intro s; exact ⟨rfl, .refl _⟩
  | cons step steps ih =>
    obtain ⟨tour, read, m⟩ := step
    intro s
    obtain ⟨hs, he⟩ := matches_receiveWith tour read s m
    obtain ⟨hs', he'⟩ := ih (s.receive read m).1
    simp only [List.map_cons, run, runIn, ← hs]
    exact ⟨hs', he.append he'⟩

/-- What arrives until the conversation ends, each with what the server does because of it on a tour of its own. -/
def exchangesIn (s : Session) : List (Tour × Files.Reader × Arrival) → List (Arrival × List Event)
  | [] => []
  | (tour, read, a) :: rest =>
    let (s, events) := s.takeWith tour.publishAll read a
    (a, events) :: if events.any Event.endsConversation then [] else exchangesIn s rest

/-- Whatever the tours, the same is exchanged but for the order of publications. -/
theorem map_exchangesIn {α : Type} {view : List Event → α} (hv : ∀ es es', Reordered es es' → view es = view es')
    (arrivals : List (Tour × Files.Reader × Arrival)) : ∀ s : Session,
    (s.exchangesIn arrivals).map (fun x => (x.1, view x.2)) =
      (s.exchanges (arrivals.map (·.2))).map fun x => (x.1, view x.2) := by
  induction arrivals with
  | nil => intro s; rfl
  | cons arrival arrivals ih =>
    obtain ⟨tour, read, a⟩ := arrival
    intro s
    obtain ⟨hs, he⟩ := matches_takeWith tour read s a
    simp only [List.map_cons, exchanges, exchangesIn, ← hs, ← he.any_endsConversation_eq, hv _ _ he]
    split
    · rfl
    · rw [ih]

end Session

/-! ## What holds in every order -/

section

variable {es es' : List Event}

theorem InSync.of_reordered {history : List Message} {s : Session} {uri : Bytes} (h : InSync history s es uri)
    (he : Reordered es es') : InSync history s es' uri := by
  obtain ⟨hpublished, hversion, hreported, hhovered, hcached⟩ := h
  rw [he.lastPublished?_eq] at hpublished hversion
  exact ⟨hpublished, hversion, hreported, hhovered, hcached⟩

theorem isDisciplined_congr (m : Message) (h : answersOf es = answersOf es') :
    IsDisciplined m es ↔ IsDisciplined m es' := by
  constructor
  · rintro ⟨hn, hr⟩
    exact ⟨h ▸ hn, h ▸ hr⟩
  · rintro ⟨hn, hr⟩
    exact ⟨h ▸ hn, h ▸ hr⟩

end

/-- The client and the server agree after every orderly run, whatever the tours. -/
theorem inSync_runIn (steps : List (Tour × Session.Step)) (h : IsOrderly (steps.map (·.2.2))) (uri : Bytes) :
    InSync (steps.map (·.2.2)) (Session.fresh.runIn steps).1 (Session.fresh.runIn steps).2 uri := by
  obtain ⟨hs, he⟩ := Session.matches_runIn steps .fresh
  have hmessages : steps.map (·.2.2) = (steps.map (·.2)).map (·.2) := by simp
  rw [hmessages] at h ⊢
  rw [← hs]
  exact ((Invariant.run _ h).inSync uri).of_reordered he

open Session in
/-- The table, the workspace and the setting are coherent, and the user is told of a load, whatever the tours. -/
theorem isCoherent_runIn (steps : List (Tour × Step)) :
    IsCoherent (fresh.latestLoad? (steps.map (·.2))) (fresh.runIn steps).1 ∧
      ∀ (tour : Tour) (read : Files.Reader) (m : Message), ((fresh.runIn steps).1.loading? m).isSome →
        noticesOf ((fresh.runIn steps).1.receiveWith tour.publishAll read m).2 =
          [if ((fresh.runIn steps).1.receive read m).1.active.isDefault then .error else .info] := by
  rw [← (matches_runIn steps fresh).session]
  refine ⟨.run _, fun tour read m h => ?_⟩
  obtain ⟨t, ht⟩ := Option.isSome_iff_exists.1 h
  rw [← (matches_receiveWith tour read _ m).events.noticesOf_eq]
  exact noticesOf_receive ht read

/-- The same exchanges are disciplined, whatever the tours. -/
theorem isDisciplined_iff_of_mem_exchangesIn {s : Session} {arrivals : List (Tour × Files.Reader × Arrival)}
    {m : Message} {events : List Event} (h : (.message m, events) ∈ s.exchangesIn arrivals) :
    (IsDisciplined m events ↔ ¬ IsStray m) ∧ (IsStray m → answersOf events = [.number 0]) := by
  have hmem := List.mem_map_of_mem (f := fun x : Arrival × List Event => (x.1, answersOf x.2)) h
  rw [Session.map_exchangesIn fun _ _ => Reordered.answersOf_eq] at hmem
  obtain ⟨⟨a, events'⟩, hmem, heq⟩ := List.mem_map.1 hmem
  obtain ⟨rfl, hanswers⟩ := Prod.mk.inj heq
  obtain ⟨read, s', rfl⟩ := Session.exists_take_of_mem_exchanges hmem
  rw [← isDisciplined_congr m hanswers, ← hanswers]
  exact ⟨isDisciplined_receive_iff read s' m, fun hstray => hstray.answersOf_receive read s'⟩

/-- Open documents do not interfere, whatever the tours with and without what is about other documents. -/
theorem exchangesIn_filter_isElsewhere (uri : Bytes) {arrivals rest : List (Tour × Files.Reader × Arrival)}
    (h : rest.map (·.2) = (arrivals.map (·.2)).filter (!·.2.isElsewhere uri)) :
    (Session.fresh.exchangesIn rest).map (fun x => (x.1, eventsFor uri x.2)) =
      ((Session.fresh.exchangesIn arrivals).filter (!·.1.isElsewhere uri)).map fun x => (x.1, eventsFor uri x.2) := by
  have hv (es es' : List Event) (he : Reordered es es') : eventsFor uri es = eventsFor uri es' := he.eventsFor uri
  have hfilter (xs : List (Arrival × List Event)) :
      (xs.map fun x => (x.1, eventsFor uri x.2)).filter (!·.1.isElsewhere uri) =
        (xs.filter (!·.1.isElsewhere uri)).map fun x => (x.1, eventsFor uri x.2) := by
    rw [List.filter_map]
    rfl
  have honly := Session.exchanges_only uri (arrivals.map (·.2)) .fresh
  rw [Session.only_fresh, ← hfilter, ← Session.map_exchangesIn hv, hfilter] at honly
  rw [Session.map_exchangesIn hv, h, honly, List.map_map]
  congr 1
  funext x
  exact Prod.ext rfl (eventsFor_eventsFor uri x.2)

end AsmLens.Server
