import AsmLens.Proofs.Server.Refusal

/-!
# Answers

A result and a refusal are answers, each to the request with the identity that it carries; everything else that a
session sends answers nothing. In a disciplined exchange a notification has no answer, and a request that asks for
something, or that nobody understands, has one (`IsDisciplined`).

Carrying out a request answers it once or not at all, and which of the two depends on its method (`answersOf_handle`). A
refusal looks whether there is somebody to answer and a success does not: exchanges are disciplined except for the
notifications that ask for something and get it (`IsStray`), whose answer goes to the number 0
(`isDisciplined_iff_of_mem_exchanges`).
-/

namespace AsmLens.Server

/-! ## Answers among events -/

/-- The identity that an event answers. -/
def Event.answered? : Event → Option Id
  | .send (.result id _) | .send (.refusal id _) => some id
  | _ => none

/-- The identities that are answered, in order. -/
def answersOf (events : List Event) : List Id := events.filterMap Event.answered?

@[simp]
theorem answersOf_nil : answersOf [] = [] := rfl

@[simp]
theorem answersOf_append (es es' : List Event) : answersOf (es ++ es') = answersOf es ++ answersOf es' :=
  List.filterMap_append ..

@[simp]
theorem answersOf_result (id : Id) (r : Result) (es : List Event) :
    answersOf (.send (.result id r) :: es) = id :: answersOf es := rfl

theorem sees_answered? : Sees .answer Event.answered? := by
  intro e he
  unfold Event.answered?
  split
  · exact absurd rfl he
  · exact absurd rfl he
  · rfl

@[simp]
theorem answersOf_cons_of_ne {e : Event} (h : ¬ e.purpose = .answer) (es : List Event) :
    answersOf (e :: es) = answersOf es :=
  List.filterMap_cons_none (sees_answered? e h)

theorem OnlyFor.answersOf_eq_nil {purposes : List Purpose} {es : List Event} (h : OnlyFor purposes es)
    (hp : Purpose.answer ∉ purposes) : answersOf es = [] :=
  List.filterMap_eq_nil_iff.2 (sees_answered?.eq_none h hp)

namespace Session

@[simp]
theorem answersOf_publishAll (s : Session) : answersOf s.publishAll.2 = [] :=
  (onlyFor_publishAll s).answersOf_eq_nil (by decide)

@[simp]
theorem answersOf_reload (read : Files.Reader) (s : Session) : answersOf (s.reload read).2 = [] :=
  (onlyFor_reload read s).answersOf_eq_nil (by decide)

@[simp]
theorem answersOf_rootOf (rootUri rootPath : Bytes) : answersOf (rootOf rootUri rootPath).2 = [] :=
  (onlyFor_rootOf rootUri rootPath).answersOf_eq_nil (by decide)

/-! ## Messages -/

/-- Carrying out a request answers it once if it has an answer, and else not at all. -/
theorem answersOf_handle (read : Files.Reader) (s : Session) (id : Id) (request : Request) :
    answersOf (s.handle read id request).2 = if request.isAnswered then [id] else [] := by
  cases request with
  | start rootUri rootPath setting => simp [handle, handleWith, Request.isAnswered]
  | started => rfl
  | «open» uri language version text =>
    simp only [handle, handleWith]
    split <;> rfl
  | close uri => rfl
  | change uri version texts =>
    simp only [handle, handleWith]
    split
    · split <;> rfl
    · rfl
  | diagnose uri => rfl
  | willSave uri =>
    simp only [handle, handleWith]
    split
    · split <;> rfl
    · rfl
  | hover uri position =>
    simp only [handle, handleWith]
    split <;> rfl
  | complete => rfl
  | configure setting =>
    simp only [handle, handleWith]
    split
    · rfl
    · split
      · rfl
      · simp [Request.isAnswered]
  | selectTable path => simp [handle, handleWith, Request.isAnswered]
  | reloadTable => simp [handle, handleWith, Request.isAnswered]
  | resetTable => simp [handle, handleWith, Request.isAnswered]
  | shutdown => rfl
  | exit => rfl

theorem answersOf_receive_of_ok {m : Message} {request : Request} (h : Request.ofMessage m = .ok request)
    (read : Files.Reader) (s : Session) :
    answersOf (s.receive read m).2 = if m.method ∈ Request.answered then [m.id.getD (.number 0)] else [] := by
  rw [receive_of_ok h, answersOf_cons_of_ne (by simp), answersOf_handle, Request.isAnswered_of_ofMessage h]
  simp only [List.contains_iff_mem]

theorem answersOf_receive_of_error {m : Message} {r : Refusal} (h : Request.ofMessage m = .error r)
    (read : Files.Reader) (s : Session) : answersOf (s.receive read m).2 = m.id.toList := by
  rw [receive_of_error h, answersOf_cons_of_ne (by simp)]
  simp only [refuse, answersOf_append]
  cases m.id <;> cases r <;> rfl

end Session

/-! ## Discipline -/

/-- The message has the answers that its client waits for. -/
structure IsDisciplined (m : Message) (events : List Event) : Prop where
  notification : m.id = none → answersOf events = []
  request : ∀ id, m.id = some id → m.method ∈ Request.answered ∨ m.method ∉ Request.supported → answersOf events = [id]

/-- A notification that asks for something and does not fail. -/
structure IsStray (m : Message) : Prop where
  id_eq_none : m.id = none
  mem_answered : m.method ∈ Request.answered
  not_fails : ∀ r, ¬ Request.Fails m r

theorem forall_not_fails_iff {m : Message} :
    (∀ r, ¬ Request.Fails m r) ↔ ∃ request, Request.ofMessage m = .ok request := by
  simp only [← Request.ofMessage_eq_error_iff]
  cases Request.ofMessage m <;> simp

theorem IsStray.answersOf_receive {m : Message} (h : IsStray m) (read : Files.Reader) (s : Session) :
    answersOf (s.receive read m).2 = [.number 0] := by
  obtain ⟨request, hr⟩ := forall_not_fails_iff.1 h.not_fails
  rw [Session.answersOf_receive_of_ok hr, if_pos h.mem_answered, h.id_eq_none]
  rfl

/-- Stray notifications break the discipline in every state of the session, and no other message does in any. -/
theorem isDisciplined_receive_iff (read : Files.Reader) (s : Session) (m : Message) :
    IsDisciplined m (s.receive read m).2 ↔ ¬ IsStray m := by
  constructor
  · intro hd hstray
    have hanswers := hstray.answersOf_receive read s
    rw [hd.notification hstray.id_eq_none] at hanswers
    cases hanswers
  · intro hstray
    cases h : Request.ofMessage m with
    | error r =>
      have hanswers := Session.answersOf_receive_of_error h read s
      exact ⟨fun hid => by rw [hanswers, hid]; rfl, fun id hid _ => by rw [hanswers, hid]; rfl⟩
    | ok request =>
      have hanswers := Session.answersOf_receive_of_ok h read s
      have hnot := forall_not_fails_iff.2 ⟨request, h⟩
      refine ⟨fun hid => ?_, fun id hid hm => ?_⟩
      · rw [hanswers, if_neg fun hm => hstray ⟨hid, hm, hnot⟩]
      · -- a method that is not supported fails
        have hm : m.method ∈ Request.answered := hm.resolve_right fun hs => hnot _ (.unsupported hs)
        rw [hanswers, if_pos hm, hid]
        rfl

/-! ## Conversations -/

def Event.endsConversation : Event → Bool
  | .hangUp => true
  | _ => false

/-- What arrives until the conversation ends, each with what the server does because of it. An arrival comes with what
reading a file gives at the time. -/
def Session.exchanges (s : Session) : List (Files.Reader × Arrival) → List (Arrival × List Event)
  | [] => []
  | (read, a) :: rest =>
    let (s, events) := s.take read a
    (a, events) :: if events.any Event.endsConversation then [] else exchanges s rest

/-- Whatever is exchanged is exchanged in some state of the session. -/
theorem Session.exists_take_of_mem_exchanges {a : Arrival} {events : List Event} :
    ∀ {arrivals : List (Files.Reader × Arrival)} {s : Session}, (a, events) ∈ s.exchanges arrivals →
      ∃ (read : Files.Reader) (s' : Session), events = (s'.take read a).2
  | [], _, h => by cases h
  | (read, _) :: rest, s, h => by
    rcases List.mem_cons.1 h with h | h
    · cases h
      exact ⟨read, s, rfl⟩
    · exact exists_take_of_mem_exchanges (List.mem_ite_nil_left.1 h).2

/-- In every conversation, the exchanges that are not disciplined are those of stray notifications, which are answered
as if they were the request with the number 0. -/
theorem isDisciplined_iff_of_mem_exchanges {s : Session} {arrivals : List (Files.Reader × Arrival)} {m : Message}
    {events : List Event} (h : (.message m, events) ∈ s.exchanges arrivals) :
    (IsDisciplined m events ↔ ¬ IsStray m) ∧ (IsStray m → answersOf events = [.number 0]) := by
  obtain ⟨read, s', rfl⟩ := Session.exists_take_of_mem_exchanges h
  exact ⟨isDisciplined_receive_iff read s' m, fun hstray => hstray.answersOf_receive read s'⟩

/-- A shutdown, as a request or as a notification. -/
def shutdown (id : Option Id) : Message := ⟨utf8 "shutdown", id, none⟩

/-- A client that shuts down once too often and then leaves. -/
def farewell : List (Files.Reader × Arrival) :=
  [.message (shutdown (some (.text (utf8 "a")))), .message (shutdown none), .message ⟨utf8 "exit", none, none⟩].map
    fun a => (fun _ => .error .noEntry, a)

theorem isDisciplined_iff_of_mem_exchanges_farewell :
    (Session.fresh.exchanges farewell).length = 3 ∧ IsStray (shutdown none) ∧
      ∃ events, (.message (shutdown none), events) ∈ Session.fresh.exchanges farewell ∧
        answersOf events = [.number 0] := by
  have hstray : IsStray (shutdown none) := ⟨rfl, by decide, forall_not_fails_iff.2 ⟨.shutdown, rfl⟩⟩
  have hmem : (.message (shutdown none), _) ∈ Session.fresh.exchanges farewell := List.mem_of_getElem? (i := 1) rfl
  exact ⟨rfl, hstray, _, hmem, (isDisciplined_iff_of_mem_exchanges hmem).2 hstray⟩

/-- Notifications have answers: not every conversation is disciplined. -/
theorem not_isDisciplined_farewell :
    ¬ ∀ m events, (.message m, events) ∈ Session.fresh.exchanges farewell → IsDisciplined m events := by
  intro h
  have hquiet := (h (shutdown none) _ (List.mem_of_getElem? (i := 1) rfl)).notification rfl
  cases hquiet

end AsmLens.Server
