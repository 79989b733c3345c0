import AsmLens.Proofs.Server.Method

/-!
# Refused messages

A message fails (`Fails`) if its method is unknown, if the parameters that its method reads are missing or of the wrong
shape, or if it executes a command that is unknown or lacks the file to select (`CommandFails`).

* `ofMessage_eq_error_iff`: these are the messages that are refused, each for its own reason.
* `receive_of_fails`: a message that fails leaves the session as it was and sends nothing but the refusal of a request.
-/

namespace AsmLens.Server

namespace Request

open Json (Reader)

/-! ## Failures -/

/-- The message executes a command and has parameters to that effect. -/
def Executes (m : Message) (p : CommandParams) : Prop :=
  m.method = executeMethod ∧ ∃ json, m.params = some json ∧ CommandParams.read ⟨[], .empty⟩ json = some p

/-- The ways in which a command fails. -/
inductive CommandFails (p : CommandParams) : Refusal → Prop
  | unknown (hc : p.command ∉ commands) : CommandFails p (.unknownCommand p.command)
  | nothingSelected (hc : p.command = selectCommand) (ha : p.arguments.items = []) : CommandFails p .noSelection
  /-- What is selected is not a text. -/
  | unreadable {path : Json} {rest : List Json} (hc : p.command = selectCommand) (ha : p.arguments.items = path :: rest)
      (ht : Reader.text [] path = none) : CommandFails p .undecodable

/-- The ways in which a message fails, each with the reason that is given. -/
inductive Fails (m : Message) : Refusal → Prop
  | unsupported (h : m.method ∉ supported) : Fails m (.unsupported m.method)
  | missing {reads : Json → Bool} (hr : (m.method, reads) ∈ readable) (hp : m.params = none) : Fails m .missingParams
  | unreadable {reads : Json → Bool} {json : Json} (hr : (m.method, reads) ∈ readable) (hp : m.params = some json)
      (hj : reads json = false) : Fails m .undecodable
  | command {p : CommandParams} {r : Refusal} (hp : Executes m p) (hc : CommandFails p r) : Fails m r

/-! ## Reading parameters -/

section

variable {α : Type} {fresh : α} {read : Reader α} {params : Option Json}

theorem decode_eq_ok_iff {p : α} :
    decode fresh read params = .ok p ↔ ∃ json, params = some json ∧ read fresh json = some p := by
  cases params with
  | none => simp [decode]
  | some json => cases h : read fresh json <;> simp [decode, h]

theorem decode_eq_error_iff {r : Refusal} : decode fresh read params = .error r ↔
    (params = none ∧ r = .missingParams) ∨
      ∃ json, params = some json ∧ (read fresh json).isSome = false ∧ r = .undecodable := by
  cases params with
  | none => simp [decode, @eq_comm _ r]
  | some json => cases h : read fresh json <;> simp [decode, h, @eq_comm _ r]

end

theorem ofCommand_eq_error_iff {p : CommandParams} {r : Refusal} : ofCommand p = .error r ↔ CommandFails p r := by
  constructor
  · intro h
    simp only [ofCommand, beq_iff_eq] at h
    split at h
    · next hs =>
      split at h
      · next ha => cases h; exact .nothingSelected hs ha
      · next path rest ha =>
        split at h
        · cases h
        · next ht => cases h; exact .unreadable hs ha ht
    · next hs =>
      split at h
      · cases h
      · next hl =>
        split at h
        · cases h
        · next ht => cases h; exact .unknown (by simp [commands, hs, hl, ht])
  · intro h
    cases h with
    | unknown hc =>
      simp only [commands, List.mem_cons, List.not_mem_nil, or_false, not_or] at hc
      simp [ofCommand, hc]
    | nothingSelected hc ha => simp [ofCommand, hc, ha]
    | unreadable hc ha ht => simp [ofCommand, hc, ha, ht]

/-! ## Messages -/

/-- A method that reads parameters refuses what it cannot read. -/
theorem ofMessage_of_mem_readable {m : Message} {reads : Json → Bool} (h : (m.method, reads) ∈ readable) {r : Refusal}
    (hd : (m.params = none ∧ r = .missingParams) ∨
      ∃ json, m.params = some json ∧ reads json = false ∧ r = .undecodable) : ofMessage m = .error r := by
  have hname : m.method ∈ readable.map (·.1) := List.mem_map.2 ⟨_, h, rfl⟩
  -- a name has one entry among the methods that read parameters
  have hone {reads' : Json → Bool} (h' : (m.method, reads') ∈ readable) : reads = reads' :=
    Option.some.inj ((lookup_eq_some_of_mem nodup_readable h).symm.trans (lookup_eq_some_of_mem nodup_readable h'))
  obtain ⟨f, hf, he⟩ := exists_entry (mem_supported_of_mem_readable hname)
  rw [he]
  cases hf with
  | fixed _ hr _ => exact absurd hname hr
  | reading fresh read ask hr _ =>
    cases hone hr
    exact map_eq_error_iff.2 (decode_eq_error_iff.2 hd)
  | command _ hr =>
    cases hone hr
    exact bind_eq_error_iff.2 (.inl (decode_eq_error_iff.2 hd))

theorem ofMessage_of_executes {m : Message} {p : CommandParams} (h : Executes m p) : ofMessage m = ofCommand p := by
  obtain ⟨hm, json, hj, hp⟩ := h
  have hmem : (executeMethod, fun params => (decode ⟨[], .empty⟩ CommandParams.read params).bind ofCommand) ∈ methods :=
    List.mem_of_getElem? (i := 10) rfl
  rw [ofMessage, hm, lookup_eq_some_of_mem nodup_supported hmem]
  simp only [decode_eq_ok_iff.2 ⟨json, hj, hp⟩]
  rfl

/-- A message is refused if and only if it fails, and for that reason. -/
theorem ofMessage_eq_error_iff {m : Message} {r : Refusal} : ofMessage m = .error r ↔ Fails m r := by
  constructor
  · intro h
    rcases ofMessage_cases m with ⟨hm, he⟩ | ⟨f, hf, he⟩
    · rw [he] at h
      cases h
      exact .unsupported hm
    · rw [he] at h
      -- parameters that cannot be read
      have hread {reads : Json → Bool} (hr : (m.method, reads) ∈ readable)
          (hd : (m.params = none ∧ r = .missingParams) ∨
            ∃ json, m.params = some json ∧ reads json = false ∧ r = .undecodable) : Fails m r := by
        rcases hd with ⟨hp, rfl⟩ | ⟨json, hp, hj, rfl⟩
        · exact .missing hr hp
        · exact .unreadable hr hp hj
      cases hf with
      | fixed _ _ _ => cases h
      | reading fresh read ask hr _ => exact hread hr (decode_eq_error_iff.1 (map_eq_error_iff.1 h))
      | command hn hr =>
        rcases bind_eq_error_iff.1 h with h | ⟨p, hp, hc⟩
        · exact hread hr (decode_eq_error_iff.1 h)
        · exact .command ⟨hn, decode_eq_ok_iff.1 hp⟩ (ofCommand_eq_error_iff.1 hc)
  · intro h
    cases h with
    | unsupported hm => exact ofMessage_of_not_mem hm
    | missing hr hp => exact ofMessage_of_mem_readable hr (.inl ⟨hp, rfl⟩)
    | unreadable hr hp hj => exact ofMessage_of_mem_readable hr (.inr ⟨_, hp, hj, rfl⟩)
    | command hp hc => rw [ofMessage_of_executes hp, ofCommand_eq_error_iff.2 hc]

end Request

/-! ## Sessions -/

/-- A refusal sends one answer to a request and nothing to a notification. -/
theorem Session.filterMap_message?_refuse (m : Message) (r : Refusal) :
    (refuse m r).filterMap Event.message? = m.id.toList.map (Outgoing.refusal · r) := by
  simp only [refuse, List.filterMap_append]
  cases m.id <;> cases r <;> rfl

/-- A message that fails leaves the session as it was. If it is a request, the refusal is all that is sent; if it is a
notification, nothing is. -/
theorem receive_of_fails {m : Message} {r : Refusal} (h : Request.Fails m r) (read : Files.Reader) (s : Session) :
    (s.receive read m).1 = s ∧
      (s.receive read m).2.filterMap Event.message? = m.id.toList.map (Outgoing.refusal · r) := by
  rw [Session.receive_of_error (Request.ofMessage_eq_error_iff.2 h)]
  refine ⟨rfl, ?_⟩
  rw [List.filterMap_cons_none rfl, Session.filterMap_message?_refuse]

/-- The selection of a file by a value that is not a text. -/
def misselection : Message :=
  ⟨Request.executeMethod, some (.number 7),
    some (.ofMembers [("command", .string Request.selectCommand), ("arguments", .array [.bool true, .null])])⟩

/-- A session with a document, a workspace and a setting. -/
def settled : Session :=
  ⟨Dictionary.empty.insert (utf8 "file:///work/a.asm") ⟨assemblyLanguage, 3, utf8 "halt", none⟩, .builtIn, utf8 "/work",
    utf8 "lab.isa", 1⟩

theorem receive_of_fails_misselection :
    Request.Fails misselection .undecodable ∧ (settled.receive (fun _ => .error .noEntry) misselection).1 = settled ∧
      (settled.receive (fun _ => .error .noEntry) misselection).2.filterMap Event.message? =
        [.refusal (.number 7) .undecodable] := by
  have h : Request.Fails misselection .undecodable :=
    .command (p := ⟨Request.selectCommand, ⟨[.bool true, .null], []⟩⟩) ⟨rfl, _, rfl, rfl⟩ (.unreadable rfl rfl rfl)
  exact ⟨h, receive_of_fails h _ settled⟩

end AsmLens.Server
