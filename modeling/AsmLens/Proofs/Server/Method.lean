import AsmLens.Proofs.Server.Run
import Mathlib.Data.List.Nodup

/-!
# What methods do

Every supported method has one entry in the table of methods, and there are three kinds of them (`Entry`): some ask for
one thing whatever the parameters are, some read parameters and always ask for the same sort of thing, and one executes
commands. `entry_of_mem` goes through the table once; what holds of all methods follows from it by three cases.

* `ofMessage_cases`: a message is of an unsupported method, or the entry of its method says what it asks for.
* `isAnswered_of_ofMessage`: whether what is asked for has an answer depends on the method alone.
-/

namespace AsmLens.Server

namespace Request

open Json (Reader)

/-! ## Names of methods -/

/-- The methods that a session understands. -/
def supported : List Bytes := methods.map (·.1)

def executeMethod : Bytes := utf8 "workspace/executeCommand"

/-- The methods that are answered when they succeed. -/
def answered : List Bytes := [
  utf8 "initialize", utf8 "textDocument/diagnostic", utf8 "textDocument/willSaveWaitUntil", utf8 "textDocument/hover",
  utf8 "textDocument/completion", executeMethod, utf8 "shutdown"]

/-- The methods that read parameters, each with whether it can read a value. -/
def readable : List (Bytes × (Json → Bool)) := [
  (utf8 "initialize", fun json => (StartParams.read ⟨[], [], none⟩ json).isSome),
  (utf8 "textDocument/didOpen", fun json => (OpenParams.read ⟨[], [], 0, []⟩ json).isSome),
  (utf8 "textDocument/didClose", fun json => (readUri [] json).isSome),
  (utf8 "textDocument/didChange", fun json => (ChangeParams.read ⟨[], 0, .empty⟩ json).isSome),
  (utf8 "textDocument/diagnostic", fun json => (readUri [] json).isSome),
  (utf8 "textDocument/willSaveWaitUntil", fun json => (readSave [] json).isSome),
  (utf8 "textDocument/hover", fun json => (PointParams.read ⟨[], 0, 0⟩ json).isSome),
  (utf8 "textDocument/completion", fun json => (PointParams.read ⟨[], 0, 0⟩ json).isSome),
  (utf8 "workspace/didChangeConfiguration", fun json => (readConfiguration none json).isSome),
  (executeMethod, fun json => (CommandParams.read ⟨[], .empty⟩ json).isSome)]

/-- Whether a request has an answer. -/
def isAnswered : Request → Bool
  | .start .. | .diagnose .. | .willSave .. | .hover .. | .complete | .selectTable .. | .reloadTable | .resetTable
  | .shutdown => true
  | .started | .open .. | .close .. | .change .. | .configure .. | .exit => false

/-! ## The table of methods -/

/-- What a method may make of its parameters. -/
inductive Entry : Bytes → (Option Json → Except Refusal Request) → Prop
  | fixed {name : Bytes} (request : Request) (hr : name ∉ readable.map (·.1))
      (ha : request.isAnswered = answered.contains name) : Entry name fun _ => .ok request
  | reading {name : Bytes} {α : Type} (fresh : α) (read : Reader α) (ask : α → Request)
      (hr : (name, fun json => (read fresh json).isSome) ∈ readable)
      (ha : ∀ p, (ask p).isAnswered = answered.contains name) :
      Entry name fun params => (decode fresh read params).map ask
  | command {name : Bytes} (hn : name = executeMethod)
      (hr : (name, fun json => (CommandParams.read ⟨[], .empty⟩ json).isSome) ∈ readable) :
      Entry name fun params => (decode ⟨[], .empty⟩ CommandParams.read params).bind ofCommand

theorem entry_of_mem {name : Bytes} {f : Option Json → Except Refusal Request} (h : (name, f) ∈ methods) :
    Entry name f := by
  simp only [methods, List.mem_cons, Prod.mk.injEq, List.not_mem_nil, or_false] at h
  rcases h with ⟨rfl, rfl⟩ | ⟨rfl, rfl⟩ | ⟨rfl, rfl⟩ | ⟨rfl, rfl⟩ | ⟨rfl, rfl⟩ | ⟨rfl, rfl⟩ | ⟨rfl, rfl⟩ | ⟨rfl, rfl⟩ |
    ⟨rfl, rfl⟩ | ⟨rfl, rfl⟩ | ⟨rfl, rfl⟩ | ⟨rfl, rfl⟩ | ⟨rfl, rfl⟩
  · exact .reading _ _ _ (List.mem_of_getElem? (i := 0) rfl) fun _ => rfl
  · exact .fixed .started (by decide +kernel) rfl
  · exact .reading _ _ _ (List.mem_of_getElem? (i := 1) rfl) fun _ => rfl
  · exact .reading _ _ _ (List.mem_of_getElem? (i := 2) rfl) fun _ => rfl
  · exact .reading _ _ _ (List.mem_of_getElem? (i := 3) rfl) fun _ => rfl
  · exact .reading _ _ _ (List.mem_of_getElem? (i := 4) rfl) fun _ => rfl
  · exact .reading _ _ _ (List.mem_of_getElem? (i := 5) rfl) fun _ => rfl
  · exact .reading _ _ _ (List.mem_of_getElem? (i := 6) rfl) fun _ => rfl
  · exact .reading _ _ _ (List.mem_of_getElem? (i := 7) rfl) fun _ => rfl
  · exact .reading _ _ _ (List.mem_of_getElem? (i := 8) rfl) fun _ => rfl
  · exact .command rfl (List.mem_of_getElem? (i := 9) rfl)
  · exact .fixed .shutdown (by decide +kernel) rfl
  · exact .fixed .exit (by decide +kernel) rfl

theorem lookup_eq_some_of_mem {α : Type} {l : List (Bytes × α)} (hl : (l.map (·.1)).Nodup) {k : Bytes} {v : α}
    (h : (k, v) ∈ l) : l.lookup k = some v := by
  induction l with
  | nil => cases h
  | cons e l ih =>
    obtain ⟨hfirst, hrest⟩ := List.nodup_cons.1 hl
    rcases List.mem_cons.1 h with rfl | h
    · simp
    · have hne : k ≠ e.1 := fun hk => hfirst (List.mem_map.2 ⟨(k, v), h, hk⟩)
      rw [Dictionary.lookup_entry, if_neg hne]
      exact ih hrest h

theorem nodup_supported : supported.Nodup := by decide +kernel

theorem nodup_readable : (readable.map (·.1)).Nodup := by decide +kernel

theorem mem_supported_of_mem_readable {name : Bytes} (h : name ∈ readable.map (·.1)) : name ∈ supported := by
  have hall : ∀ k ∈ readable.map (·.1), k ∈ supported := by decide +kernel
  exact hall name h

/-! ## Steps that can be refused -/

section

variable {ε α β : Type} {x : Except ε α}

theorem map_eq_ok_iff {g : α → β} {b : β} : x.map g = .ok b ↔ ∃ a, x = .ok a ∧ g a = b := by
  cases x <;> simp [Except.map]

theorem map_eq_error_iff {g : α → β} {e : ε} : x.map g = .error e ↔ x = .error e := by
  cases x <;> simp [Except.map]

theorem bind_eq_ok_iff {g : α → Except ε β} {b : β} : x.bind g = .ok b ↔ ∃ a, x = .ok a ∧ g a = .ok b := by
  cases x <;> simp [Except.bind]

theorem bind_eq_error_iff {g : α → Except ε β} {e : ε} :
    x.bind g = .error e ↔ x = .error e ∨ ∃ a, x = .ok a ∧ g a = .error e := by
  cases x <;> simp [Except.bind]

end

/-! ## Messages -/

theorem exists_entry {m : Message} (h : m.method ∈ supported) : ∃ f, Entry m.method f ∧ ofMessage m = f m.params := by
  obtain ⟨⟨name, f⟩, hmem, hname⟩ := List.mem_map.1 h
  obtain rfl : name = m.method := hname
  exact ⟨f, entry_of_mem hmem, by rw [ofMessage, lookup_eq_some_of_mem nodup_supported hmem]⟩

theorem ofMessage_of_not_mem {m : Message} (h : m.method ∉ supported) :
    ofMessage m = .error (.unsupported m.method) := by
  have hnone : methods.lookup m.method = none := by
    rw [List.lookup_eq_none_iff]
    intro e he
    have hne : m.method ≠ e.1 := fun hk => h (List.mem_map.2 ⟨e, he, hk.symm⟩)
    simpa using hne
  rw [ofMessage, hnone]

theorem ofMessage_cases (m : Message) :
    (m.method ∉ supported ∧ ofMessage m = .error (.unsupported m.method)) ∨
      ∃ f, Entry m.method f ∧ ofMessage m = f m.params := by
  by_cases h : m.method ∈ supported
  · exact .inr (exists_entry h)
  · exact .inl ⟨h, ofMessage_of_not_mem h⟩

/-- Every command has an answer. -/
theorem isAnswered_of_ofCommand {p : CommandParams} {request : Request} (h : ofCommand p = .ok request) :
    request.isAnswered = true := by
  simp only [ofCommand] at h
  split at h
  · split at h
    · cases h
    · split at h
      · cases h; rfl
      · cases h
  · split at h
    · cases h; rfl
    · split at h
      · cases h; rfl
      · cases h

theorem isAnswered_of_ofMessage {m : Message} {request : Request} (h : ofMessage m = .ok request) :
    request.isAnswered = answered.contains m.method := by
  rcases ofMessage_cases m with ⟨-, he⟩ | ⟨f, hf, he⟩
  · rw [he] at h
    cases h
  · rw [he] at h
    cases hf with
    | fixed request _ ha =>
      cases h
      exact ha
    | reading fresh read ask _ ha =>
      obtain ⟨p, -, rfl⟩ := map_eq_ok_iff.1 h
      exact ha p
    | command hn _ =>
      obtain ⟨p, -, hp⟩ := bind_eq_ok_iff.1 h
      rw [isAnswered_of_ofCommand hp, hn]
      rfl

end Request

end AsmLens.Server
