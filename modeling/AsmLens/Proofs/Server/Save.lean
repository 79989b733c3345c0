import AsmLens.Proofs.Layout.Stability
import AsmLens.Proofs.Server.Run

/-!
# Edits before a document is saved

A client makes edits by place: the place of an octet is the number of line feeds before it and the number of octets
since the last of them (`offset`). The edit that lays a document out begins at its first octet and ends where its last
line ends (`applyAll_layoutEdits`). A carriage return at the very end of a text counts as a part of a line end even
though no line feed follows, and so it is not replaced: what the client is left with is the text laid out, and behind it
such a carriage return if the text had one (`applyAll_of_willSave`). A text that ends like this is never laid out
already (`getLast?_ne_of_format_eq`), so that there are no edits just where nothing is to be done.
-/

namespace AsmLens

/-! ## The last line -/

section

variable {text last : Bytes} {init : List Bytes}

theorem eq_of_splitOn (h : text.splitOn 10 = init ++ [last]) : text = init.flatMap (· ++ [10]) ++ last := by
  rw [← Bytes.join_concat, ← h]
  exact (List.intercalate_splitOn 10).symm

/-- A text ends in a carriage return just if its last line does. -/
theorem getLast?_eq_return_iff (h : text.splitOn 10 = init ++ [last]) :
    text.getLast? = some 13 ↔ last.getLast? = some 13 := by
  rw [eq_of_splitOn h]
  by_cases hne : last = []
  · subst hne
    rcases List.eq_nil_or_concat init with rfl | ⟨init, piece, rfl⟩
    · rfl
    · simp [List.flatMap_append]
  · rw [List.getLast?_append_of_ne_nil _ hne]

/-- What the last line loses when it is read. -/
theorem drop_length_chomp (line : Bytes) :
    line.drop (Source.chomp line).length = if line.getLast? = some 13 then [13] else [] := by
  split
  · next h =>
    conv_lhs => rw [Source.eq_append_return h, Source.chomp_append_return]
    exact List.drop_left
  · next h => rw [Source.chomp_eq_self h, List.drop_length]

end

namespace Layout

open Source (lines chomp)

/-- A line gets no carriage return when it is laid out. -/
theorem line_ne_append_return (n : Nat) (raw : Bytes) : line n raw ≠ raw ++ [13] := by
  intro h
  have hshort {p : UInt8 → Bool} {x : Bytes} (hx : Bytes.trimEnd p x = x ++ [13]) : False := by
    have := (Bytes.trimEnd_prefix p x).length_le
    rw [hx, List.length_append, List.length_singleton] at this
    omega
  by_cases hc : Source.comment raw = []
  · by_cases hv : IsVoid raw
    · rw [line_of_isVoid hv] at h
      exact hshort h
    · exact getLast?_line_ne hc hv n (by simp [h])
  · have hcomment : Source.comment (raw ++ [13]) = Source.comment raw ++ [13] := by
      unfold Source.comment at hc ⊢
      rw [List.dropWhile_append, if_neg (by simpa using hc)]
    have := comment_line n raw
    rw [h, hcomment] at this
    exact hshort this.symm

/-- A text that is laid out already does not end in a carriage return. -/
theorem getLast?_ne_of_format_eq {text : Bytes} (h : format text = text) : text.getLast? ≠ some 13 := by
  obtain ⟨init, last, hs⟩ := exists_splitOn_eq_concat text
  have hlines : lines text = init.map chomp ++ [chomp last] := by
    rw [Source.lines, hs, List.map_append, List.map_singleton]
  have hlast : last = line (indent (lines text)) (chomp last) := by
    have hpieces := splitOn_format hlines
    rw [h, hs] at hpieces
    exact List.singleton_inj.1 (List.append_inj' hpieces rfl).2
  intro hr
  have hr := (getLast?_eq_return_iff hs).1 hr
  exact line_ne_append_return _ _ (hlast.symm.trans (Source.eq_append_return hr))

end Layout

namespace Server

/-! ## Making edits -/

/-- How many octets of a text stand before a place, given by line and column: those of the lines before it, each with
its line feed, and those of its own line. -/
def offset (text : Bytes) (line column : Nat) : Nat :=
  (((text.splitOn 10).take line).flatMap (· ++ [10])).length + column

namespace TextEdit

/-- The text with the stretch that is meant replaced. -/
def apply (e : TextEdit) (text : Bytes) : Bytes :=
  text.take (offset text e.startLine e.startColumn) ++ e.newText ++ text.drop (offset text e.stopLine e.stopColumn)

/-- The text with edits made that stand in order. The last is made first, so that the places of the others stay. -/
def applyAll (edits : List TextEdit) (text : Bytes) : Bytes := edits.foldr apply text

end TextEdit

open TextEdit (applyAll)

/-- Places on the last line. -/
theorem offset_last {text last : Bytes} {init : List Bytes} (h : text.splitOn 10 = init ++ [last]) (column : Nat) :
    offset text init.length column = (init.flatMap (· ++ [10])).length + column := by
  rw [offset, h, List.take_left]

theorem layoutEdits_eq_nil_iff (text : Bytes) : Session.layoutEdits text = [] ↔ Layout.format text = text := by
  simp [Session.layoutEdits]

/-- A carriage return at the very end of a text stays behind. -/
theorem applyAll_layoutEdits (text : Bytes) :
    applyAll (Session.layoutEdits text) text =
      Layout.format text ++ if text.getLast? = some 13 then [13] else [] := by
  by_cases h : Layout.format text = text
  · rw [(layoutEdits_eq_nil_iff text).2 h, if_neg (Layout.getLast?_ne_of_format_eq h), h, List.append_nil]
    rfl
  · obtain ⟨init, last, hs⟩ := exists_splitOn_eq_concat text
    have hedits : Session.layoutEdits text =
        [⟨0, 0, init.length, (Source.chomp last).length, Layout.format text⟩] := by
      simp [Session.layoutEdits, h, Source.lines, hs]
    have hrest : text.drop (offset text init.length (Source.chomp last).length) =
        last.drop (Source.chomp last).length := by
      rw [offset_last hs]
      conv_lhs => rw [eq_of_splitOn hs]
      rw [List.drop_append, Nat.add_sub_cancel_left, List.drop_eq_nil_of_le (Nat.le_add_right ..), List.nil_append]
    rw [hedits]
    simp only [applyAll, List.foldr_cons, List.foldr_nil, TextEdit.apply, hrest, drop_length_chomp,
      getLast?_eq_return_iff hs]
    rfl

/-! ## Saving a document -/

/-- The answer to a client that is about to save an open assembly document: the edits lay its text out, but for a
carriage return at the very end, which stays behind. They are none just if the text is laid out. -/
theorem applyAll_of_willSave {s : Session} {uri : Bytes} {d : Document} (hd : s.documents.find? uri = some d)
    (ha : d.isAssembly = true) {m : Message} (hm : Request.ofMessage m = .ok (.willSave uri)) (read : Files.Reader) :
    ∃ edits, (s.receive read m).2.filterMap Event.message? = [.result (m.id.getD (.number 0)) (.edits edits)] ∧
      (applyAll edits d.text = Layout.format d.text ↔ d.text.getLast? ≠ some 13) ∧
      (d.text.getLast? = some 13 → applyAll edits d.text = Layout.format d.text ++ [13]) ∧
      (edits = [] ↔ Layout.format d.text = d.text) := by
  refine ⟨Session.layoutEdits d.text, ?_, ?_, fun h => ?_, layoutEdits_eq_nil_iff d.text⟩
  · rw [Session.receive_of_ok hm]
    simp only [Session.handle, Session.handleWith, hd, ha, if_true]
    rfl
  · rw [applyAll_layoutEdits]
    simp
  · rw [applyAll_layoutEdits, if_pos h]

/-- The document of the messages below. -/
def unendedUri : Bytes := utf8 "a.asm"

/-- A session with an open document whose last line ends in a carriage return. -/
def unended : Session :=
  let params : Json := .ofMembers [("textDocument", .ofMembers [("uri", .string unendedUri),
    ("languageId", .string assemblyLanguage), ("text", .string [104, 97, 108, 116, 13])])]
  (Session.fresh.receive (fun _ => .error .noEntry) ⟨utf8 "textDocument/didOpen", none, some params⟩).1

/-- The client is about to save it. -/
def saving : Message :=
  ⟨utf8 "textDocument/willSaveWaitUntil", some (.number 1),
    some (.ofMembers [("textDocument", .ofMembers [("uri", .string unendedUri)])])⟩

theorem applyAll_of_willSave_unended : ∃ d, unended.documents.find? unendedUri = some d ∧ d.isAssembly = true ∧
    Request.ofMessage saving = .ok (.willSave unendedUri) ∧ d.text = [104, 97, 108, 116, 13] ∧
      ∃ edits, (unended.receive (fun _ => .error .noEntry) saving).2.filterMap Event.message? =
          [.result (.number 1) (.edits edits)] ∧
        applyAll edits d.text = [32, 32, 104, 97, 108, 116, 13] := by
  obtain ⟨edits, hanswer, -, hreturn, -⟩ :=
    @applyAll_of_willSave unended unendedUri _ rfl rfl saving rfl fun _ => .error .noEntry
  exact ⟨_, rfl, rfl, rfl, rfl, edits, hanswer, hreturn rfl⟩

/-- Not every document is laid out by the edits. -/
theorem not_applyAll_unended :
    ¬ ∀ (s : Session) (uri : Bytes) (d : Document), s.documents.find? uri = some d → d.isAssembly = true →
      ∀ (read : Files.Reader) (m : Message) (edits : List TextEdit), Request.ofMessage m = .ok (.willSave uri) →
        (s.receive read m).2.filterMap Event.message? = [.result (m.id.getD (.number 0)) (.edits edits)] →
          applyAll edits d.text = Layout.format d.text := by
  intro h
  have hedit := h unended unendedUri _ rfl rfl (fun _ => .error .noEntry) saving
    [⟨0, 0, 0, 4, [32, 32, 104, 97, 108, 116]⟩] rfl rfl
  cases hedit

end Server

end AsmLens
