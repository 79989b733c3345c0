import AsmLens.Proofs.Text.Blank

/-!
# What trimming leaves

A text is *tight* if it neither begins nor ends with a blank; trimming leaves it as it is (`IsTight.trim_eq`). Blanks of
one octet around a text do not matter (`trim_cons_blank`, `trim_concat_blank`). Up to an octet of ink trimming takes off
the blanks in front only (`exists_trim_append`), so of a text that begins tightly everything is left
(`exists_trim_append_ink`). What is left of a text that is not all blanks begins with its first octet outside blanks
(`exists_trim_eq_cons`), and with its first field (`prefix_trim_of_head?_fields`). Its marks are those that it has in
the whole text (`marks_trim`).
-/

namespace AsmLens.Blank

theorem trim_eq (s : Bytes) : trim s = (((marks s).dropWhile (·.2)).rdropWhile (·.2)).map (·.1) := rfl

/-! ## Ink -/

/-- An octet that is a character of its own and no blank. -/
def isInk (b : UInt8) : Bool := b < 0x80 && !isBlank1 b

theorem lt_of_isInk {b : UInt8} (h : isInk b = true) : b < 0x80 := by
  simp only [isInk, Bool.and_eq_true, decide_eq_true_eq] at h
  exact h.1

theorem width_cons_ink {b : UInt8} (h : isInk b = true) (s : Bytes) : width (b :: s) = 0 := by
  have hlt := lt_of_isInk h
  have h1 : isBlank1 b = false := by simpa [isInk, hlt] using h
  have h2 (c : UInt8) : isBlank2 b c = false := by simp only [isBlank2]; grind
  have h3 (c d : UInt8) : isBlank3 b c d = false := by simp only [isBlank3]; grind
  rcases s with _ | ⟨c, _ | ⟨d, s⟩⟩ <;> simp [width, h1, h2, h3]

theorem marks_cons_ink {b : UInt8} (h : isInk b = true) (s : Bytes) : marks (b :: s) = (b, false) :: marks s := by
  rw [marks_cons, if_pos (width_cons_ink h s)]

theorem marks_append_ink (x : Bytes) {b : UInt8} (h : isInk b = true) (y : Bytes) :
    marks (x ++ b :: y) = marks x ++ (b, false) :: marks y := by
  rw [marks_append x, marks_cons_ink h]
  intro c hc
  obtain rfl : b = c := by simpa using hc
  exact lt_of_isInk h

theorem marks_append_blank (x : Bytes) {b : UInt8} (h : isBlank1 b = true) (y : Bytes) :
    marks (x ++ b :: y) = marks x ++ (b, true) :: marks y := by
  rw [marks_append x, marks_cons_blank h]
  intro c hc
  obtain rfl : b = c := by simpa using hc
  exact lt_of_isBlank1 h

theorem isBlankText_append_ink (x : Bytes) {b : UInt8} (hb : isInk b = true) (y : Bytes) :
    isBlankText (x ++ b :: y) = false := by
  simp [isBlankText, marks_append_ink x hb]

/-! ## Tight texts -/

/-- A text that begins with something else than a blank. -/
def BeginsTight (s : Bytes) : Prop := ∃ m ∈ (marks s).head?, m.2 = false

/-- A text that ends with something else than a blank. -/
def EndsTight (s : Bytes) : Prop := ∃ m ∈ (marks s).getLast?, m.2 = false

/-- A text without blanks at its two ends. -/
def IsTight (s : Bytes) : Prop := BeginsTight s ∧ EndsTight s

theorem IsTight.trim_eq {s : Bytes} (h : IsTight s) : trim s = s := by
  obtain ⟨⟨a, ha, hf⟩, z, hz, hl⟩ := h
  obtain ⟨front, hfront⟩ := List.head?_eq_some_iff.1 ha
  obtain ⟨back, hback⟩ := List.getLast?_eq_some_iff.1 hz
  have hdrop : (marks s).dropWhile (·.2) = marks s := by rw [hfront, List.dropWhile_cons_of_neg (by simp [hf])]
  rw [Blank.trim_eq, hdrop]
  conv_lhs => rw [hback]
  rw [List.rdropWhile_concat_neg _ _ _ (by simp [hl]), ← hback, map_fst_marks]

theorem beginsTight_cons {b : UInt8} (h : isInk b = true) (s : Bytes) : BeginsTight (b :: s) := by
  rw [BeginsTight, marks_cons_ink h]
  exact ⟨_, rfl, rfl⟩

theorem endsTight_concat {b : UInt8} (h : isInk b = true) (s : Bytes) : EndsTight (s ++ [b]) := by
  rw [EndsTight, marks_append_ink s h]
  exact ⟨(b, false), by simp [marks, marksFrom], rfl⟩

theorem isTight_of_isSolid {w : Bytes} (hne : w ≠ []) (hw : IsSolid w) : IsTight w := by
  have hm : marks w ≠ [] := fun h => hne (by rw [← map_fst_marks w, h]; rfl)
  exact ⟨⟨_, List.head?_eq_some_head hm, hw _ (List.head_mem hm)⟩,
    ⟨_, List.getLast?_eq_some_getLast hm, hw _ (List.getLast_mem hm)⟩⟩

/-- What follows a blank does not change how a text begins. -/
theorem BeginsTight.append_blank {x : Bytes} (hx : BeginsTight x) {b : UInt8} (hb : isBlank1 b = true) (y : Bytes) :
    BeginsTight (x ++ b :: y) := by
  obtain ⟨m, hm, hf⟩ := hx
  refine ⟨m, ?_, hf⟩
  rw [marks_append_blank x hb, List.head?_append]
  simp [Option.mem_def.1 hm]

/-- What stands before a blank does not change how a text ends. -/
theorem EndsTight.append_blank {y : Bytes} (hy : EndsTight y) {b : UInt8} (hb : isBlank1 b = true) (x : Bytes) :
    EndsTight (x ++ b :: y) := by
  obtain ⟨m, hm, hl⟩ := hy
  refine ⟨m, ?_, hl⟩
  rw [marks_append_blank x hb, List.getLast?_append, List.getLast?_cons]
  simp [Option.mem_def.1 hm]

/-! ## Blanks around a text -/

theorem trim_cons_blank {b : UInt8} (hb : isBlank1 b = true) (s : Bytes) : trim (b :: s) = trim s := by
  rw [trim_eq, marks_cons_blank hb, List.dropWhile_cons_of_pos rfl]
  rfl

theorem trim_concat_blank (s : Bytes) {b : UInt8} (hb : isBlank1 b = true) : trim (s ++ [b]) = trim s := by
  have hm : marks (s ++ [b]) = marks s ++ [(b, true)] := marks_append_blank s hb []
  rw [trim_eq, hm, List.dropWhile_append]
  split
  · next h =>
    rw [List.isEmpty_iff] at h
    simp [trim_eq, h]
  · rw [List.rdropWhile_concat_pos _ _ _ rfl]
    rfl

/-- The text without the blanks in front of it. -/
def trimStart (s : Bytes) : Bytes := ((marks s).dropWhile (·.2)).map (·.1)

theorem trimStart_suffix (s : Bytes) : trimStart s <:+ s := by
  have h := (List.dropWhile_suffix (l := marks s) (·.2)).map (·.1)
  rwa [map_fst_marks] at h

theorem trimStart_of_isBlankText {s : Bytes} (h : isBlankText s = true) : trimStart s = [] := by
  rw [trimStart, List.map_eq_nil_iff, List.dropWhile_eq_nil_iff]
  exact List.all_eq_true.1 h

theorem trim_of_isBlankText {s : Bytes} (h : isBlankText s = true) : trim s = [] := by
  have hdrop : (marks s).dropWhile (·.2) = [] := List.dropWhile_eq_nil_iff.2 (List.all_eq_true.1 h)
  rw [trim_eq, hdrop]
  rfl

/-- From the end trimming does not reach across an octet of ink. -/
theorem exists_trim_append (x : Bytes) {b : UInt8} (hb : isInk b = true) (y : Bytes) :
    ∃ t, trim (x ++ b :: y) = trimStart x ++ b :: t := by
  have hdrop : (marks x ++ (b, false) :: marks y).dropWhile (·.2) =
      (marks x).dropWhile (·.2) ++ (b, false) :: marks y := by
    rw [List.dropWhile_append]
    split
    · next h => rw [List.isEmpty_iff.1 h, List.dropWhile_cons_of_neg (by simp), List.nil_append]
    · rfl
  rw [trim_eq, marks_append_ink x hb, hdrop, List.rdropWhile, List.reverse_append, List.reverse_cons,
    List.append_assoc, List.dropWhile_append]
  split
  · exact ⟨[], by simp [trimStart]⟩
  · exact ⟨(((marks y).reverse.dropWhile (·.2)).reverse).map (·.1), by simp [trimStart]⟩

/-- Trimming reaches from neither side across what begins a text tightly and an octet of ink behind it. -/
theorem exists_trim_append_ink {x : Bytes} (hx : BeginsTight x) {b : UInt8} (hb : isInk b = true) (y : Bytes) :
    ∃ t, trim (x ++ b :: y) = x ++ b :: t := by
  obtain ⟨m, hm, hf⟩ := hx
  obtain ⟨front, hfront⟩ := List.head?_eq_some_iff.1 hm
  have hstart : trimStart x = x := by
    rw [trimStart, hfront, List.dropWhile_cons_of_neg (by simp [hf]), ← hfront, map_fst_marks]
  rw [← hstart]
  nth_rewrite 1 [hstart]
  exact exists_trim_append x hb y

/-- A text that is not all blanks, with the first octet outside blanks. -/
theorem exists_trim_eq_cons {s : Bytes} (h : isBlankText s = false) :
    ∃ blanks b y t, marks s = blanks ++ (b, false) :: marks y ∧ (∀ m ∈ blanks, m.2 = true) ∧ width (b :: y) = 0 ∧
      trim s = b :: t ∧ t <+: y := by
  have hne : (marks s).dropWhile (·.2) ≠ [] := by
    rw [Ne, List.dropWhile_eq_nil_iff, ← List.all_eq_true]
    simpa [isBlankText] using h
  obtain ⟨⟨b, mark⟩, rest, hrest⟩ := List.exists_cons_of_ne_nil hne
  obtain rfl : mark = false := by
    have hhead := head?_dropWhile_false (·.2) (marks s) (b, mark)
    rw [hrest] at hhead
    exact hhead rfl
  have hs : marks s = (marks s).takeWhile (·.2) ++ (b, false) :: rest := by
    rw [← hrest, List.takeWhile_append_dropWhile]
  -- Behind the blanks the text is marked as if it stood alone.
  have hmarks : (b, false) :: rest = marks (b :: rest.map (·.1)) := (marks_cut hs (by simp)).2.symm
  rw [marks_cons] at hmarks
  split at hmarks
  · next hw =>
    have hy : rest = marks (rest.map (·.1)) := (List.cons.inj hmarks).2
    refine ⟨(marks s).takeWhile (·.2), b, rest.map (·.1), (rest.rdropWhile (·.2)).map (·.1), ?_,
      fun m hm => List.mem_takeWhile_imp hm, hw, ?_, (List.rdropWhile_prefix _ _).map _⟩
    · rw [← hy]
      exact hs
    · rw [trim_eq, hrest, List.rdropWhile, List.reverse_cons, List.dropWhile_append]
      split
      · next hnil => simp [List.rdropWhile, List.isEmpty_iff.1 hnil]
      · simp [List.rdropWhile]
  · cases (List.cons.inj hmarks).1

/-- Blanks in front of an octet outside blanks are blanks by themselves. -/
theorem exists_indent {s y : Bytes} {b : UInt8} {blanks : List (UInt8 × Bool)}
    (hs : marks s = blanks ++ (b, false) :: marks y) (hblanks : ∀ m ∈ blanks, m.2 = true) :
    ∃ indent, s = indent ++ b :: y ∧ isBlankText indent = true := by
  have htext : s = blanks.map (·.1) ++ b :: y := by
    rw [← map_fst_marks s, hs]
    simp
  have hmarks : marks (blanks.map (·.1)) = blanks := (marks_cut hs (by simp)).1
  refine ⟨blanks.map (·.1), htext, ?_⟩
  rw [isBlankText, hmarks, List.all_eq_true]
  exact hblanks

/-! ## Marks of what is left -/

/-- Trimming cuts the marks of a text as it cuts the text. -/
theorem marks_trim (s : Bytes) : marks (trim s) = ((marks s).dropWhile (·.2)).rdropWhile (·.2) := by
  have hs : marks s = (marks s).takeWhile (·.2) ++ (marks s).dropWhile (·.2) := List.takeWhile_append_dropWhile.symm
  have hstart := (marks_cut hs fun _ _ m hm => .inr (head?_dropWhile_false (·.2) (marks s) m hm)).2
  have hend : ∀ m ∈ (((marks s).dropWhile (·.2)).rdropWhile (·.2)).getLast?, m.2 = false := fun m hm => by
    have hne : ((marks s).dropWhile (·.2)).rdropWhile (·.2) ≠ [] := by
      intro hnil
      rw [hnil] at hm
      cases hm
    rw [List.getLast?_eq_getLast_of_ne_nil hne, Option.mem_some] at hm
    simpa [hm] using List.rdropWhile_last_not _ _ hne
  have hsplit : marks (((marks s).dropWhile (·.2)).map (·.1)) =
      ((marks s).dropWhile (·.2)).rdropWhile (·.2) ++ ((marks s).dropWhile (·.2)).rtakeWhile (·.2) := by
    rw [hstart, List.rdropWhile_append_rtakeWhile]
  exact (marks_cut hsplit fun m hm _ _ => .inl (hend m hm)).1

/-- A text may be cut before the first of an octet in ASCII. -/
theorem marks_before {b : UInt8} (hb : b < 0x80) (s : Bytes) :
    marks (Bytes.before b s) = (marks s).takeWhile (·.1 != b) := by
  have hrest : ∀ c ∈ (s.dropWhile (· != b)).head?, c = b := fun c hc => by
    simpa using head?_dropWhile_false (· != b) s c hc
  have hs : marks s = marks (Bytes.before b s) ++ marks (s.dropWhile (· != b)) := by
    rw [← marks_append _ fun c hc => hrest c hc ▸ hb, Bytes.before, List.takeWhile_append_dropWhile]
  have hfront : ∀ m ∈ marks (Bytes.before b s), (m.1 != b) = true := fun m hm => by
    have hmem : m.1 ∈ Bytes.before b s := by
      rw [← map_fst_marks (Bytes.before b s)]
      exact List.mem_map_of_mem hm
    exact List.mem_takeWhile_imp (p := (· != b)) hmem
  have hback : ∀ m ∈ (marks (s.dropWhile (· != b))).head?, (m.1 != b) = false := fun m hm => by
    have hmem : m.1 ∈ (s.dropWhile (· != b)).head? := by
      rw [← map_fst_marks (s.dropWhile (· != b)), List.head?_map, Option.mem_def.1 hm]
      rfl
    simpa using hrest m.1 hmem
  rw [hs, takeWhile_append_stop hfront hback]

/-- What is left of a text begins with its first field. -/
theorem prefix_trim_of_head?_fields {s m : Bytes} (h : (fields s).head? = some m) : m <+: trim s := by
  obtain ⟨-, rfl⟩ := head?_fields_eq_some_iff.1 h
  rw [trim_eq, ← takeWhile_rdropWhile (p := (·.2)) (fun m hm => by simpa using hm)]
  exact (List.takeWhile_prefix _).map _

end AsmLens.Blank
