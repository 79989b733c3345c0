import AsmLens.Layout
import AsmLens.Proofs.Source.Line

/-!
# Laid out lines

A line with neither label nor instruction loses the filling at its end (`line_of_isVoid`); every other one is composed
of a lead, its instruction with single spaces, and its comment (`line_of_not_isVoid`). From this composition the three
parts of the line are read back: the comment without filling at its end (`comment_line`), the fields of the instruction
(`fields_instruction_line`) and the name of the label (`labelName?_line`). Hence a laid out line stays as it is
(`line_line`).

The last two need that the line does not hide a label (`HidesLabel`): the blanks in front of its first word are all cut
down to spaces, and only spaces may stand in front of a label definition.
-/

namespace AsmLens.Layout

open Source (labelName? instruction)

/-! ## Instructions with single spaces -/

theorem fields_body (raw : Bytes) : Blank.fields (body raw) = Blank.fields (instruction raw) :=
  Blank.fields_join fun _ hw => Blank.fields_of_mem hw

theorem body_congr {a b : Bytes} (h : Blank.fields (instruction a) = Blank.fields (instruction b)) : body a = body b :=
  congrArg (Bytes.join [32]) h

theorem body_eq_nil_iff (raw : Bytes) : body raw = [] ↔ Blank.fields (instruction raw) = [] := by
  constructor
  · intro h
    rw [← fields_body, h]
    rfl
  · intro h
    exact congrArg (Bytes.join [32]) h

theorem mem_of_mem_body {raw : Bytes} {b : UInt8} (h : b ∈ body raw) : b = 32 ∨ b ∈ Source.code raw := by
  rcases Bytes.mem_join h with h | ⟨w, hw, hb⟩
  · exact .inl (by simpa using h)
  · exact .inr ((Source.instruction_suffix_code raw).subset (Blank.mem_of_mem_fields hw hb))

theorem bang_not_mem_body (raw : Bytes) : 33 ∉ body raw := by
  intro h
  rcases mem_of_mem_body h with h | h
  · cases h
  · exact Source.bang_not_mem_code raw h

/-- No blank ends an instruction. -/
theorem isBlank1_getLast_body (raw : Bytes) : ∀ b ∈ (body raw).getLast?, Blank.isBlank1 b = false := by
  intro b hb
  rw [body, Bytes.getLast?_join fun w hw => (Blank.isSolid_of_mem_fields hw).1] at hb
  obtain ⟨w, hw, hb⟩ := Option.bind_eq_some_iff.1 hb
  exact (Blank.isSolid_of_mem_fields (List.mem_of_getLast? hw)).2.isBlank1_false (List.mem_of_getLast? hb)

/-! ## Composition -/

/-- A line with neither label nor instruction. -/
def IsVoid (raw : Bytes) : Prop := labelName? raw = none ∧ body raw = []

instance : DecidablePred IsVoid := fun raw => inferInstanceAs (Decidable (labelName? raw = none ∧ body raw = []))

/-- What stands in front of the instruction of a laid out line. -/
def lead (indent : Nat) (label : Option Bytes) (body : Bytes) : Bytes :=
  match label with
  | none => List.replicate indent 32
  | some name => name ++ 58 :: if body = [] then [] else List.replicate (indent - name.length - 1) 32

theorem line_of_isVoid {raw : Bytes} (h : IsVoid raw) (n : Nat) : line n raw = Bytes.trimEnd isFilling raw := by
  have hl : Source.label? (Source.code raw) = none := by simpa [labelName?, Source.label?_code] using h.1
  simp only [line, hl, h.2]

/-- Such a line only loses spaces at its end. -/
theorem eq_line_append_of_isVoid {raw : Bytes} (h : IsVoid raw) (n : Nat) :
    ∃ t, raw = line n raw ++ t ∧ ∀ b ∈ t, isSpace b = true := by
  obtain ⟨t, ht, hf⟩ := Bytes.trimEnd_append_self isFilling raw
  refine ⟨t, ?_, fun b hb => isSpace_of_isFilling (hf b hb)⟩
  rw [line_of_isVoid h]
  exact ht

theorem toNat_padding (n : Nat) (name : Bytes) : (padding n name).toNat = n - name.length - 1 := by
  unfold padding
  omega

theorem line_of_not_isVoid {raw : Bytes} (h : ¬IsVoid raw) (n : Nat) :
    line n raw = lead n (labelName? raw) (body raw) ++ body raw ++ comment raw := by
  unfold line
  rw [Source.label?_code]
  cases hl : Source.label? raw with
  | none =>
    have hb : body raw ≠ [] := fun hb => h ⟨by rw [labelName?, hl]; rfl, hb⟩
    simp [labelName?, hl, lead]
  | some name =>
    cases hb : body raw with
    | nil => simp [labelName?, hl, lead]
    | cons c rest => simp [labelName?, hl, lead, toNat_padding]

/-! ## Comments -/

theorem trimEnd_comment_ne_nil {raw : Bytes} (h : Source.comment raw ≠ []) :
    ∃ c, Bytes.trimEnd isFilling (Source.comment raw) = 33 :: c := by
  obtain ⟨c, hc⟩ := Source.head_comment h
  obtain ⟨t, ht, hf⟩ := Bytes.trimEnd_append_self isFilling (Source.comment raw)
  cases htrim : Bytes.trimEnd isFilling (Source.comment raw) with
  | nil =>
    rw [htrim, List.nil_append, hc] at ht
    exact absurd (hf 33 (ht ▸ List.mem_cons_self)) (by decide)
  | cons b c' =>
    rw [htrim, hc, List.cons_append] at ht
    exact ⟨c', by rw [(List.cons.inj ht).1]⟩

theorem comment_of_eq_nil {raw : Bytes} (h : Source.comment raw = []) : comment raw = [] := by
  simp [comment, h, Bytes.trimEnd]

theorem comment_of_ne_nil {raw : Bytes} (h : Source.comment raw ≠ []) :
    comment raw = 32 :: Bytes.trimEnd isFilling (Source.comment raw) := by
  obtain ⟨c, hc⟩ := trimEnd_comment_ne_nil h
  rw [comment, hc]

theorem comment_congr {a b : Bytes}
    (h : Bytes.trimEnd isFilling (Source.comment a) = Bytes.trimEnd isFilling (Source.comment b)) :
    comment a = comment b := by
  rw [comment, h]
  rfl

/-- The filling at the end of a line with a comment is that of the comment. -/
theorem trimEnd_of_comment_ne_nil {raw : Bytes} (h : Source.comment raw ≠ []) :
    Bytes.trimEnd isFilling raw = Source.code raw ++ Bytes.trimEnd isFilling (Source.comment raw) := by
  obtain ⟨c, hc⟩ := trimEnd_comment_ne_nil h
  have := Bytes.trimEnd_append_of_ne_nil (Source.code raw) (p := isFilling) (t := Source.comment raw) (by simp [hc])
  rwa [Source.code_append_comment] at this

/-- The comment is read back behind anything without a `!`. -/
theorem comment_append_comment {x : Bytes} (hx : 33 ∉ x) (raw : Bytes) :
    Source.comment (x ++ comment raw) = Bytes.trimEnd isFilling (Source.comment raw) := by
  by_cases h : Source.comment raw = []
  · rw [comment_of_eq_nil h, List.append_nil, Source.comment_eq_nil hx, h]
    rfl
  · obtain ⟨c, hc⟩ := trimEnd_comment_ne_nil h
    rw [comment_of_ne_nil h, hc, ← List.singleton_append, ← List.append_assoc,
      Source.comment_append (by simp [hx]), Source.comment_bang]

/-- The code in front of a comment may only get one more space. -/
theorem code_append_comment {x : Bytes} (hx : 33 ∉ x) (raw : Bytes) :
    ∃ k, Source.code (x ++ comment raw) = x ++ List.replicate k 32 := by
  by_cases h : Source.comment raw = []
  · exact ⟨0, by rw [comment_of_eq_nil h, List.append_nil, Source.code_eq_self hx]; simp⟩
  · obtain ⟨c, hc⟩ := trimEnd_comment_ne_nil h
    refine ⟨1, ?_⟩
    rw [comment_of_ne_nil h, hc, ← List.singleton_append, ← List.append_assoc,
      Source.code_append (by simp [hx]), Source.code_bang, List.append_nil]
    rfl

/-! ## Reading a laid out line -/

/-- The blanks in front of the first word hide that it defines a label. -/
def HidesLabel (raw : Bytes) : Prop := labelName? raw = none ∧ labelName? (body raw) ≠ none

instance : DecidablePred HidesLabel := fun raw =>
  inferInstanceAs (Decidable (labelName? raw = none ∧ labelName? (body raw) ≠ none))

theorem isWordByte_of_labelName? {raw name : Bytes} (h : labelName? raw = some name) :
    name ≠ [] ∧ ∀ b ∈ name, isWordByte b = true := by
  obtain ⟨_, _, -, -, hne, hn⟩ := Source.labelName?_eq_some_iff.1 h
  exact ⟨hne, hn⟩

/-- Lead and instruction have no comment. -/
theorem bang_not_mem_lead_append_body (n : Nat) (raw : Bytes) :
    33 ∉ lead n (labelName? raw) (body raw) ++ body raw := by
  rw [List.mem_append, not_or]
  refine ⟨?_, bang_not_mem_body raw⟩
  cases h : labelName? raw with
  | none => simp [lead]
  | some name =>
    have hname : 33 ∉ name := fun hc => absurd ((isWordByte_of_labelName? h).2 33 hc) (by decide)
    simp only [lead, List.mem_append, List.mem_cons, not_or]
    refine ⟨hname, by decide, ?_⟩
    split <;> simp

theorem comment_line (n : Nat) (raw : Bytes) :
    Source.comment (line n raw) = Bytes.trimEnd isFilling (Source.comment raw) := by
  by_cases h : IsVoid raw
  · rw [line_of_isVoid h]
    by_cases hc : Source.comment raw = []
    · have hbang : 33 ∉ Bytes.trimEnd isFilling raw := fun hb =>
        Source.comment_ne_nil ((Bytes.trimEnd_prefix isFilling raw).subset hb) hc
      rw [hc, Source.comment_eq_nil hbang]
      rfl
    · obtain ⟨c, hc'⟩ := trimEnd_comment_ne_nil hc
      rw [trimEnd_of_comment_ne_nil hc, hc', Source.comment_append (Source.bang_not_mem_code raw), Source.comment_bang]
  · rw [line_of_not_isVoid h]
    exact comment_append_comment (bang_not_mem_lead_append_body n raw) raw

theorem isSpace_of_mem_replicate (n : Nat) : ∀ b ∈ List.replicate n (32 : UInt8), isSpace b = true := by
  intro b hb
  rw [List.eq_of_mem_replicate hb]
  rfl

/-- Spaces behind a line are in no field of its instruction. -/
theorem fields_instruction_append (x : Bytes) {y : Bytes} (hy : ∀ b ∈ y, isSpace b = true) :
    Blank.fields (instruction (x ++ y)) = Blank.fields (instruction x) := by
  have hbang : 33 ∉ y := fun h => absurd (hy _ h) (by decide)
  have hcolon : 58 ∉ y := fun h => absurd (hy _ h) (by decide)
  rcases Source.instruction_append x hbang hcolon with h | h
  · rw [h]
  · rw [h, Blank.fields_append_right _ fun b hb => Blank.isBlank1_of_isSpace (hy b hb)]

theorem labelName?_append_spaces (x : Bytes) {y : Bytes} (hy : ∀ b ∈ y, isSpace b = true) :
    labelName? (x ++ y) = labelName? x :=
  Source.labelName?_append x fun h => absurd (hy _ h) (by decide)

/-- The label of a lead and an instruction. -/
theorem labelName?_lead_append_body {raw : Bytes} (h : ¬HidesLabel raw) (n : Nat) :
    labelName? (lead n (labelName? raw) (body raw) ++ body raw) = labelName? raw := by
  cases hl : labelName? raw with
  | none =>
    rw [lead, Source.labelName?_append_left (isSpace_of_mem_replicate n)]
    by_contra hc
    exact h ⟨hl, hc⟩
  | some name =>
    obtain ⟨hne, hn⟩ := isWordByte_of_labelName? hl
    rw [Source.labelName?_eq_some_iff]
    exact ⟨[], _, by rw [lead, List.append_assoc, List.cons_append]; rfl, by simp, hne, hn⟩

/-- The instruction of a lead and an instruction: only spaces may stand in front. -/
theorem instruction_lead_append_body {raw : Bytes} (h : ¬HidesLabel raw) (n : Nat) :
    ∃ k, instruction (lead n (labelName? raw) (body raw) ++ body raw) = List.replicate k 32 ++ body raw := by
  have hbang := bang_not_mem_lead_append_body n raw
  have hlabel := labelName?_lead_append_body h n
  cases hl : labelName? raw with
  | none =>
    rw [hl] at hbang hlabel
    refine ⟨n, ?_⟩
    rw [Source.instruction_of_label?_eq_none (by simpa [labelName?] using hlabel), Source.code_eq_self hbang]
    rfl
  | some name =>
    rw [hl] at hbang
    obtain ⟨hne, hn⟩ := isWordByte_of_labelName? hl
    have hcode : Source.code (lead n (some name) (body raw) ++ body raw) = [] ++ name ++
        58 :: ((if body raw = [] then [] else List.replicate (n - name.length - 1) 32) ++ body raw) := by
      rw [Source.code_eq_self hbang, lead, List.append_assoc, List.cons_append]
      rfl
    rw [Source.instruction_of_code_eq hcode (by simp) hne hn]
    split
    · exact ⟨0, rfl⟩
    · exact ⟨_, rfl⟩

variable {raw : Bytes}

theorem labelName?_line_of_not_isVoid (hv : ¬IsVoid raw) (n : Nat) :
    labelName? (line n raw) = labelName? (lead n (labelName? raw) (body raw) ++ body raw) := by
  obtain ⟨k, hk⟩ := code_append_comment (bang_not_mem_lead_append_body n raw) raw
  rw [line_of_not_isVoid hv, ← Source.labelName?_code, hk, labelName?_append_spaces _ (isSpace_of_mem_replicate k)]

theorem labelName?_line (h : ¬HidesLabel raw) (n : Nat) : labelName? (line n raw) = labelName? raw := by
  by_cases hv : IsVoid raw
  · obtain ⟨t, ht, hs⟩ := eq_line_append_of_isVoid hv n
    conv_rhs => rw [ht]
    exact (labelName?_append_spaces _ hs).symm
  · rw [labelName?_line_of_not_isVoid hv, labelName?_lead_append_body h]

/-- The instruction of a laid out line, between spaces. -/
theorem instruction_line (hv : ¬IsVoid raw) (h : ¬HidesLabel raw) (n : Nat) :
    ∃ k k', instruction (line n raw) = List.replicate k 32 ++ body raw ++ List.replicate k' 32 := by
  obtain ⟨k', hk'⟩ := code_append_comment (bang_not_mem_lead_append_body n raw) raw
  obtain ⟨k, hk⟩ := instruction_lead_append_body h n
  rw [line_of_not_isVoid hv, ← Source.instruction_code, hk']
  rcases Source.instruction_append (lead n (labelName? raw) (body raw) ++ body raw) (y := List.replicate k' 32)
    (by simp) (by simp) with hi | hi
  · exact ⟨k, 0, by rw [hi, hk]; simp⟩
  · exact ⟨k, k', by rw [hi, hk]⟩

theorem fields_instruction_line (h : ¬HidesLabel raw) (n : Nat) :
    Blank.fields (instruction (line n raw)) = Blank.fields (instruction raw) := by
  by_cases hv : IsVoid raw
  · obtain ⟨t, ht, hs⟩ := eq_line_append_of_isVoid hv n
    conv_rhs => rw [ht]
    exact (fields_instruction_append _ hs).symm
  · obtain ⟨k, k', hk⟩ := instruction_line hv h n
    have hblank (m : Nat) : ∀ b ∈ List.replicate m (32 : UInt8), Blank.isBlank1 b = true := fun b hb =>
      Blank.isBlank1_of_isSpace (isSpace_of_mem_replicate m b hb)
    rw [hk, Blank.fields_append_right _ (hblank k'), Blank.fields_append_left (hblank k), fields_body]

theorem isVoid_congr {a b : Bytes} (hl : labelName? a = labelName? b)
    (hf : Blank.fields (instruction a) = Blank.fields (instruction b)) : IsVoid a ↔ IsVoid b := by
  rw [IsVoid, IsVoid, hl, body_congr hf]

/-- Only its label, the fields of its instruction and its comment matter to how a line is laid out. -/
theorem line_congr {a b : Bytes} (hv : ¬IsVoid b) (hl : labelName? a = labelName? b)
    (hf : Blank.fields (instruction a) = Blank.fields (instruction b)) (n : Nat) :
    line n a = lead n (labelName? b) (body b) ++ body b ++ comment a := by
  rw [line_of_not_isVoid (fun h => hv ((isVoid_congr hl hf).1 h)), hl, body_congr hf]

/-- A laid out line stays as it is. -/
theorem line_line (h : ¬HidesLabel raw) (n : Nat) : line n (line n raw) = line n raw := by
  have hl := labelName?_line h n
  have hf := fields_instruction_line h n
  by_cases hv : IsVoid raw
  · rw [line_of_isVoid ((isVoid_congr hl hf).2 hv), line_of_isVoid hv, Bytes.trimEnd_trimEnd]
  · have hc : comment (line n raw) = comment raw := by
      apply comment_congr
      rw [comment_line, Bytes.trimEnd_trimEnd]
    rw [line_congr hv hl hf, hc, line_of_not_isVoid hv]

end AsmLens.Layout
