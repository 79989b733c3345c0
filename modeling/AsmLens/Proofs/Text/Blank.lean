import AsmLens.Proofs.Bytes
import AsmLens.Text.Blank
import Mathlib.Tactic.ByContra

/-!
# Blanks in composed texts

A *lead* is an octet that no character has behind its first. It ends whatever character stands before it, so a text can
be cut there without changing which octets belong to blanks (`marks_append_lead`; most often before an octet below `80`,
`marks_append`). It can be cut behind nothing but blanks as well (`marks_append_of_isBlankText`), and the other way
round marks may be cut wherever an octet on one side is outside blanks (`marks_cut`).

Hence the fields of a text are those before and those behind a blank of one octet (`fields_append_blank`), the first of
them is the first run outside blanks (`head?_fields_eq_some_iff`), a field is its own only field (`fields_of_mem`), and
fields with single spaces between them are read back (`fields_join`).

A text is *plain* if it has no blanks but tab, line feed, form feed, carriage return and space. Parts of plain texts are
plain (`IsPlain.of_infix`), and one without such an octet is solid (`IsPlain.isSolid`).
-/

namespace AsmLens.Blank

/-! ## The width of a blank -/

theorem isBlank1_of_isSpace {b : UInt8} (h : isSpace b = true) : isBlank1 b = true := by
  simp only [isSpace, Bool.or_eq_true, beq_iff_eq] at h
  rcases h with (((rfl | rfl) | rfl) | rfl) | rfl <;> rfl

theorem lt_of_isBlank1 {b : UInt8} (h : isBlank1 b = true) : b < 0x80 := by
  simp only [isBlank1] at h; grind

/-- An octet that is no later octet of a character: it is in ASCII, or it leads a longer form. -/
def isLead (b : UInt8) : Bool := b < 0x80 || 0xC0 ≤ b

theorem isLead_of_lt {b : UInt8} (h : b < 0x80) : isLead b = true := by simp [isLead, h]

theorem isBlank2_lead (a : UInt8) {b : UInt8} (hb : isLead b = true) : isBlank2 a b = false := by
  simp only [isLead] at hb
  simp only [isBlank2]
  grind

theorem isBlank3_lead_second (a c : UInt8) {b : UInt8} (hb : isLead b = true) : isBlank3 a b c = false := by
  simp only [isLead] at hb
  simp only [isBlank3]
  grind

theorem isBlank3_lead_third (a b : UInt8) {c : UInt8} (hc : isLead c = true) : isBlank3 a b c = false := by
  simp only [isLead] at hc
  simp only [isBlank3]
  grind

theorem width_cons_blank {b : UInt8} (h : isBlank1 b = true) (s : Bytes) : width (b :: s) = 1 := by
  rcases s with _ | ⟨c, _ | ⟨d, s⟩⟩ <;> simp [width, h]

theorem width_le_length (s : Bytes) : width s ≤ s.length := by
  rcases s with _ | ⟨a, _ | ⟨b, _ | ⟨c, s⟩⟩⟩
  · exact Nat.le_refl 0
  · simp only [width, List.length_singleton]; split <;> omega
  · simp only [width, List.length_cons, List.length_nil]; repeat' split
    all_goals omega
  · simp only [width, List.length_cons]; repeat' split
    all_goals omega

/-- What stands behind a blank does not change its width. -/
theorem width_append_of_ne_zero {s : Bytes} (h : width s ≠ 0) (t : Bytes) : width (s ++ t) = width s := by
  rcases s with _ | ⟨a, _ | ⟨b, _ | ⟨c, s⟩⟩⟩
  · exact absurd rfl h
  · have ha : isBlank1 a = true := by by_contra hc; exact h (by simp [width, hc])
    rw [List.singleton_append, width_cons_blank ha, width_cons_blank ha]
  · by_cases ha : isBlank1 a = true
    · rw [List.cons_append, width_cons_blank ha, width_cons_blank ha]
    · have hb : isBlank2 a b = true := by by_contra hc; exact h (by simp [width, ha, hc])
      cases t <;> simp [width, ha, hb]
  · rfl

/-- A blank that ends within a text is a blank of that text. -/
theorem width_eq_of_le {s : Bytes} (hs : s ≠ []) (t : Bytes) (h : width (s ++ t) ≤ s.length) :
    width (s ++ t) = width s := by
  by_cases hne : width s = 0
  · rcases s with _ | ⟨a, _ | ⟨b, _ | ⟨c, s⟩⟩⟩
    · exact absurd rfl hs
    · have ha : isBlank1 a = false := by by_contra hc; simp [width, hc] at hne
      rcases t with _ | ⟨b, _ | ⟨c, t⟩⟩
      · rfl
      · simp only [List.cons_append, List.nil_append, width, ha] at h ⊢
        grind
      · simp only [List.cons_append, List.nil_append, width, ha] at h ⊢
        grind
    · rcases t with _ | ⟨c, t⟩
      · rfl
      · simp only [List.cons_append, List.nil_append, width] at h hne ⊢
        grind
    · rfl
  · exact width_append_of_ne_zero hne t

/-- A lead behind a text finishes no blank that the text begins. -/
theorem width_append {s t : Bytes} (hs : s ≠ []) (ht : ∀ b ∈ t.head?, isLead b = true) : width (s ++ t) = width s := by
  rcases t with _ | ⟨b, t⟩
  · rw [List.append_nil]
  have hb : isLead b = true := ht b rfl
  rcases s with _ | ⟨a, _ | ⟨c, _ | ⟨d, s⟩⟩⟩
  · exact absurd rfl hs
  · cases t with
    | nil => simp [width, isBlank2_lead a hb]
    | cons e t => simp [width, isBlank2_lead a hb, isBlank3_lead_second a e hb]
  · simp [width, isBlank3_lead_third a c hb]
  · rfl

/-- A blank begins with a lead. -/
theorem isLead_of_width {b : UInt8} {s : Bytes} (h : width (b :: s) ≠ 0) : isLead b = true := by
  by_contra hb
  have h1 : isBlank1 b = false := by simp only [isLead] at hb; simp only [isBlank1]; grind
  have h2 (c : UInt8) : isBlank2 b c = false := by simp only [isLead] at hb; simp only [isBlank2]; grind
  have h3 (c d : UInt8) : isBlank3 b c d = false := by simp only [isLead] at hb; simp only [isBlank3]; grind
  rcases s with _ | ⟨c, _ | ⟨d, s⟩⟩ <;> simp [width, h1, h2, h3] at h

/-! ## Marks -/

theorem marks_cons (a : UInt8) (s : Bytes) :
    marks (a :: s) =
      if width (a :: s) = 0 then (a, false) :: marks s else (a, true) :: marksFrom (width (a :: s) - 1) s := by
  rw [marks, marksFrom]
  split
  · next h => rw [if_pos h]; rfl
  · next k h => rw [if_neg (by omega), h]; rfl

theorem marks_cons_blank {b : UInt8} (h : isBlank1 b = true) (s : Bytes) : marks (b :: s) = (b, true) :: marks s := by
  rw [marks_cons, width_cons_blank h]
  rfl

theorem marksFrom_append {x y : Bytes} (hy : ∀ b ∈ y.head?, isLead b = true) :
    ∀ {k : Nat}, k ≤ x.length → marksFrom k (x ++ y) = marksFrom k x ++ marks y := by
  induction x with
  | nil =>
    intro k hk
    obtain rfl : k = 0 := by simpa using hk
    simp [marksFrom, marks]
  | cons a x ih =>
    intro k hk
    cases k with
    | succ k => simp only [List.cons_append, marksFrom, ih (Nat.le_of_succ_le_succ hk)]
    | zero =>
      show marks (a :: x ++ y) = marks (a :: x) ++ marks y
      have hw : width (a :: (x ++ y)) = width (a :: x) := width_append (List.cons_ne_nil a x) hy
      have hle := width_le_length (a :: x)
      rw [List.cons_append, marks_cons, marks_cons, hw]
      split
      · rw [List.cons_append]; congr 1; exact ih (Nat.zero_le _)
      · rw [ih (by simp only [List.length_cons] at hle; omega)]; rfl

/-- A text may be cut before a lead. -/
theorem marks_append_lead (x : Bytes) {y : Bytes} (hy : ∀ b ∈ y.head?, isLead b = true) :
    marks (x ++ y) = marks x ++ marks y := marksFrom_append hy (Nat.zero_le _)

/-- A text may be cut before an octet below `80`. -/
theorem marks_append (x : Bytes) {y : Bytes} (hy : ∀ b ∈ y.head?, b < 0x80) : marks (x ++ y) = marks x ++ marks y :=
  marks_append_lead x fun b hb => isLead_of_lt (hy b hb)

/-- What follows nothing but blanks does not matter to them. -/
theorem marksFrom_append_of_blanks {x : Bytes} (y : Bytes) : ∀ {k : Nat}, k ≤ x.length →
    (∀ m ∈ marksFrom k x, m.2 = true) → marksFrom k (x ++ y) = marksFrom k x ++ marks y := by
  induction x with
  | nil =>
    intro k hk _
    obtain rfl : k = 0 := by simpa using hk
    rfl
  | cons a x ih =>
    intro k hk h
    cases k with
    | succ k =>
      rw [List.cons_append, marksFrom, marksFrom,
        ih (Nat.le_of_succ_le_succ hk) fun m hm => h m (by rw [marksFrom]; exact List.mem_cons_of_mem _ hm)]
      rfl
    | zero =>
      rw [← marks, marks_cons] at h
      show marks (a :: (x ++ y)) = marks (a :: x) ++ marks y
      split at h
      · cases h _ List.mem_cons_self
      · next hw =>
        have hle := width_le_length (a :: x)
        have hsame : width (a :: (x ++ y)) = width (a :: x) := width_append_of_ne_zero hw y
        rw [marks_cons, marks_cons, hsame, if_neg hw, if_neg hw,
          ih (by rw [List.length_cons] at hle; omega) fun m hm => h m (List.mem_cons_of_mem _ hm)]
        rfl

theorem marks_append_of_isBlankText {x : Bytes} (hx : isBlankText x = true) (y : Bytes) :
    marks (x ++ y) = marks x ++ marks y := marksFrom_append_of_blanks y (Nat.zero_le _) (List.all_eq_true.1 hx)

/-- Blanks of one octet are always marked. -/
theorem isBlank1_of_mem_marksFrom {b : UInt8} {s : Bytes} :
    ∀ {k : Nat}, (b, false) ∈ marksFrom k s → isBlank1 b = false := by
  induction s with
  | nil => intro k h; simp [marksFrom] at h
  | cons a s ih =>
    intro k h
    cases k with
    | succ k =>
      rw [marksFrom, List.mem_cons] at h
      rcases h with h | h
      · cases h
      · exact ih h
    | zero =>
      rw [← marks, marks_cons] at h
      split at h
      · next hw =>
        rcases List.mem_cons.1 h with h | h
        · cases h
          by_contra hb
          rw [width_cons_blank (by simpa using hb)] at hw
          cases hw
        · exact ih h
      · rcases List.mem_cons.1 h with h | h
        · cases h
        · exact ih h

/-- What finishes a blank is marked. -/
theorem mem_take_marksFrom {s : Bytes} : ∀ {k : Nat}, ∀ m ∈ (marksFrom k s).take k, m.2 = true := by
  induction s with
  | nil => intro k m hm; cases k <;> simp [marksFrom] at hm
  | cons a s ih =>
    intro k m hm
    cases k with
    | zero => simp at hm
    | succ k =>
      rw [marksFrom, List.take_succ_cons, List.mem_cons] at hm
      rcases hm with rfl | hm
      · rfl
      · exact ih m hm

/-- What finishes a blank does not reach across a cut at an octet outside blanks. -/
theorem le_length_of_cut {a : UInt8} {s : Bytes} {l₁ l₂ : List (UInt8 × Bool)} {j : Nat} (h : marksFrom j s = l₁ ++ l₂)
    (hj : j ≤ s.length) (hcut : ∀ m ∈ ((a, true) :: l₁).getLast?, ∀ m' ∈ l₂.head?, m.2 = false ∨ m'.2 = false) :
    j ≤ l₁.length := by
  by_contra hlt
  have hlen : s.length = l₁.length + l₂.length := by
    have := congrArg List.length h
    rwa [← List.length_map (·.1), map_fst_marksFrom, List.length_append] at this
  obtain ⟨m', l₂, rfl⟩ := List.exists_cons_of_length_pos (show 0 < l₂.length by omega)
  have hmarked : ∀ m ∈ (l₁ ++ m' :: l₂).take j, m.2 = true := h ▸ mem_take_marksFrom
  have htake : (l₁ ++ m' :: l₂).take j = l₁ ++ m' :: l₂.take (j - l₁.length - 1) := by
    rw [List.take_append, List.take_of_length_le (by omega), show j - l₁.length = j - l₁.length - 1 + 1 by omega,
      List.take_succ_cons, Nat.add_sub_cancel]
  rw [htake] at hmarked
  have hlast := List.getLast?_eq_getLast_of_ne_nil (List.cons_ne_nil (a, true) l₁)
  have hleft : (((a, true) :: l₁).getLast (List.cons_ne_nil _ _)).2 = true := by
    rcases List.mem_cons.1 (List.getLast_mem (List.cons_ne_nil (a, true) l₁)) with heq | hmem
    · rw [heq]
    · exact hmarked _ (List.mem_append_left _ hmem)
  rcases hcut _ hlast m' rfl with hf | hf
  · rw [hleft] at hf
    cases hf
  · rw [hmarked m' (by simp)] at hf
    cases hf

/-- The marks of a text that are cut before or behind an octet outside blanks are those of the two parts. -/
theorem marksFrom_cut {l₁ l₂ : List (UInt8 × Bool)} : ∀ {k : Nat} {s : Bytes}, marksFrom k s = l₁ ++ l₂ →
    k ≤ l₁.length → (∀ m ∈ l₁.getLast?, ∀ m' ∈ l₂.head?, m.2 = false ∨ m'.2 = false) →
    marksFrom k (l₁.map (·.1)) = l₁ ∧ marks (l₂.map (·.1)) = l₂ := by
  induction l₁ with
  | nil =>
    intro k s h hk _
    obtain rfl : k = 0 := by simpa using hk
    refine ⟨rfl, ?_⟩
    rw [List.nil_append] at h
    rw [← h, map_fst_marksFrom]
    rfl
  | cons m l₁ ih =>
    intro k s h hk hcut
    have hcut' : ∀ n ∈ l₁.getLast?, ∀ n' ∈ l₂.head?, n.2 = false ∨ n'.2 = false := fun n hn =>
      hcut n (by rw [List.getLast?_cons, Option.mem_def.1 hn]; rfl)
    cases s with
    | nil => cases k <;> simp [marksFrom] at h
    | cons a s =>
      have hs : s = l₁.map (·.1) ++ l₂.map (·.1) := by
        have htext := congrArg (List.map (·.1)) h
        rw [map_fst_marksFrom] at htext
        simpa using (List.cons.inj htext).2
      cases k with
      | succ k =>
        obtain ⟨rfl, htail⟩ := List.cons.inj h
        obtain ⟨hfront, hback⟩ := ih htail (by simpa using hk) hcut'
        exact ⟨by rw [List.map_cons, marksFrom, hfront], hback⟩
      | zero =>
        rw [← marks, marks_cons] at h
        rw [List.map_cons, ← marks, marks_cons]
        split at h
        · next hw =>
          obtain ⟨rfl, htail⟩ := List.cons.inj h
          have hw' : width (a :: l₁.map (·.1)) = 0 := by
            by_contra hc
            have := width_append_of_ne_zero hc (l₂.map (·.1))
            rw [List.cons_append, ← hs, hw] at this
            exact hc this.symm
          obtain ⟨hfront, hback⟩ := ih htail (Nat.zero_le _) hcut'
          exact ⟨by rw [if_pos hw', ← hfront, map_fst_marksFrom]; rfl, hback⟩
        · next hw =>
          obtain ⟨rfl, htail⟩ := List.cons.inj h
          have hwidth := width_le_length (a :: s)
          have hj : width (a :: s) - 1 ≤ l₁.length :=
            le_length_of_cut htail (by rw [List.length_cons] at hwidth; omega) hcut
          have hw' : width (a :: l₁.map (·.1)) = width (a :: s) := by
            have := width_eq_of_le (List.cons_ne_nil a (l₁.map (·.1))) (l₂.map (·.1))
            rw [List.cons_append, ← hs] at this
            exact (this (by simp; omega)).symm
          obtain ⟨hfront, hback⟩ := ih htail hj hcut'
          exact ⟨by rw [hw', if_neg hw, hfront], hback⟩

theorem marks_cut {s : Bytes} {l₁ l₂ : List (UInt8 × Bool)} (h : marks s = l₁ ++ l₂)
    (hcut : ∀ m ∈ l₁.getLast?, ∀ m' ∈ l₂.head?, m.2 = false ∨ m'.2 = false) :
    marks (l₁.map (·.1)) = l₁ ∧ marks (l₂.map (·.1)) = l₂ := marksFrom_cut h (Nat.zero_le _) hcut

/-! ## Fields -/

@[simp]
theorem fields_nil : fields [] = [] := rfl

/-- The fields around a blank of one octet. -/
theorem fields_append_blank {b : UInt8} (hb : isBlank1 b = true) (x y : Bytes) :
    fields (x ++ b :: y) = fields x ++ fields y := by
  have hy : ∀ c ∈ (b :: y).head?, c < 0x80 := by
    intro c hc
    obtain rfl : b = c := by simpa using hc
    exact lt_of_isBlank1 hb
  rw [fields, marks_append x hy, marks_cons_blank hb, List.splitOnP_append_cons (marks x) (marks y) rfl,
    List.filter_append, List.map_append]
  rfl

theorem fields_cons_blank {b : UInt8} (hb : isBlank1 b = true) (s : Bytes) : fields (b :: s) = fields s := by
  simpa using fields_append_blank hb [] s

/-- Blanks of one octet in front of a text are in no field. -/
theorem fields_append_left {x : Bytes} (hx : ∀ b ∈ x, isBlank1 b = true) (y : Bytes) : fields (x ++ y) = fields y := by
  induction x with
  | nil => rfl
  | cons b x ih =>
    rw [List.cons_append, fields_cons_blank (hx b List.mem_cons_self),
      ih fun c hc => hx c (List.mem_cons_of_mem _ hc)]

/-- Blanks of one octet behind a text are in no field. -/
theorem fields_append_right (x : Bytes) {y : Bytes} (hy : ∀ b ∈ y, isBlank1 b = true) : fields (x ++ y) = fields x := by
  cases y with
  | nil => rw [List.append_nil]
  | cons b y =>
    have hn : fields y = [] := by
      simpa using fields_append_left (fun c hc => hy c (List.mem_cons_of_mem _ hc)) []
    rw [fields_append_blank (hy b List.mem_cons_self), hn, List.append_nil]

theorem fields_eq_nil_iff (s : Bytes) : fields s = [] ↔ isBlankText s = true := by
  rw [fields, List.map_eq_nil_iff, filter_splitOnP_eq_nil_iff, isBlankText, List.all_eq_true]

/-- A text in which no octet belongs to a blank. -/
def IsSolid (w : Bytes) : Prop := ∀ m ∈ marks w, m.2 = false

instance : DecidablePred IsSolid := fun w => inferInstanceAs (Decidable (∀ m ∈ marks w, m.2 = false))

/-- The first field of a text is its first run outside blanks. -/
theorem head?_fields_eq_some_iff {s m : Bytes} : (fields s).head? = some m ↔
    m ≠ [] ∧ m = (((marks s).dropWhile (·.2)).takeWhile (!·.2)).map (·.1) := by
  rw [fields, List.head?_map, Option.map_eq_some_iff]
  simp only [head?_filter_splitOnP_eq_some_iff]
  constructor
  · rintro ⟨l, ⟨hne, rfl⟩, rfl⟩
    exact ⟨by simpa using hne, rfl⟩
  · rintro ⟨hne, rfl⟩
    exact ⟨_, ⟨by simpa using hne, rfl⟩, rfl⟩

theorem fields_of_isSolid {w : Bytes} (hne : w ≠ []) (hw : IsSolid w) : fields w = [w] := by
  have hm : marks w ≠ [] := fun h => hne (by rw [← map_fst_marks w, h]; rfl)
  rw [fields, List.splitOnP_eq_singleton hw, List.filter_cons_of_pos (by simpa using hm)]
  simp

theorem isSolid_of_mem_fields {s w : Bytes} (h : w ∈ fields s) : w ≠ [] ∧ IsSolid w := by
  obtain ⟨l, hl, rfl⟩ := List.mem_map.1 h
  obtain ⟨hl, hne⟩ := List.mem_filter.1 hl
  obtain ⟨⟨l₁, l₂, hin⟩, hf⟩ := mem_splitOnP hl
  have hne : l ≠ [] := by simpa using hne
  rw [List.append_assoc] at hin
  have hfirst : ∀ m ∈ (l ++ l₂).head?, m.2 = false := fun m hm => by
    rw [List.head?_append_of_ne_nil _ hne] at hm
    exact hf m (List.mem_of_mem_head? hm)
  have hback := (marks_cut hin.symm fun _ _ m hm => .inr (hfirst m hm)).2
  have hw : marks (l.map (·.1)) = l := (marks_cut hback fun m hm _ _ => .inl (hf m (List.mem_of_mem_getLast? hm))).1
  refine ⟨by simpa using hne, fun m hm => ?_⟩
  rw [hw] at hm
  exact hf m hm

theorem fields_of_mem {s w : Bytes} (h : w ∈ fields s) : fields w = [w] :=
  fields_of_isSolid (isSolid_of_mem_fields h).1 (isSolid_of_mem_fields h).2

/-- No blank of one octet stands in a solid text. -/
theorem IsSolid.isBlank1_false {w : Bytes} (hw : IsSolid w) {b : UInt8} (hb : b ∈ w) : isBlank1 b = false := by
  rw [← map_fst_marks w] at hb
  obtain ⟨⟨b, m⟩, hm, rfl⟩ := List.mem_map.1 hb
  obtain rfl : m = false := hw _ hm
  exact isBlank1_of_mem_marksFrom hm

/-- Every octet of a field is one of the text. -/
theorem mem_of_mem_fields {s w : Bytes} (h : w ∈ fields s) {b : UInt8} (hb : b ∈ w) : b ∈ s := by
  obtain ⟨l, hl, rfl⟩ := List.mem_map.1 h
  obtain ⟨⟨l₁, l₂, hin⟩, -⟩ := mem_splitOnP (List.mem_filter.1 hl).1
  have hs : s = l₁.map (·.1) ++ l.map (·.1) ++ l₂.map (·.1) := by
    rw [← map_fst_marks s, ← hin]
    simp
  rw [hs]
  simp [hb]

/-- Fields with single spaces between them are read back. -/
theorem fields_join {ws : List Bytes} (h : ∀ w ∈ ws, fields w = [w]) : fields (Bytes.join [32] ws) = ws := by
  induction ws with
  | nil => rfl
  | cons w ws ih =>
    have hw := h w List.mem_cons_self
    have hws : ∀ v ∈ ws, fields v = [v] := fun v hv => h v (List.mem_cons_of_mem _ hv)
    cases ws with
    | nil => simpa [Bytes.join] using hw
    | cons v ws =>
      rw [Bytes.join_cons_cons, List.append_assoc, List.singleton_append, fields_append_blank (by decide), hw, ih hws]
      rfl

/-! ## Plain texts -/

/-- No blanks but tab, line feed, form feed, carriage return and space. -/
def IsPlain (s : Bytes) : Prop := ∀ m ∈ marks s, m.2 = true → isSpace m.1 = true

instance : DecidablePred IsPlain := fun s =>
  inferInstanceAs (Decidable (∀ m ∈ marks s, m.2 = true → isSpace m.1 = true))

theorem isPlain_cons (a : UInt8) (s : Bytes) :
    IsPlain (a :: s) ↔ (width (a :: s) ≠ 0 → isSpace a = true) ∧ IsPlain s := by
  by_cases hw : width (a :: s) = 0
  · simp [IsPlain, marks_cons, hw]
  · by_cases ha : isSpace a = true
    · simp [IsPlain, marks_cons_blank (isBlank1_of_isSpace ha), ha]
    · simp [IsPlain, marks_cons, hw, ha]

theorem IsPlain.of_suffix {s t : Bytes} (h : s <:+ t) (ht : IsPlain t) : IsPlain s := by
  obtain ⟨x, rfl⟩ := h
  induction x with
  | nil => exact ht
  | cons a x ih => exact ih ((isPlain_cons a _).1 ht).2

theorem IsPlain.of_prefix {s t : Bytes} (h : s <+: t) (ht : IsPlain t) : IsPlain s := by
  obtain ⟨y, rfl⟩ := h
  induction s with
  | nil => exact fun m hm => absurd hm (by simp [marks, marksFrom])
  | cons a s ih =>
    obtain ⟨ha, hs⟩ := (isPlain_cons a (s ++ y)).1 ht
    refine (isPlain_cons a s).2 ⟨fun hw => ha ?_, ih hs⟩
    rw [← List.cons_append, width_append_of_ne_zero hw]
    exact hw

theorem IsPlain.of_infix {s t : Bytes} (h : s <:+: t) (ht : IsPlain t) : IsPlain s := by
  obtain ⟨x, y, rfl⟩ := h
  exact (ht.of_prefix (List.prefix_append _ _)).of_suffix (List.suffix_append _ _)

/-- A plain text without spaces is solid. -/
theorem IsPlain.isSolid {s : Bytes} (h : IsPlain s) (hs : ∀ b ∈ s, isSpace b = false) : IsSolid s := by
  intro m hm
  by_contra hc
  have hb := hs m.1 (by rw [← map_fst_marks s]; exact List.mem_map_of_mem hm)
  rw [h m hm (by simpa using hc)] at hb
  cases hb

end AsmLens.Blank
