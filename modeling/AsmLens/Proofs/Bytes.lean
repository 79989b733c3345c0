import AsmLens.Bytes
import Mathlib.Data.List.DropRight
import Mathlib.Data.List.TakeWhile

/-!
# Texts taken apart and put together

* Splitting: every list is pieces without a mark, with marks between them (`splitOnP_induction`); together they are the
  list without its marks (`flatten_splitOnP`), there is one more of them than of marks (`length_splitOnP`), and the
  first that is not empty is the first run without a mark (`head?_filter_splitOnP_eq_some_iff`).
* Runs: a run is found again in front of what ends it (`takeWhile_append_stop`, `dropWhile_append_stop`), and every list
  is runs of marked elements and of others in turn (`runs_induction`).
* Ends: what `trimEnd` takes off (`trimEnd_append_self`), and where it stops (`trimEnd_append_of_ne_nil`).
* Cutting: what stands before the first of an octet (`before_append`).
* Joining: the texts with separators behind all but the last (`join_concat`), the octets of joined texts (`mem_join`),
  the last one (`getLast?_join`), and the pieces read back from around every separator (`splitOn_join`).
* Numbers: a number is written in digits (`isDigit_of_mem_decimal`).
-/

namespace AsmLens

/-! ## Splitting at every mark -/

section Splitting

variable {α : Type} {p : α → Bool}

/-- Induction along the pieces that a list is split into. -/
theorem splitOnP_induction {motive : List α → Prop} (whole : ∀ w, (∀ x ∈ w, p x = false) → motive w)
    (cut : ∀ w b rest, (∀ x ∈ w, p x = false) → p b = true → motive rest → motive (w ++ b :: rest)) (l : List α) :
    motive l := by
  induction hn : l.length using Nat.strongRecOn generalizing l with
  | ind n ih =>
    have hw : ∀ x ∈ l.takeWhile (!p ·), p x = false := fun x hx => by simpa using List.mem_takeWhile_imp hx
    have hl : l.takeWhile (!p ·) ++ l.dropWhile (!p ·) = l := List.takeWhile_append_dropWhile
    cases hd : l.dropWhile (!p ·) with
    | nil =>
      rw [hd, List.append_nil] at hl
      rw [← hl]
      exact whole _ hw
    | cons b rest =>
      have hb : p b = true := by
        have := List.head?_dropWhile_not (!p ·) l
        simpa [hd] using this
      rw [hd] at hl
      have hlen : rest.length < n := by rw [← hn, ← hl]; simp; omega
      rw [← hl]
      exact cut _ b rest hw hb (ih _ hlen rest rfl)

/-- A piece is a stretch of the list and has no mark in it. -/
theorem mem_splitOnP {l w : List α} (h : w ∈ l.splitOnP p) : w <:+: l ∧ ∀ x ∈ w, p x = false := by
  induction l using splitOnP_induction (p := p) with
  | whole v hv =>
    rw [List.splitOnP_eq_singleton hv, List.mem_singleton] at h
    subst h
    exact ⟨List.infix_rfl, hv⟩
  | cut v b rest hv hb ih =>
    rw [List.splitOnP_append_cons_of_forall_mem hv b hb, List.mem_cons] at h
    rcases h with rfl | h
    · exact ⟨⟨[], b :: rest, by simp⟩, hv⟩
    · obtain ⟨hi, hf⟩ := ih h
      exact ⟨hi.trans ⟨v ++ [b], [], by simp⟩, hf⟩

/-- The pieces together are the list without its marks. -/
theorem flatten_splitOnP (l : List α) : (l.splitOnP p).flatten = l.filter (!p ·) := by
  induction l using splitOnP_induction (p := p) with
  | whole w hw =>
    rw [List.splitOnP_eq_singleton hw, List.flatten_singleton, List.filter_eq_self.2]
    simpa using hw
  | cut w b rest hw hb ih =>
    have hkeep : w.filter (!p ·) = w := List.filter_eq_self.2 (by simpa using hw)
    rw [List.splitOnP_append_cons_of_forall_mem hw b hb, List.flatten_cons, ih, List.filter_append, hkeep,
      List.filter_cons_of_neg (by simp [hb])]

/-- There is one piece more than there are marks. -/
theorem length_splitOnP (l : List α) : (l.splitOnP p).length = l.countP p + 1 := by
  induction l using splitOnP_induction (p := p) with
  | whole w hw =>
    rw [List.splitOnP_eq_singleton hw, List.countP_eq_zero.2 (by simpa using hw)]
    rfl
  | cut w b rest hw hb ih =>
    have hnone : w.countP p = 0 := List.countP_eq_zero.2 (by simpa using hw)
    rw [List.splitOnP_append_cons_of_forall_mem hw b hb, List.length_cons, ih, List.countP_append, hnone,
      List.countP_cons_of_pos hb, Nat.zero_add]

/-- All pieces are empty just if there is nothing but marks. -/
theorem filter_splitOnP_eq_nil_iff (l : List α) : (l.splitOnP p).filter (!·.isEmpty) = [] ↔ ∀ x ∈ l, p x = true := by
  induction l using splitOnP_induction (p := p) with
  | whole w hw =>
    rw [List.splitOnP_eq_singleton hw]
    cases w with
    | nil => simp
    | cons x w => simp [hw x List.mem_cons_self]
  | cut w b rest hw hb ih =>
    rw [List.splitOnP_append_cons_of_forall_mem hw b hb]
    cases w with
    | nil => simp [ih, hb]
    | cons x w => simp [hw x List.mem_cons_self]

/-- The first piece that is not empty is the first run between marks. -/
theorem head?_filter_splitOnP_eq_some_iff {l w : List α} :
    ((l.splitOnP p).filter (!·.isEmpty)).head? = some w ↔ w ≠ [] ∧ w = (l.dropWhile p).takeWhile (!p ·) := by
  have hfirst (x : α) (v : List α) (later : List (List α)) :
      (((x :: v) :: later).filter (!·.isEmpty)).head? = some w ↔ w ≠ [] ∧ w = x :: v := by
    rw [List.filter_cons_of_pos rfl, List.head?_cons, Option.some.injEq]
    exact ⟨fun h => ⟨h ▸ List.cons_ne_nil x v, h.symm⟩, fun h => h.2.symm⟩
  induction l using splitOnP_induction (p := p) with
  | whole v hv =>
    rw [List.splitOnP_eq_singleton hv]
    cases v with
    | nil => simp
    | cons x v =>
      have htake : (x :: v).takeWhile (!p ·) = x :: v := List.takeWhile_eq_self_iff.2 (by simpa using hv)
      rw [hfirst, List.dropWhile_cons_of_neg (by simp [hv x List.mem_cons_self]), htake]
  | cut v b rest hv hb ih =>
    rw [List.splitOnP_append_cons_of_forall_mem hv b hb]
    cases v with
    | nil => simpa [hb] using ih
    | cons x v =>
      have htake : (x :: v ++ b :: rest).takeWhile (!p ·) = x :: v := by
        rw [List.takeWhile_append_of_pos (by simpa using hv)]
        simp [hb]
      rw [hfirst, List.cons_append, List.dropWhile_cons_of_neg (by simp [hv x List.mem_cons_self]),
        ← List.cons_append, htake]

end Splitting

/-! ## Runs -/

section Runs

variable {α : Type} {p : α → Bool}

theorem takeWhile_append_stop {w rest : List α} (hw : ∀ x ∈ w, p x = true) (hr : ∀ x ∈ rest.head?, p x = false) :
    (w ++ rest).takeWhile p = w := by
  rw [List.takeWhile_append_of_pos hw]
  cases rest with
  | nil => simp
  | cons x rest => simp [hr x rfl]

theorem dropWhile_append_stop {w rest : List α} (hw : ∀ x ∈ w, p x = true) (hr : ∀ x ∈ rest.head?, p x = false) :
    (w ++ rest).dropWhile p = rest := by
  rw [List.dropWhile_append_of_pos hw]
  cases rest with
  | nil => rfl
  | cons x rest => simp [hr x rfl]

theorem drop_length_takeWhile (p : α → Bool) (l : List α) : l.drop (l.takeWhile p).length = l.dropWhile p := by
  induction l with
  | nil => rfl
  | cons x l ih => cases hx : p x <;> simp [hx, ih]

/-- What follows a run does not continue it. -/
theorem head?_dropWhile_false (p : α → Bool) (l : List α) : ∀ x ∈ (l.dropWhile p).head?, p x = false := by
  intro x hx
  have h := List.head?_dropWhile_not p l
  rw [Option.mem_def.1 hx] at h
  simpa using h

/-- A run of what is not cut off the end is found all the same. -/
theorem takeWhile_rdropWhile {q : α → Bool} (h : ∀ x, q x = true → p x = false) (l : List α) :
    (l.rdropWhile p).takeWhile q = l.takeWhile q := by
  have hcut : (l.rtakeWhile p).takeWhile q = [] := by
    cases ht : l.rtakeWhile p with
    | nil => rfl
    | cons x t =>
      have hx : p x = true := List.mem_rtakeWhile_imp (ht ▸ List.mem_cons_self)
      exact List.takeWhile_cons_of_neg fun hq => by simp [h x hq] at hx
  conv_rhs => rw [← List.rdropWhile_append_rtakeWhile (p := p) (l := l)]
  rw [List.takeWhile_append]
  split
  · next hlen => rw [hcut, List.append_nil, (List.takeWhile_prefix q).eq_of_length hlen]
  · rfl

/-- Induction along the runs of a list, of marked elements and of others in turn. -/
theorem runs_induction {motive : List α → Prop} (nil : motive [])
    (marked : ∀ x y, x ≠ [] → (∀ a ∈ x, p a = true) → (∀ a ∈ y.head?, p a = false) → motive y → motive (x ++ y))
    (other : ∀ x y, x ≠ [] → (∀ a ∈ x, p a = false) → (∀ a ∈ y.head?, p a = true) → motive y → motive (x ++ y))
    (l : List α) : motive l := by
  induction hn : l.length using Nat.strongRecOn generalizing l with
  | ind n ih =>
    cases l with
    | nil => exact nil
    | cons a rest =>
      -- The first run is that of the elements which are like `a`.
      have hsplit : (a :: rest).takeWhile (p · == p a) ++ rest.dropWhile (p · == p a) = a :: rest := by
        rw [List.takeWhile_cons_of_pos (by simp), List.cons_append, List.takeWhile_append_dropWhile]
      have hne : (a :: rest).takeWhile (p · == p a) ≠ [] := by simp
      have hrun : ∀ x ∈ (a :: rest).takeWhile (p · == p a), p x = p a := fun x hx => by
        simpa using List.mem_takeWhile_imp hx
      have hstop : ∀ x ∈ (rest.dropWhile (p · == p a)).head?, p x ≠ p a := fun x hx => by
        simpa using head?_dropWhile_false (p · == p a) rest x hx
      have hlen : (rest.dropWhile (p · == p a)).length < n := by
        have hle := (List.dropWhile_suffix (l := rest) (p · == p a)).length_le
        rw [← hn, List.length_cons]
        omega
      have hrest := ih _ hlen _ rfl
      rw [← hsplit]
      cases ha : p a with
      | true =>
        simp only [ha] at *
        exact marked _ _ hne hrun (fun x hx => by simpa using hstop x hx) hrest
      | false =>
        simp only [ha] at *
        exact other _ _ hne hrun (fun x hx => by simpa using hstop x hx) hrest

end Runs

theorem isSpace_of_isFilling {b : UInt8} (h : isFilling b = true) : isSpace b = true := by
  simp only [isFilling, Bool.or_eq_true, beq_iff_eq] at h
  rcases h with rfl | rfl <;> rfl

namespace Bytes

/-! ## Ends -/

section Ends

variable (p : UInt8 → Bool)

theorem trimEnd_eq_rdropWhile (s : Bytes) : trimEnd p s = s.rdropWhile p := rfl

/-- A text is what is left of it and what was taken off its end. -/
theorem trimEnd_append_self (s : Bytes) : ∃ t, s = trimEnd p s ++ t ∧ ∀ b ∈ t, p b = true :=
  ⟨s.rtakeWhile p, (List.rdropWhile_append_rtakeWhile).symm, fun _ => List.mem_rtakeWhile_imp⟩

theorem trimEnd_trimEnd (s : Bytes) : trimEnd p (trimEnd p s) = trimEnd p s := List.rdropWhile_idempotent p s

theorem trimEnd_prefix (s : Bytes) : trimEnd p s <+: s := List.rdropWhile_prefix p s

variable {p}

theorem trimEnd_eq_self_iff {s : Bytes} : trimEnd p s = s ↔ ∀ b ∈ s.getLast?, p b = false := by
  rw [trimEnd_eq_rdropWhile, List.rdropWhile_eq_self_iff]
  constructor
  · intro h b hb
    have hs : s ≠ [] := by rintro rfl; simp at hb
    rw [List.getLast?_eq_getLast_of_ne_nil hs, Option.mem_some] at hb
    simpa [hb] using h hs
  · intro h hs
    simpa using h _ (List.getLast?_eq_getLast_of_ne_nil hs)

/-- Trimming stops in the later part of a text if it leaves anything of it. -/
theorem trimEnd_append_of_ne_nil (s : Bytes) {t : Bytes} (h : trimEnd p t ≠ []) :
    trimEnd p (s ++ t) = s ++ trimEnd p t := by
  simp only [trimEnd, List.reverse_append] at h ⊢
  have : t.reverse.dropWhile p ≠ [] := by simpa using h
  rw [List.dropWhile_append, if_neg (by simpa using this)]
  simp

end Ends

/-! ## Cutting -/

theorem before_append {b : UInt8} {s : Bytes} (h : b ∉ s) (t : Bytes) : before b (s ++ b :: t) = s :=
  takeWhile_append_stop (fun c hc => by simpa using fun hcb : c = b => h (hcb ▸ hc)) (by simp)

/-! ## Joining -/

theorem join_cons_cons (sep a b : Bytes) (rest : List Bytes) :
    join sep (a :: b :: rest) = a ++ sep ++ join sep (b :: rest) := by
  simp [join]

/-- Joined texts are all but the last with the separator behind them, and the last. -/
theorem join_concat (sep last : Bytes) (init : List Bytes) :
    join sep (init ++ [last]) = init.flatMap (· ++ sep) ++ last := by
  induction init with
  | nil => simp [join]
  | cons a init ih =>
    cases init with
    | nil => simp [join]
    | cons c init =>
      rw [List.cons_append, List.cons_append, join_cons_cons, ← List.cons_append, ih]
      simp only [List.flatMap_cons, List.append_assoc]

theorem mem_join {sep : Bytes} {parts : List Bytes} {b : UInt8} (h : b ∈ join sep parts) :
    b ∈ sep ∨ ∃ w ∈ parts, b ∈ w := by
  induction parts with
  | nil => simp [join] at h
  | cons a parts ih =>
    cases parts with
    | nil => exact .inr ⟨a, List.mem_cons_self, by simpa [join] using h⟩
    | cons c parts =>
      rw [join_cons_cons, List.mem_append, List.mem_append] at h
      rcases h with (h | h) | h
      · exact .inr ⟨a, List.mem_cons_self, h⟩
      · exact .inl h
      · rcases ih h with h | ⟨w, hw, hb⟩
        · exact .inl h
        · exact .inr ⟨w, List.mem_cons_of_mem _ hw, hb⟩

/-- Joined texts end as the last of them. -/
theorem getLast?_join {sep : Bytes} {parts : List Bytes} (h : ∀ w ∈ parts, w ≠ []) :
    (join sep parts).getLast? = parts.getLast?.bind List.getLast? := by
  induction parts with
  | nil => rfl
  | cons a parts ih =>
    cases parts with
    | nil => simp [join]
    | cons c parts =>
      have hrest : ∀ w ∈ c :: parts, w ≠ [] := fun w hw => h w (List.mem_cons_of_mem _ hw)
      have hne : join sep (c :: parts) ≠ [] := by
        intro hnil
        have hc := hrest c List.mem_cons_self
        cases parts with
        | nil => exact hc (by simpa [join] using hnil)
        | cons d parts =>
          rw [join_cons_cons] at hnil
          simp [hc] at hnil
      rw [join_cons_cons, List.getLast?_append_of_ne_nil _ hne, ih hrest, List.getLast?_cons_cons]

theorem splitOn_join {sep : UInt8} {parts : List Bytes} (hne : parts ≠ []) (h : ∀ w ∈ parts, sep ∉ w) :
    (join [sep] parts).splitOn sep = parts := List.splitOn_intercalate sep h hne

/-! ## Written numbers -/

theorem decimal_ne_nil (n : Nat) : decimal n ≠ [] := by simp [decimal, digits, Nat.toDigits_ne_nil]

theorem isDigit_of_mem_decimal {n : Nat} {b : UInt8} (h : b ∈ decimal n) : isDigit b = true := by
  obtain ⟨c, hc, rfl⟩ := List.mem_map.1 h
  have hdigit : 48 ≤ c.val.toNat ∧ c.val.toNat ≤ 57 := by
    have := Nat.isDigit_of_mem_toDigits (by omega) (by omega) hc
    simp only [Char.isDigit, Bool.and_eq_true, decide_eq_true_eq, UInt32.le_iff_toNat_le] at this
    exact this
  have hval : c.toUInt8.toNat = c.val.toNat % 256 := UInt32.toNat_toUInt8 c.val
  simp only [isDigit, Bool.and_eq_true, decide_eq_true_eq, UInt8.le_iff_toNat_le, hval]
  show 48 ≤ c.val.toNat % 256 ∧ c.val.toNat % 256 ≤ 57
  omega

end Bytes

end AsmLens
