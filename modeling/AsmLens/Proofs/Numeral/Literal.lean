import AsmLens.Numeral
import Mathlib.Data.Nat.Digits.Defs

/-!
# Integer literals and their values

The grammar of integers, said without the readings of them and without a limit on their size, each text with the number
that it denotes.

* `Literal`: an unsigned literal that announces its base. Digits are `Grouped` if at most one underscore stands between
  two of them; behind the announcement of a base one more may stand in front (`Behind`).
* `Padded`: decimal digits, zeros in front allowed.
* `Signed`: either of them behind an optional sign.

The readings go through the digits from the left and add them up as long as 64 bits hold the sum (`accumulate`). They
end well just on the texts of the grammar whose value is in range (`readLiteral_eq_ok_iff`, `readDecimal_eq_ok_iff`),
and out of range where digits in front have run over, whatever follows them (`accumulate_eq_outOfRange_iff`).
-/

namespace AsmLens.Numeral

/-! ## Digits -/

/-- An octet that is a digit of a base. -/
def IsDigitOf (base : Nat) (b : UInt8) : Prop := ∃ d, digitValue? b = some d ∧ d < base

/-- The number that the digits of a text make in a base; what is no digit does not count. -/
def value (base : Nat) (s : Bytes) : Nat := Nat.ofDigits base (s.filterMap digitValue?).reverse

theorem isDigitOf_ten_iff {b : UInt8} : IsDigitOf 10 b ↔ isDigit b = true := by
  simp only [IsDigitOf, digitValue?]
  split
  · next h =>
    refine iff_of_true ⟨_, rfl, ?_⟩ h
    simp only [isDigit, Bool.and_eq_true, decide_eq_true_eq, UInt8.le_iff_toNat_le] at h
    have : b.toNat ≤ 57 := h.2
    omega
  · next h =>
    refine iff_of_false ?_ h
    rintro ⟨d, hd, hlt⟩
    -- Letters have the values from ten on.
    split at hd
    · next hl =>
      simp only [isLower, Bool.and_eq_true, decide_eq_true_eq, UInt8.le_iff_toNat_le] at hl
      have : 97 ≤ b.toNat := hl.1
      cases hd
      omega
    · split at hd
      · next hu =>
        simp only [isUpper, Bool.and_eq_true, decide_eq_true_eq, UInt8.le_iff_toNat_le] at hu
        have : 65 ≤ b.toNat := hu.1
        cases hd
        omega
      · cases hd

theorem not_isDigitOf_underscore {base : Nat} : ¬ IsDigitOf base 95 := by
  rintro ⟨d, hd, -⟩
  cases hd

/-- The value of digits behind a number that others have made. -/
def valueFrom (base n : Nat) (s : Bytes) : Nat := (s.filterMap digitValue?).foldl (fun n d => n * base + d) n

theorem value_eq_valueFrom (base : Nat) (s : Bytes) : value base s = valueFrom base 0 s := by
  rw [value, Nat.ofDigits_eq_foldr, List.foldr_reverse, valueFrom]
  congr 1
  funext n d
  rw [Nat.cast_id, Nat.add_comm, Nat.mul_comm]

theorem valueFrom_cons {base d : Nat} {b : UInt8} (h : digitValue? b = some d) (n : Nat) (s : Bytes) :
    valueFrom base n (b :: s) = valueFrom base (n * base + d) s := by
  rw [valueFrom, List.filterMap_cons_some h]
  rfl

theorem valueFrom_underscore (base n : Nat) (s : Bytes) : valueFrom base n (95 :: s) = valueFrom base n s := rfl

theorem le_valueFrom {base : Nat} (hb : 0 < base) (s : Bytes) : ∀ n, n ≤ valueFrom base n s := by
  unfold valueFrom
  induction s.filterMap digitValue? with
  | nil => intro n; exact Nat.le_refl n
  | cons d ds ih =>
    intro n
    have hstep : n ≤ n * base + d := Nat.le_add_right_of_le (Nat.le_mul_of_pos_right n hb)
    exact hstep.trans (ih _)

theorem value_zero_cons (base : Nat) (s : Bytes) : value base (48 :: s) = value base s := by
  rw [value_eq_valueFrom, valueFrom_cons (d := 0) rfl, Nat.zero_mul, Nat.add_zero, value_eq_valueFrom]

theorem value_le_append {base : Nat} (hb : 0 < base) (x y : Bytes) : value base x ≤ value base (x ++ y) := by
  simp only [value_eq_valueFrom]
  have happend : valueFrom base 0 (x ++ y) = valueFrom base (valueFrom base 0 x) y := by
    simp only [valueFrom, List.filterMap_append, List.foldl_append]
  rw [happend]
  exact le_valueFrom hb y _

/-! ## Adding up digits -/

/-- An octet that a reading goes over: a digit, or an underscore where these are allowed. -/
def IsReadable (base : Nat) (underscores : Bool) (b : UInt8) : Prop :=
  IsDigitOf base b ∨ underscores = true ∧ b = 95

theorem isReadable_ten_iff {b : UInt8} : IsReadable 10 false b ↔ isDigit b = true := by
  simp [IsReadable, isDigitOf_ten_iff]

section Accumulate

variable {base : Nat} {underscores : Bool} {b : UInt8}

theorem accumulate_digit {d : Nat} (h : digitValue? b = some d) (hd : d < base) (n : Nat) (s : Bytes) :
    accumulate base underscores n (b :: s) =
      if magnitudeLimit ≤ n * base + d then .error .outOfRange else accumulate base underscores (n * base + d) s := by
  have hne : b ≠ 95 := by
    rintro rfl
    cases h
  simp [accumulate, hne, h, Nat.not_le.2 hd]

theorem accumulate_underscore (n : Nat) (s : Bytes) : accumulate base true n (95 :: s) = accumulate base true n s := rfl

theorem accumulate_of_not_isReadable (h : ¬ IsReadable base underscores b) (n : Nat) (s : Bytes) :
    accumulate base underscores n (b :: s) = .error .malformed := by
  simp only [IsReadable, not_or] at h
  have hu : (underscores && b == 95) = false := by
    rw [Bool.eq_false_iff]
    intro hc
    simp only [Bool.and_eq_true, beq_iff_eq] at hc
    exact h.2 hc
  rw [accumulate, hu, if_neg Bool.false_ne_true]
  cases hd : digitValue? b with
  | none => rfl
  | some d => exact if_pos (Nat.not_lt.1 fun hlt => h.1 ⟨d, hd, hlt⟩)

/-- All digits are read just if there is nothing else and their value stays in range. -/
theorem accumulate_eq_ok_iff (hb : 0 < base) {s : Bytes} {m : Nat} : ∀ {n : Nat}, n < magnitudeLimit →
    (accumulate base underscores n s = .ok m ↔
      (∀ b ∈ s, IsReadable base underscores b) ∧ m = valueFrom base n s ∧ m < magnitudeLimit) := by
  induction s with
  | nil =>
    intro n hn
    rw [accumulate, Except.ok.injEq]
    constructor
    · rintro rfl
      exact ⟨by simp, rfl, hn⟩
    · rintro ⟨-, rfl, -⟩
      rfl
  | cons b s ih =>
    intro n hn
    by_cases hr : IsReadable base underscores b
    · rw [List.forall_mem_cons, and_iff_right hr]
      rcases hr with ⟨d, hd, hlt⟩ | ⟨rfl, rfl⟩
      · rw [accumulate_digit hd hlt, valueFrom_cons hd]
        split
        · next hlimit =>
          refine iff_of_false (by simp) ?_
          rintro ⟨-, rfl, hm⟩
          have := le_valueFrom hb s (n * base + d)
          omega
        · next hlimit => exact ih (Nat.not_le.1 hlimit)
      · rw [accumulate_underscore, valueFrom_underscore]
        exact ih hn
    · rw [accumulate_of_not_isReadable hr]
      exact iff_of_false (by simp) fun h => hr (h.1 b List.mem_cons_self)

variable (base underscores) in
/-- Digits in front of a text, behind the number `n`, are too much for 64 bits. -/
def RunsOverFrom (n : Nat) (s : Bytes) : Prop :=
  ∃ front back, s = front ++ back ∧ (∀ b ∈ front, IsReadable base underscores b) ∧
    magnitudeLimit ≤ valueFrom base n front

theorem not_runsOverFrom_nil {n : Nat} (hn : n < magnitudeLimit) : ¬ RunsOverFrom base underscores n [] := by
  rintro ⟨front, back, hs, -, h⟩
  obtain ⟨rfl, -⟩ := List.append_eq_nil_iff.1 hs.symm
  exact absurd h (Nat.not_le.2 hn)

/-- Nothing has run over before the first octet is read. -/
theorem runsOverFrom_cons_iff {n : Nat} (hn : n < magnitudeLimit) {s : Bytes} :
    RunsOverFrom base underscores n (b :: s) ↔ IsReadable base underscores b ∧ ∃ front back, s = front ++ back ∧
      (∀ b ∈ front, IsReadable base underscores b) ∧ magnitudeLimit ≤ valueFrom base n (b :: front) := by
  constructor
  · rintro ⟨front, back, hs, hread, h⟩
    cases front with
    | nil => exact absurd h (Nat.not_le.2 hn)
    | cons c front =>
      obtain ⟨rfl, rfl⟩ := List.cons.inj hs
      obtain ⟨hc, hread⟩ := List.forall_mem_cons.1 hread
      exact ⟨hc, front, back, rfl, hread, h⟩
  · rintro ⟨hb, front, back, rfl, hread, h⟩
    exact ⟨b :: front, back, rfl, List.forall_mem_cons.2 ⟨hb, hread⟩, h⟩

/-- A reading ends out of range just if digits in front run over. -/
theorem accumulate_eq_outOfRange_iff {s : Bytes} : ∀ {n : Nat}, n < magnitudeLimit →
    (accumulate base underscores n s = .error .outOfRange ↔ RunsOverFrom base underscores n s) := by
  induction s with
  | nil =>
    intro n hn
    exact iff_of_false (by simp [accumulate]) (not_runsOverFrom_nil hn)
  | cons b s ih =>
    intro n hn
    rw [runsOverFrom_cons_iff hn]
    by_cases hr : IsReadable base underscores b
    · rw [and_iff_right hr]
      rcases hr with ⟨d, hd, hlt⟩ | ⟨rfl, rfl⟩
      · simp only [accumulate_digit hd hlt, valueFrom_cons hd]
        split
        · next hlimit => exact iff_of_true rfl ⟨[], s, rfl, by simp, hlimit⟩
        · next hlimit => exact ih (Nat.not_le.1 hlimit)
      · rw [accumulate_underscore]
        exact ih hn
    · rw [accumulate_of_not_isReadable hr]
      exact iff_of_false (by simp) fun h => hr h.1

end Accumulate

/-! ## Groups of digits -/

/-- One or more digits of a base, two neighbours perhaps with an underscore between them. -/
inductive Grouped (base : Nat) : Bytes → Prop
  | single {b : UInt8} (hb : IsDigitOf base b) : Grouped base [b]
  | cons {b : UInt8} {s : Bytes} (hb : IsDigitOf base b) (hs : Grouped base s) : Grouped base (b :: s)
  | underscore {b : UInt8} {s : Bytes} (hb : IsDigitOf base b) (hs : Grouped base s) : Grouped base (b :: 95 :: s)

/-- The digits behind the announcement of a base, perhaps with an underscore in front of them. -/
def Behind (base : Nat) (s : Bytes) : Prop := Grouped base s ∨ ∃ t, s = 95 :: t ∧ Grouped base t

section Grouping

variable {base : Nat}

theorem grouped_cons_iff {b : UInt8} {s : Bytes} :
    Grouped base (b :: s) ↔ IsDigitOf base b ∧ (s = [] ∨ Behind base s) := by
  constructor
  · intro h
    cases h with
    | single hb => exact ⟨hb, .inl rfl⟩
    | cons hb hs => exact ⟨hb, .inr (.inl hs)⟩
    | underscore hb hs => exact ⟨hb, .inr (.inr ⟨_, rfl, hs⟩)⟩
  · rintro ⟨hb, rfl | hs | ⟨t, rfl, hs⟩⟩
    · exact .single hb
    · exact .cons hb hs
    · exact .underscore hb hs

theorem Grouped.ne_nil {s : Bytes} (h : Grouped base s) : s ≠ [] := by cases h <;> simp

theorem Behind.ne_nil {s : Bytes} (h : Behind base s) : s ≠ [] := by
  rcases h with h | ⟨t, rfl, -⟩
  · exact h.ne_nil
  · simp

theorem Grouped.isReadable {s : Bytes} (h : Grouped base s) : ∀ b ∈ s, IsReadable base true b := by
  induction h with
  | single hb => simpa using .inl hb
  | cons hb _ ih => exact List.forall_mem_cons.2 ⟨.inl hb, ih⟩
  | underscore hb _ ih => exact List.forall_mem_cons.2 ⟨.inl hb, List.forall_mem_cons.2 ⟨.inr ⟨rfl, rfl⟩, ih⟩⟩

theorem Behind.isReadable {s : Bytes} (h : Behind base s) : ∀ b ∈ s, IsReadable base true b := by
  rcases h with h | ⟨t, rfl, h⟩
  · exact h.isReadable
  · exact List.forall_mem_cons.2 ⟨.inr ⟨rfl, rfl⟩, h.isReadable⟩

theorem grouped_of_isDigitOf {s : Bytes} (hne : s ≠ []) (h : ∀ b ∈ s, IsDigitOf base b) : Grouped base s := by
  induction s with
  | nil => exact absurd rfl hne
  | cons b s ih =>
    obtain ⟨hb, hs⟩ := List.forall_mem_cons.1 h
    by_cases hnil : s = []
    · exact hnil ▸ .single hb
    · exact .cons hb (ih hnil hs)

/-- The test for underscores, with no digit in front of the text and with one. -/
theorem isGrouped_iff {s : Bytes} (h : ∀ b ∈ s, IsReadable base true b) :
    (isGrouped false s = true ↔ s = [] ∨ Grouped base s) ∧ (isGrouped true s = true ↔ s = [] ∨ Behind base s) := by
  induction s with
  | nil => simp [isGrouped]
  | cons b s ih =>
    obtain ⟨hb, hs⟩ := List.forall_mem_cons.1 h
    obtain ⟨ihBare, ihBehind⟩ := ih hs
    rcases hb with hb | ⟨-, rfl⟩
    · have hne : b ≠ 95 := by
        rintro rfl
        exact not_isDigitOf_underscore hb
      have hstep (behind : Bool) : isGrouped behind (b :: s) = isGrouped true s := by simp [isGrouped, hne]
      simp [hstep, ihBehind, Behind, grouped_cons_iff, hb, hne]
    · have hnot : ¬ Grouped base (95 :: s) := fun hg => not_isDigitOf_underscore (grouped_cons_iff.1 hg).1
      refine ⟨by simp [isGrouped, hnot], ?_⟩
      have hstep : isGrouped true (95 :: s) = (!s.isEmpty && isGrouped false s) := rfl
      have hempty : (!s.isEmpty) = true ↔ s ≠ [] := by simp
      rw [hstep, Bool.and_eq_true, ihBare, hempty]
      constructor
      · rintro ⟨hne, hnil | hg⟩
        · exact absurd hnil hne
        · exact .inr (.inr ⟨s, rfl, hg⟩)
      · rintro (hnil | hg | ⟨t, ht, hg⟩)
        · cases hnil
        · exact absurd hg hnot
        · cases ht
          exact ⟨hg.ne_nil, .inr hg⟩

end Grouping

/-! ## The grammar -/

/-- What announces a base other than ten. -/
def leads : List (Bytes × Nat) :=
  [(utf8 "0x", 16), (utf8 "0X", 16), (utf8 "0b", 2), (utf8 "0B", 2), (utf8 "0o", 8), (utf8 "0O", 8), (utf8 "0", 8)]

/-- An unsigned literal that announces its base, and the number it denotes. -/
inductive Literal : Bytes → Nat → Prop
  | zero : Literal (utf8 "0") 0
  | decimal {s : Bytes} (hs : Grouped 10 s) (hz : s.head? ≠ some 48) : Literal s (value 10 s)
  | based {lead : Bytes} {base : Nat} {s : Bytes} (hl : (lead, base) ∈ leads) (hs : Behind base s) :
    Literal (lead ++ s) (value base s)

/-- Decimal digits, zeros in front allowed, and the number they denote. -/
def Padded (s : Bytes) (n : Nat) : Prop := s ≠ [] ∧ (∀ b ∈ s, isDigit b = true) ∧ n = value 10 s

/-- A number behind an optional sign. -/
inductive Signed (P : Bytes → Nat → Prop) : Bytes → Int → Prop
  | bare {s : Bytes} {n : Nat} (h : P s n) : Signed P s n
  | plus {s : Bytes} {n : Nat} (h : P s n) : Signed P (43 :: s) n
  | minus {s : Bytes} {n : Nat} (h : P s n) : Signed P (45 :: s) (-n)

/-- The integers of 64 bits. -/
def InRange (v : Int) : Prop := -2 ^ 63 ≤ v ∧ v < 2 ^ 63

/-! ## Announced bases -/

theorem lowercase_of_isDigit {b : UInt8} (h : isDigit b = true) : lowercase b = b := by
  simp only [isDigit] at h
  simp only [lowercase, isUpper]
  grind

theorem eq_of_lowercase_eq {mark b : UInt8} (h : lowercase mark = b) : mark = b ∨ mark = b - 32 := by
  simp only [lowercase] at h
  split at h
  · exact .inr (by rw [← h]; simp)
  · exact .inl h

theorem base_of_mem_leads {lead : Bytes} {base : Nat} (h : (lead, base) ∈ leads) : 0 < base ∧ base ≠ 10 := by
  simp only [leads, List.mem_cons, Prod.mk.injEq, List.not_mem_nil, or_false] at h
  omega

theorem splitBase_of_head?_ne {s : Bytes} (h : s.head? ≠ some 48) : splitBase s = (10, s) := by
  cases s with
  | nil => rfl
  | cons b s =>
    have hb : b ≠ 48 := fun hb => h (by rw [hb]; rfl)
    rw [splitBase]
    · exact fun _ _ _ hc => hb (List.cons.inj hc).1
    · exact fun _ hc => hb (List.cons.inj hc).1

/-- A zero announces base eight if no mark of another base follows. -/
theorem splitBase_zero {b : UInt8} (hb : lowercase b ≠ 98 ∧ lowercase b ≠ 111 ∧ lowercase b ≠ 120) (s : Bytes) :
    splitBase (48 :: b :: s) = (8, b :: s) := by
  cases s with
  | nil => rfl
  | cons c s => simp [splitBase, hb]

theorem lowercase_ne_of_isDigit {b : UInt8} (h : isDigit b = true) :
    lowercase b ≠ 98 ∧ lowercase b ≠ 111 ∧ lowercase b ≠ 120 := by
  rw [lowercase_of_isDigit h]
  refine ⟨?_, ?_, ?_⟩ <;> rintro rfl <;> cases h

/-- The announcement of a base is found in front of what can be read in it. -/
theorem splitBase_append {lead : Bytes} {base : Nat} (hl : (lead, base) ∈ leads) {b : UInt8}
    (hb : IsReadable base true b) (s : Bytes) : splitBase (lead ++ b :: s) = (base, b :: s) := by
  simp only [leads, List.mem_cons, Prod.mk.injEq, List.not_mem_nil, or_false] at hl
  rcases hl with ⟨rfl, rfl⟩ | ⟨rfl, rfl⟩ | ⟨rfl, rfl⟩ | ⟨rfl, rfl⟩ | ⟨rfl, rfl⟩ | ⟨rfl, rfl⟩ | ⟨rfl, rfl⟩
  iterate 6 rfl
  -- An octal digit or an underscore is no mark of another base.
  apply splitBase_zero
  rcases hb with ⟨d, hd, hlt⟩ | ⟨-, rfl⟩
  · exact lowercase_ne_of_isDigit (isDigitOf_ten_iff.1 ⟨d, hd, by omega⟩)
  · decide

theorem mem_leads_of_lowercase {mark b : UInt8} {base : Nat} (hm : lowercase mark = b)
    (hsmall : ([48, b], base) ∈ leads) (hcapital : ([48, b - 32], base) ∈ leads) : ([48, mark], base) ∈ leads := by
  rcases eq_of_lowercase_eq hm with rfl | rfl
  · exact hsmall
  · exact hcapital

/-- What begins with a zero announces a base, if only by that zero. -/
theorem exists_lead {s : Bytes} (h : s.head? = some 48) : ∃ lead base digits, (lead, base) ∈ leads ∧
    splitBase s = (base, digits) ∧ s = lead ++ digits ∧ (digits = [] → s = [48]) := by
  obtain ⟨t, rfl⟩ := List.head?_eq_some_iff.1 h
  match t with
  | [] => exact ⟨[48], 8, [], by decide, rfl, rfl, fun _ => rfl⟩
  | [mark] => exact ⟨[48], 8, [mark], by decide, rfl, rfl, by simp⟩
  | mark :: digit :: rest =>
    simp only [splitBase]
    split
    · next hm =>
      exact ⟨[48, mark], 2, digit :: rest, mem_leads_of_lowercase hm (by decide) (by decide), rfl, rfl, by simp⟩
    · next hm =>
      exact ⟨[48, mark], 8, digit :: rest, mem_leads_of_lowercase hm (by decide) (by decide), rfl, rfl, by simp⟩
    · next hm =>
      exact ⟨[48, mark], 16, digit :: rest, mem_leads_of_lowercase hm (by decide) (by decide), rfl, rfl, by simp⟩
    · exact ⟨[48], 8, mark :: digit :: rest, by decide, rfl, rfl, by simp⟩

theorem base_splitBase_pos (s : Bytes) : 0 < (splitBase s).1 := by
  by_cases h : s.head? = some 48
  · obtain ⟨lead, base, digits, hl, hs, -⟩ := exists_lead h
    rw [hs]
    exact (base_of_mem_leads hl).1
  · rw [splitBase_of_head?_ne h]
    exact Nat.zero_lt_succ 9

/-- The grammar of literals, through the base that a text announces. -/
theorem literal_iff {s : Bytes} {n : Nat} : Literal s n ↔ s ≠ [] ∧
    (∀ b ∈ (splitBase s).2, IsReadable (splitBase s).1 true b) ∧
    isGrouped ((splitBase s).1 != 10) (splitBase s).2 = true ∧ n = value (splitBase s).1 (splitBase s).2 := by
  constructor
  · intro h
    cases h with
    | zero => exact ⟨by decide, fun b hb => absurd hb List.not_mem_nil, rfl, rfl⟩
    | decimal hs hz =>
      rw [splitBase_of_head?_ne hz]
      exact ⟨hs.ne_nil, hs.isReadable, (isGrouped_iff hs.isReadable).1.2 (.inr hs), rfl⟩
    | @based lead base s hl hs =>
      obtain ⟨b, t, rfl⟩ := List.exists_cons_of_ne_nil hs.ne_nil
      rw [splitBase_append hl (hs.isReadable b List.mem_cons_self)]
      have hbase : (base != 10) = true := by simpa using (base_of_mem_leads hl).2
      refine ⟨by simp, hs.isReadable, ?_, rfl⟩
      rw [hbase]
      exact (isGrouped_iff hs.isReadable).2.2 (.inr hs)
  · rintro ⟨hne, hread, hgroup, rfl⟩
    by_cases hz : s.head? = some 48
    · obtain ⟨lead, base, digits, hl, hsplit, hs, hnil⟩ := exists_lead hz
      have hbase : (base != 10) = true := by simpa using (base_of_mem_leads hl).2
      rw [hsplit] at hread hgroup ⊢
      rw [hbase, (isGrouped_iff hread).2] at hgroup
      rcases hgroup with rfl | hgroup
      · rw [hnil rfl]
        exact .zero
      · rw [hs]
        exact .based hl hgroup
    · rw [splitBase_of_head?_ne hz] at hread hgroup ⊢
      rcases (isGrouped_iff hread).1.1 hgroup with hempty | hgroup
      · exact absurd hempty hne
      · exact .decimal hgroup hz

/-! ## Readings -/

/-- Digits in front of a text are too much for 64 bits, and the number they make. -/
def RunsOver (base : Nat) (underscores : Bool) (s : Bytes) (n : Nat) : Prop :=
  ∃ front back, s = front ++ back ∧ (∀ b ∈ front, IsReadable base underscores b) ∧ n = value base front ∧
    magnitudeLimit ≤ n

theorem exists_runsOver_iff {base : Nat} {underscores : Bool} {s : Bytes} :
    (∃ n, RunsOver base underscores s n) ↔ RunsOverFrom base underscores 0 s := by
  constructor
  · rintro ⟨n, front, back, rfl, hread, rfl, h⟩
    exact ⟨front, back, rfl, hread, value_eq_valueFrom base front ▸ h⟩
  · rintro ⟨front, back, rfl, hread, h⟩
    exact ⟨_, front, back, rfl, hread, rfl, (value_eq_valueFrom base front).symm ▸ h⟩

theorem magnitudeLimit_pos : 0 < magnitudeLimit := by decide

theorem literalMagnitude_eq_ok_iff {s : Bytes} {n : Nat} :
    literalMagnitude s = .ok n ↔ Literal s n ∧ n < magnitudeLimit := by
  have hsteps : literalMagnitude s = .ok n ↔ s ≠ [] ∧ accumulate (splitBase s).1 true 0 (splitBase s).2 = .ok n ∧
      isGrouped ((splitBase s).1 != 10) (splitBase s).2 = true := by
    cases s with
    | nil => simp [literalMagnitude]
    | cons b s =>
      simp only [literalMagnitude, List.isEmpty_cons, Bool.false_eq_true, if_false]
      cases accumulate (splitBase (b :: s)).1 true 0 (splitBase (b :: s)).2 with
      | error e => simp
      | ok m => cases isGrouped ((splitBase (b :: s)).1 != 10) (splitBase (b :: s)).2 <;> simp
  rw [hsteps, accumulate_eq_ok_iff (base_splitBase_pos s) magnitudeLimit_pos, literal_iff, value_eq_valueFrom]
  constructor
  · rintro ⟨hne, ⟨hread, hn, hlt⟩, hgroup⟩
    exact ⟨⟨hne, hread, hgroup, hn⟩, hlt⟩
  · rintro ⟨⟨hne, hread, hgroup, hn⟩, hlt⟩
    exact ⟨hne, ⟨hread, hn, hlt⟩, hgroup⟩

theorem literalMagnitude_eq_outOfRange_iff {s : Bytes} :
    literalMagnitude s = .error .outOfRange ↔ ∃ n, RunsOver (splitBase s).1 true (splitBase s).2 n := by
  rw [exists_runsOver_iff, ← accumulate_eq_outOfRange_iff magnitudeLimit_pos]
  cases s with
  | nil => simp [literalMagnitude, splitBase, accumulate]
  | cons b s =>
    simp only [literalMagnitude, List.isEmpty_cons, Bool.false_eq_true, if_false]
    cases accumulate (splitBase (b :: s)).1 true 0 (splitBase (b :: s)).2 with
    | error e => rfl
    | ok m => cases isGrouped ((splitBase (b :: s)).1 != 10) (splitBase (b :: s)).2 <;> simp

theorem decimalMagnitude_eq_ok_iff {s : Bytes} {n : Nat} :
    decimalMagnitude s = .ok n ↔ Padded s n ∧ n < magnitudeLimit := by
  have hsteps : decimalMagnitude s = .ok n ↔ s ≠ [] ∧ accumulate 10 false 0 s = .ok n := by
    cases s <;> simp [decimalMagnitude]
  rw [hsteps, accumulate_eq_ok_iff (Nat.zero_lt_succ 9) magnitudeLimit_pos, Padded, value_eq_valueFrom]
  simp only [isReadable_ten_iff, and_assoc]

theorem decimalMagnitude_eq_outOfRange_iff {s : Bytes} :
    decimalMagnitude s = .error .outOfRange ↔ ∃ n, RunsOver 10 false s n := by
  rw [exists_runsOver_iff, ← accumulate_eq_outOfRange_iff magnitudeLimit_pos]
  cases s <;> simp [decimalMagnitude, accumulate]

/-! ## Signs -/

/-- A magnitude with the sign in front of it. -/
def withSign (negative : Bool) (n : Nat) : Int := if negative then -n else n

theorem signed_eq_ok_iff {negative : Bool} {n : Nat} {v : Int} :
    signed negative n = .ok v ↔ v = withSign negative n ∧ InRange v := by
  have hlimit : (signedLimit : Int) = 2 ^ 63 := rfl
  cases negative with
  | false =>
    simp only [signed, withSign, InRange, Bool.false_eq_true, if_false]
    split
    · simp only [Except.ok.injEq, Int.ofNat_eq_natCast]
      omega
    · simp only [reduceCtorEq, false_iff]
      omega
  | true =>
    simp only [signed, withSign, InRange, if_true]
    split
    · simp only [Except.ok.injEq, Int.ofNat_eq_natCast]
      omega
    · simp only [reduceCtorEq, false_iff]
      omega

/-- A class of texts none of which begins with a sign. -/
def IsUnsigned (P : Bytes → Nat → Prop) : Prop := ∀ s n, P s n → ∃ b t, s = b :: t ∧ b ≠ 43 ∧ b ≠ 45

theorem signed_iff {P : Bytes → Nat → Prop} (hP : IsUnsigned P) {s : Bytes} {v : Int} :
    Signed P s v ↔ ∃ n, P (splitSign s).2 n ∧ v = withSign (splitSign s).1 n := by
  constructor
  · intro h
    cases h with
    | @bare _ n h =>
      obtain ⟨b, t, rfl, hplus, hminus⟩ := hP _ _ h
      have hsplit : splitSign (b :: t) = (false, b :: t) := by
        rw [splitSign]
        · exact fun _ hc => hminus (List.cons.inj hc).1
        · exact fun _ hc => hplus (List.cons.inj hc).1
      rw [hsplit]
      exact ⟨n, h, rfl⟩
    | @plus t n h => exact ⟨n, h, rfl⟩
    | @minus t n h => exact ⟨n, h, rfl⟩
  · rintro ⟨n, h, rfl⟩
    unfold splitSign at h ⊢
    split at h
    · exact .minus h
    · exact .plus h
    · exact .bare h

theorem ne_sign_of_isReadable {base : Nat} {underscores : Bool} {b : UInt8} (h : IsReadable base underscores b) :
    b ≠ 43 ∧ b ≠ 45 := by
  constructor <;> rintro rfl <;> rcases h with ⟨d, hd, -⟩ | ⟨-, hb⟩
  · cases hd
  · cases hb
  · cases hd
  · cases hb

theorem lead_eq_cons {lead : Bytes} {base : Nat} (h : (lead, base) ∈ leads) : ∃ t, lead = 48 :: t := by
  simp only [leads, List.mem_cons, Prod.mk.injEq, List.not_mem_nil, or_false] at h
  rcases h with ⟨rfl, -⟩ | ⟨rfl, -⟩ | ⟨rfl, -⟩ | ⟨rfl, -⟩ | ⟨rfl, -⟩ | ⟨rfl, -⟩ | ⟨rfl, -⟩ <;> exact ⟨_, rfl⟩

theorem isUnsigned_literal : IsUnsigned Literal := by
  intro s n h
  cases h with
  | zero => exact ⟨48, [], rfl, by decide⟩
  | decimal hs hz =>
    obtain ⟨b, t, rfl⟩ := List.exists_cons_of_ne_nil hs.ne_nil
    exact ⟨b, t, rfl, ne_sign_of_isReadable (hs.isReadable b List.mem_cons_self)⟩
  | @based lead base s hl hs =>
    obtain ⟨t, rfl⟩ := lead_eq_cons hl
    exact ⟨48, t ++ s, rfl, by decide⟩

theorem isUnsigned_padded : IsUnsigned Padded := by
  rintro s n ⟨hne, hd, -⟩
  obtain ⟨b, t, rfl⟩ := List.exists_cons_of_ne_nil hne
  exact ⟨b, t, rfl, ne_sign_of_isReadable (isReadable_ten_iff.2 (hd b List.mem_cons_self))⟩

theorem bind_signed_eq_ok_iff {x : Except Failure Nat} {negative : Bool} {v : Int} :
    x.bind (signed negative) = .ok v ↔ ∃ n, x = .ok n ∧ v = withSign negative n ∧ InRange v := by
  cases x with
  | error e => simp [Except.bind]
  | ok n => simp [Except.bind, signed_eq_ok_iff]

/-- Magnitudes in range are below the limit of magnitudes. -/
theorem lt_magnitudeLimit_of_inRange {negative : Bool} {n : Nat} (h : InRange (withSign negative n)) :
    n < magnitudeLimit := by
  have hlimit : magnitudeLimit = 2 ^ 64 := rfl
  cases negative <;> simp only [InRange, withSign, Bool.false_eq_true, if_false, if_true] at h <;> omega

/-- If the magnitudes of a class are read, then so are its texts behind a sign. -/
theorem bind_signed_eq_ok_iff_of_magnitude {P : Bytes → Nat → Prop} (hP : IsUnsigned P)
    {magnitude : Bytes → Except Failure Nat} (hm : ∀ t n, magnitude t = .ok n ↔ P t n ∧ n < magnitudeLimit) {s : Bytes}
    {v : Int} : (magnitude (splitSign s).2).bind (signed (splitSign s).1) = .ok v ↔ Signed P s v ∧ InRange v := by
  rw [bind_signed_eq_ok_iff, signed_iff hP]
  simp only [hm]
  constructor
  · rintro ⟨n, ⟨hn, -⟩, rfl, hv⟩
    exact ⟨⟨n, hn, rfl⟩, hv⟩
  · rintro ⟨⟨n, hn, rfl⟩, hv⟩
    exact ⟨n, ⟨hn, lt_magnitudeLimit_of_inRange hv⟩, rfl, hv⟩

/-- The literals that announce their base are read as what they denote, if 64 bits hold it. -/
theorem readLiteral_eq_ok_iff {s : Bytes} {v : Int} : readLiteral s = .ok v ↔ Signed Literal s v ∧ InRange v :=
  bind_signed_eq_ok_iff_of_magnitude isUnsigned_literal fun _ _ => literalMagnitude_eq_ok_iff

/-- Decimals are read as what they denote, if 64 bits hold it. -/
theorem readDecimal_eq_ok_iff {s : Bytes} {v : Int} : readDecimal s = .ok v ↔ Signed Padded s v ∧ InRange v :=
  bind_signed_eq_ok_iff_of_magnitude isUnsigned_padded fun _ _ => decimalMagnitude_eq_ok_iff

end AsmLens.Numeral
