import AsmLens.Proofs.Bytes
import AsmLens.Text.Utf8

/-!
# Characters and octets

Of a character outside ASCII no octet is in ASCII, and a character whose first octet is outside ASCII is outside it
itself (`outside_of_sequence?`). Hence a class of ASCII characters is told by octets, and so is the class of all other
characters: whether a character belongs to it shows in its first octet, and then the others agree (`IsTold`). A run of
characters of such a class is a run of octets (`IsTold.dropWhileFrom_eq`).
-/

namespace AsmLens.Utf8

/-! ## Characters outside ASCII -/

theorem le_of_isContinuation {b : UInt8} (h : isContinuation b = true) : 0x80 ≤ b := by
  simp only [isContinuation, Bool.and_eq_true, decide_eq_true_eq] at h
  exact h.1

/-- The second octet of a longer form, with bounds of its own behind two of the first octets. -/
theorem second_of_eq_true {a b x y least greatest : UInt8} (hxy : x ≠ y) (hleast : 0x80 ≤ least)
    (hgreatest : greatest ≤ 0xBF)
    (h : (if a == x then decide (least ≤ b) && decide (b ≤ 0xBF)
      else if a == y then decide (0x80 ≤ b) && decide (b ≤ greatest) else isContinuation b) = true) :
    (0x80 ≤ b ∧ b ≤ 0xBF) ∧ (a = x → least ≤ b) ∧ (a = y → b ≤ greatest) := by
  simp only [beq_iff_eq] at h
  split at h
  · next hx =>
    obtain ⟨hle, hle'⟩ : least ≤ b ∧ b ≤ 0xBF := by simpa using h
    exact ⟨⟨UInt8.le_trans hleast hle, hle'⟩, fun _ => hle, fun hy => absurd (hx.symm.trans hy) hxy⟩
  · next hx =>
    split at h
    · obtain ⟨hle, hle'⟩ : 0x80 ≤ b ∧ b ≤ greatest := by simpa using h
      exact ⟨⟨hle, UInt8.le_trans hle' hgreatest⟩, fun hx' => absurd hx' hx, fun _ => hle'⟩
    · next hy =>
      exact ⟨by simpa [isContinuation] using h, fun hx' => absurd hx' hx, fun hy' => absurd hy' hy⟩

/-- A code that is no surrogate is that of its character. -/
theorem toNat_ofNat {n : Nat} (h : n < 0xD800 ∨ 0xDFFF < n ∧ n < 0x110000) : (Char.ofNat n).toNat = n := by
  rw [Char.ofNat, dif_pos h]
  rfl

section Codes

variable {a b c d : UInt8}

theorem le_toNat_two (ha : 0xC2 ≤ a) (ha' : a < 0xE0) : 0x80 ≤ (Char.ofNat (a.toNat % 32 * 64 + low6 b)).toNat := by
  replace ha : 0xC2 ≤ a.toNat := UInt8.le_iff_toNat_le.1 ha
  replace ha' : a.toNat < 0xE0 := UInt8.lt_iff_toNat_lt.1 ha'
  have hb : low6 b < 64 := Nat.mod_lt _ (by omega)
  rw [toNat_ofNat] <;> omega

theorem le_toNat_three (ha : 0xE0 ≤ a) (ha' : a < 0xF0) (hb : 0x80 ≤ b ∧ b ≤ 0xBF) (hE0 : a = 0xE0 → 0xA0 ≤ b)
    (hED : a = 0xED → b ≤ 0x9F) : 0x80 ≤ (Char.ofNat (a.toNat % 16 * 4096 + low6 b * 64 + low6 c)).toNat := by
  simp only [UInt8.le_iff_toNat_le, UInt8.lt_iff_toNat_lt, ← UInt8.toNat_inj, UInt8.reduceToNat] at ha ha' hb hE0 hED
  have hc : low6 c < 64 := Nat.mod_lt _ (by omega)
  rw [toNat_ofNat] <;> simp only [low6] at hc ⊢ <;> omega

theorem le_toNat_four (ha : 0xF0 ≤ a) (ha' : a < 0xF5) (hb : 0x80 ≤ b ∧ b ≤ 0xBF) (hF0 : a = 0xF0 → 0x90 ≤ b)
    (hF4 : a = 0xF4 → b ≤ 0x8F) :
    0x80 ≤ (Char.ofNat (a.toNat % 8 * 262144 + low6 b * 4096 + low6 c * 64 + low6 d)).toNat := by
  simp only [UInt8.le_iff_toNat_le, UInt8.lt_iff_toNat_lt, ← UInt8.toNat_inj, UInt8.reduceToNat] at ha ha' hb hF0 hF4
  have hc : low6 c < 64 := Nat.mod_lt _ (by omega)
  have hd : low6 d < 64 := Nat.mod_lt _ (by omega)
  rw [toNat_ofNat] <;> simp only [low6] at hc hd ⊢ <;> omega

end Codes

/-- What follows the first octet of a character is outside ASCII, and so is the character if its first octet is. -/
theorem outside_of_sequence? {a : UInt8} {rest : Bytes} {char : Char} {k : Nat}
    (h : sequence? a rest = some (char, k)) : (∀ x ∈ rest.take k, 0x80 ≤ x) ∧ (0x80 ≤ a → 0x80 ≤ char.toNat) := by
  unfold sequence? at h
  split at h
  · next hlt =>
    obtain ⟨-, rfl⟩ := Prod.mk.inj (Option.some.inj h)
    exact ⟨by simp, fun ha => absurd hlt (UInt8.not_lt.2 ha)⟩
  · split at h
    · cases h
    · next hC2 =>
      split at h
      · next hE0 =>
        split at h
        · next b _ =>
          obtain ⟨hb, heq⟩ := Option.ite_none_right_eq_some.1 h
          obtain ⟨rfl, rfl⟩ := Prod.mk.inj (Option.some.inj heq)
          exact ⟨by simpa using le_of_isContinuation hb, fun _ => le_toNat_two (UInt8.not_lt.1 hC2) hE0⟩
        · cases h
      · next hE0 =>
        split at h
        · next hF0 =>
          split at h
          · next b c _ =>
            obtain ⟨hbc, heq⟩ := Option.ite_none_right_eq_some.1 h
            obtain ⟨rfl, rfl⟩ := Prod.mk.inj (Option.some.inj heq)
            obtain ⟨hsecond, hc⟩ := Bool.and_eq_true_iff.1 hbc
            obtain ⟨hb, hleast, hgreatest⟩ := second_of_eq_true (by decide) (by decide) (by decide) hsecond
            refine ⟨by simpa using ⟨hb.1, le_of_isContinuation hc⟩, fun _ => ?_⟩
            exact le_toNat_three (UInt8.not_lt.1 hE0) hF0 hb hleast hgreatest
          · cases h
        · next hF0 =>
          split at h
          · next hF5 =>
            split at h
            · next b c d _ =>
              obtain ⟨hbcd, heq⟩ := Option.ite_none_right_eq_some.1 h
              obtain ⟨rfl, rfl⟩ := Prod.mk.inj (Option.some.inj heq)
              obtain ⟨hbc, hd⟩ := Bool.and_eq_true_iff.1 hbcd
              obtain ⟨hsecond, hc⟩ := Bool.and_eq_true_iff.1 hbc
              obtain ⟨hb, hleast, hgreatest⟩ := second_of_eq_true (by decide) (by decide) (by decide) hsecond
              refine ⟨by simpa using ⟨hb.1, le_of_isContinuation hc, le_of_isContinuation hd⟩, fun _ => ?_⟩
              exact le_toNat_four (UInt8.not_lt.1 hF0) hF5 hb hleast hgreatest
            · cases h
          · cases h

theorem le_of_mem_take_tailLength {a x : UInt8} {rest : Bytes} (h : x ∈ rest.take (tailLength a rest)) : 0x80 ≤ x := by
  unfold tailLength at h
  cases hs : sequence? a rest with
  | none => simp [hs] at h
  | some c =>
    rw [hs] at h
    exact (outside_of_sequence? hs).1 x h

theorem le_toNat_charAt {b : UInt8} (h : 0x80 ≤ b) (rest : Bytes) : 0x80 ≤ (charAt b rest).toNat := by
  unfold charAt
  cases hs : sequence? b rest with
  | none => decide
  | some c => exact (outside_of_sequence? hs).2 h

/-! ## ASCII -/

theorem sequence?_of_lt {b : UInt8} (h : b < 0x80) (rest : Bytes) :
    sequence? b rest = some (Char.ofNat b.toNat, 0) := by
  unfold sequence?
  rw [if_pos h]

theorem toNat_charAt_of_lt {b : UInt8} (h : b < 0x80) (rest : Bytes) : (charAt b rest).toNat = b.toNat := by
  have hlt := UInt8.toNat_lt b
  rw [charAt, sequence?_of_lt h]
  exact toNat_ofNat (by omega)

theorem tailLength_of_lt {b : UInt8} (h : b < 0x80) (rest : Bytes) : tailLength b rest = 0 := by
  rw [tailLength, sequence?_of_lt h]
  rfl

/-! ## Classes told by octets -/

/-- A class of characters that shows in the first octet, and the others agree with that. -/
structure IsTold (p : Char → Bool) (q : UInt8 → Bool) : Prop where
  first : ∀ (b : UInt8) (rest : Bytes), p (charAt b rest) = q b
  others : ∀ (b : UInt8) (rest : Bytes), q b = true → ∀ x ∈ rest.take (tailLength b rest), q x = true

/-- A run of characters of a class that is told by octets is a run of octets. -/
theorem IsTold.dropWhileFrom_eq {p : Char → Bool} {q : UInt8 → Bool} (h : IsTold p q) (k : Nat) (s : Bytes) :
    dropWhileFrom p k s = (s.drop k).dropWhile q := by
  induction s generalizing k with
  | nil => cases k <;> rfl
  | cons b rest ih =>
    cases k with
    | succ k => exact ih k
    | zero =>
      rw [dropWhileFrom, h.first, List.drop_zero, List.dropWhile_cons]
      split
      · next hb =>
        -- The octets that finish the character belong to the run.
        rw [ih, ← List.dropWhile_append_of_pos (h.others b rest hb), List.take_append_drop]
      · rfl

section Ascii

variable {q : UInt8 → Bool} (hq : ∀ b, q b = true → b < 0x80)
include hq

theorem asciiClass_charAt (b : UInt8) (rest : Bytes) : asciiClass q (charAt b rest) = q b := by
  by_cases hb : b < 0x80
  · have hlt : b.toNat < 0x80 := UInt8.lt_iff_toNat_lt.1 hb
    simp [asciiClass, toNat_charAt_of_lt hb, hlt]
  · have hle : 0x80 ≤ (charAt b rest).toNat := le_toNat_charAt (UInt8.not_lt.1 hb) rest
    have hout : q b = false := Bool.eq_false_iff.2 fun h => hb (hq b h)
    simp [asciiClass, hout, Nat.not_lt.2 hle]

/-- Classes of ASCII characters are told by octets. -/
theorem isTold_asciiClass : IsTold (asciiClass q) q where
  first := asciiClass_charAt hq
  others b rest hb x hx := by
    rw [tailLength_of_lt (hq b hb)] at hx
    cases hx

/-- What is outside a class of ASCII characters is told by octets. -/
theorem isTold_not_asciiClass : IsTold (!asciiClass q ·) (!q ·) where
  first b rest := congrArg (!·) (asciiClass_charAt hq b rest)
  others b rest _ x hx := by
    have hout : q x = false := Bool.eq_false_iff.2 fun h =>
      absurd (hq x h) (UInt8.not_lt.2 (le_of_mem_take_tailLength hx))
    rw [hout]
    rfl

end Ascii

end AsmLens.Utf8
