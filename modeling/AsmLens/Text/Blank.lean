import AsmLens.Bytes

/-!
# Blanks

The white-space characters of Unicode: U+0009 to U+000D, U+0020, U+0085, U+00A0, U+1680, U+2000 to U+200A, U+2028,
U+2029, U+202F, U+205F and U+3000, recognised by their UTF-8 forms. An octet that leads such a form never continues
another character, so a form that stands in a text is always read as that character, also where the text around it is
not UTF-8.

`marks` tells of every octet whether it belongs to a blank. `trim` and `fields` are what is left between the blanks.

* `map_fst_marks`: marking keeps the text.
-/

namespace AsmLens.Blank

/-- Blanks of one octet. -/
def isBlank1 (a : UInt8) : Bool := (9 ≤ a && a ≤ 13) || a == 32

/-- Blanks of two octets: U+0085 and U+00A0. -/
def isBlank2 (a b : UInt8) : Bool := a == 0xC2 && (b == 0x85 || b == 0xA0)

/-- Blanks of three octets. -/
def isBlank3 (a b c : UInt8) : Bool :=
  (a == 0xE1 && b == 0x9A && c == 0x80) ||
  (a == 0xE2 && b == 0x80 && ((0x80 ≤ c && c ≤ 0x8A) || c == 0xA8 || c == 0xA9 || c == 0xAF)) ||
  (a == 0xE2 && b == 0x81 && c == 0x9F) ||
  (a == 0xE3 && b == 0x80 && c == 0x80)

/-- How many octets the blank at the head of a text has; 0 if none stands there. -/
def width : Bytes → Nat
  | [] => 0
  | [a] => if isBlank1 a then 1 else 0
  | [a, b] => if isBlank1 a then 1 else if isBlank2 a b then 2 else 0
  | a :: b :: c :: _ => if isBlank1 a then 1 else if isBlank2 a b then 2 else if isBlank3 a b c then 3 else 0

/-- The octets of a text, each with whether it belongs to a blank. The first `k` finish a blank begun before. -/
def marksFrom : Nat → Bytes → List (UInt8 × Bool)
  | _, [] => []
  | k + 1, a :: rest => (a, true) :: marksFrom k rest
  | 0, a :: rest =>
    match width (a :: rest) with
    | 0 => (a, false) :: marksFrom 0 rest
    | k + 1 => (a, true) :: marksFrom k rest

/-- The octets of a text, each with whether it belongs to a blank. -/
def marks (s : Bytes) : List (UInt8 × Bool) := marksFrom 0 s

theorem map_fst_marksFrom (k : Nat) (s : Bytes) : (marksFrom k s).map (·.1) = s := by
  induction s generalizing k with
  | nil => cases k <;> rfl
  | cons a rest ih =>
    cases k with
    | succ k => simp [marksFrom, ih]
    | zero =>
      unfold marksFrom
      split <;> simp [ih]

@[simp]
theorem map_fst_marks (s : Bytes) : (marks s).map (·.1) = s := map_fst_marksFrom 0 s

/-- Nothing but blanks. -/
def isBlankText (s : Bytes) : Bool := (marks s).all (·.2)

/-- The text without the blanks at its two ends. -/
def trim (s : Bytes) : Bytes :=
  ((((marks s).dropWhile (·.2)).reverse.dropWhile (·.2)).reverse).map (·.1)

/-- The maximal runs of octets outside blanks. -/
def fields (s : Bytes) : List Bytes :=
  (((marks s).splitOnP (·.2)).filter (!·.isEmpty)).map (·.map (·.1))

end AsmLens.Blank
