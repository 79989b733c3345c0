import AsmLens.Json.Basic
import AsmLens.Text.Utf8

/-!
# Reading JSON

A recursive-descent reader. Each call takes one unit of fuel and every two of them consume an octet, so that twice the
length of the text is fuel enough for any text. In a string, a surrogate without its partner and a stray octet become
replacement characters.
-/

namespace AsmLens.Json

/-- The text after any spaces. -/
def skipSpaces (s : Bytes) : Bytes := s.dropWhile fun b => b == 32 || b == 9 || b == 10 || b == 13

/-! ## Strings -/

/-- The value of four hexadecimal digits. -/
def hex4? (a b c d : UInt8) : Option Nat :=
  match digitValue? a, digitValue? b, digitValue? c, digitValue? d with
  | some a, some b, some c, some d =>
    if a < 16 && b < 16 && c < 16 && d < 16 then some (((a * 16 + b) * 16 + c) * 16 + d) else none
  | _, _, _, _ => none

def isHighSurrogate (n : Nat) : Bool := 0xD800 ≤ n && n < 0xDC00

def isLowSurrogate (n : Nat) : Bool := 0xDC00 ≤ n && n < 0xE000

/-- The character behind a short escape. -/
def shortEscape? (b : UInt8) : Option UInt8 :=
  match b with
  | 34 => some 34
  | 92 => some 92
  | 47 => some 47
  | 98 => some 8
  | 102 => some 12
  | 110 => some 10
  | 114 => some 13
  | 116 => some 9
  | _ => none

/-- The text of a string up to its closing quote, and what follows. The number `high` is a high surrogate that was read
just before and waits for its partner. -/
def string? (high : Option Nat) : Bytes → Option (Bytes × Bytes)
  | 92 :: 117 :: a :: b :: c :: d :: rest =>
    match hex4? a b c d with
    | none => none
    | some n =>
      match high with
      | some h =>
        if isLowSurrogate n then
          (string? none rest).map fun (text, after) =>
            (Utf8.encode (Char.ofNat (0x10000 + (h - 0xD800) * 1024 + (n - 0xDC00))) ++ text, after)
        else if isHighSurrogate n then
          (string? (some n) rest).map fun (text, after) => (Utf8.encode Utf8.replacement ++ text, after)
        else
          (string? none rest).map fun (text, after) =>
            (Utf8.encode Utf8.replacement ++ Utf8.encode (Char.ofNat n) ++ text, after)
      | none =>
        if isHighSurrogate n then string? (some n) rest
        else
          let c := if isLowSurrogate n then Utf8.replacement else Char.ofNat n
          (string? none rest).map fun (text, after) => (Utf8.encode c ++ text, after)
  | 92 :: b :: rest =>
    match shortEscape? b with
    | none => none
    | some c =>
      (string? none rest).map fun (text, after) =>
        ((if high.isSome then Utf8.encode Utf8.replacement else []) ++ c :: text, after)
  | 34 :: rest => some (if high.isSome then Utf8.encode Utf8.replacement else [], rest)
  | b :: rest =>
    if b < 32 then none
    else
      (string? none rest).map fun (text, after) =>
        ((if high.isSome then Utf8.encode Utf8.replacement else []) ++ b :: text, after)
  | [] => none

/-- The text with a replacement character for each stray octet. -/
def repaired (s : Bytes) : Bytes := (Utf8.chars s).flatMap Utf8.encode

/-- A string behind its opening quote. -/
def stringValue? (s : Bytes) : Option (Bytes × Bytes) :=
  (string? none s).map fun (text, after) => (repaired text, after)

/-! ## Numbers -/

/-- The digits at the head of a text, at least one. -/
def digits? (s : Bytes) : Option (Bytes × Bytes) :=
  if (s.takeWhile isDigit).isEmpty then none else some (s.takeWhile isDigit, s.dropWhile isDigit)

/-- The whole part of a number: 0, or digits that do not begin with 0. -/
def whole? : Bytes → Option (Bytes × Bytes)
  | 48 :: rest => some ([48], rest)
  | s => digits? s

/-- The fraction of a number, if it has one. -/
def fraction? : Bytes → Option (Bytes × Bytes)
  | 46 :: rest => (digits? rest).map fun (ds, after) => (46 :: ds, after)
  | s => some ([], s)

/-- The exponent of a number, if it has one. -/
def exponent? : Bytes → Option (Bytes × Bytes)
  | e :: sign :: rest =>
    if e == 101 || e == 69 then
      if sign == 43 || sign == 45 then (digits? rest).map fun (ds, after) => (e :: sign :: ds, after)
      else (digits? (sign :: rest)).map fun (ds, after) => (e :: ds, after)
    else some ([], e :: sign :: rest)
  | s => some ([], s)

/-- A number without a sign. -/
def unsigned? (s : Bytes) : Option (Bytes × Bytes) := do
  let (whole, s) ← whole? s
  let (fraction, s) ← fraction? s
  let (exponent, s) ← exponent? s
  return (whole ++ fraction ++ exponent, s)

def number? : Bytes → Option (Bytes × Bytes)
  | 45 :: rest => (unsigned? rest).map fun (literal, after) => (45 :: literal, after)
  | s => unsigned? s

/-! ## Values -/

mutual

/-- The value at the head of a text, and what follows it. -/
def value? : Nat → Bytes → Option (Json × Bytes)
  | 0, _ => none
  | fuel + 1, s =>
    match skipSpaces s with
    | 110 :: 117 :: 108 :: 108 :: rest => some (null, rest)
    | 116 :: 114 :: 117 :: 101 :: rest => some (bool true, rest)
    | 102 :: 97 :: 108 :: 115 :: 101 :: rest => some (bool false, rest)
    | 34 :: rest => (stringValue? rest).map fun (text, after) => (string text, after)
    | 91 :: rest =>
      match skipSpaces rest with
      | 93 :: after => some (array [], after)
      | rest => (items? fuel rest).map fun (items, after) => (array items, after)
    | 123 :: rest =>
      match skipSpaces rest with
      | 125 :: after => some (object [], after)
      | rest => (members? fuel rest).map fun (members, after) => (object members, after)
    | rest => (number? rest).map fun (literal, after) => (number literal, after)

/-- The items of an array up to its closing bracket. -/
def items? : Nat → Bytes → Option (List Json × Bytes)
  | 0, _ => none
  | fuel + 1, s =>
    match value? fuel s with
    | none => none
    | some (item, rest) =>
      match skipSpaces rest with
      | 44 :: rest => (items? fuel rest).map fun (items, after) => (item :: items, after)
      | 93 :: after => some ([item], after)
      | _ => none

/-- The members of an object up to its closing brace. -/
def members? : Nat → Bytes → Option (List (Bytes × Json) × Bytes)
  | 0, _ => none
  | fuel + 1, s =>
    match skipSpaces s with
    | 34 :: rest =>
      match stringValue? rest with
      | none => none
      | some (name, rest) =>
        match skipSpaces rest with
        | 58 :: rest =>
          match value? fuel rest with
          | none => none
          | some (value, rest) =>
            match skipSpaces rest with
            | 44 :: rest => (members? fuel rest).map fun (members, after) => ((name, value) :: members, after)
            | 125 :: after => some ([(name, value)], after)
            | _ => none
        | _ => none
    | _ => none

end

/-- The value that a text spells, with nothing but spaces behind it. -/
def parse? (s : Bytes) : Option Json :=
  match value? (2 * s.length + 2) s with
  | some (value, rest) => if (skipSpaces rest).isEmpty then some value else none
  | none => none

end AsmLens.Json
