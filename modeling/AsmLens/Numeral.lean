import AsmLens.Bytes

/-!
# Integer literals

Two readings of a literal as a 64-bit integer. Both take an optional sign.

* `readLiteral`: a leading `0x`, `0o` or `0b` (either case) gives the base, a leading `0` otherwise means octal, and
  digits may be grouped by single underscores, also right after the base.
* `readDecimal`: decimal digits only, leading zeros allowed.

Digits are accumulated below two to the power 64. The first digit that leaves this range ends the reading as out of
range, whatever follows it; the grouping and the signed range are looked at only when all digits were read.
-/

namespace AsmLens.Numeral

/-- Why a text is no 64-bit integer. -/
inductive Failure
  | malformed
  | outOfRange
deriving DecidableEq

/-- Magnitudes stay below two to the power 64. -/
def magnitudeLimit : Nat := 18446744073709551616

/-- Two to the power 63: the magnitude of the least integer, and one more than that of the greatest. -/
def signedLimit : Nat := 9223372036854775808

/-- The value of the digits of `base` behind the value `n` so far. -/
def accumulate (base : Nat) (underscores : Bool) : Nat → Bytes → Except Failure Nat
  | n, [] => .ok n
  | n, b :: rest =>
    if underscores && b == 95 then accumulate base underscores n rest
    else
      match digitValue? b with
      | none => .error .malformed
      | some d =>
        if base ≤ d then .error .malformed
        else if magnitudeLimit ≤ n * base + d then .error .outOfRange
        else accumulate base underscores (n * base + d) rest

/-- Every underscore stands before a digit and behind one; `behind` tells whether the text itself does. -/
def isGrouped : Bool → Bytes → Bool
  | _, [] => true
  | behind, b :: rest => if b == 95 then behind && !rest.isEmpty && isGrouped false rest else isGrouped true rest

/-- The base that an unsigned literal announces, and its digits. -/
def splitBase : Bytes → Nat × Bytes
  | 48 :: mark :: digit :: rest =>
    match lowercase mark with
    | 98 => (2, digit :: rest)
    | 111 => (8, digit :: rest)
    | 120 => (16, digit :: rest)
    | _ => (8, mark :: digit :: rest)
  | 48 :: rest => (8, rest)
  | s => (10, s)

/-- The magnitude of an unsigned literal that announces its base. -/
def literalMagnitude (s : Bytes) : Except Failure Nat :=
  if s.isEmpty then .error .malformed
  else
    let (base, digits) := splitBase s
    match accumulate base true 0 digits with
    | .error e => .error e
    | .ok n => if isGrouped (base != 10) digits then .ok n else .error .malformed

/-- The magnitude of an unsigned decimal. -/
def decimalMagnitude (s : Bytes) : Except Failure Nat :=
  if s.isEmpty then .error .malformed else accumulate 10 false 0 s

/-- The sign of a literal, `true` for minus, and what follows it. -/
def splitSign : Bytes → Bool × Bytes
  | 45 :: rest => (true, rest)
  | 43 :: rest => (false, rest)
  | s => (false, s)

/-- A magnitude with its sign, if 64 bits hold it. -/
def signed (negative : Bool) (n : Nat) : Except Failure Int :=
  if negative then if n ≤ signedLimit then .ok (-Int.ofNat n) else .error .outOfRange
  else if n < signedLimit then .ok (Int.ofNat n) else .error .outOfRange

/-- Reads a literal that announces its base. -/
def readLiteral (s : Bytes) : Except Failure Int :=
  let (negative, rest) := splitSign s
  (literalMagnitude rest).bind (signed negative)

/-- Reads a decimal, leading zeros allowed. -/
def readDecimal (s : Bytes) : Except Failure Int :=
  let (negative, rest) := splitSign s
  (decimalMagnitude rest).bind (signed negative)

/-- Whether a reading got as far as a number, in range or not. -/
def isRead : Except Failure Int → Bool
  | .error .malformed => false
  | _ => true

/-- Whether either reading takes the text for a number. Its magnitude does not matter. -/
def isNumber (s : Bytes) : Bool := isRead (readLiteral s) || isRead (readDecimal s)

/-- The value of a number: as a literal that announces its base, or else as a decimal. -/
def value? (s : Bytes) : Option Int :=
  match readLiteral s with
  | .ok v => some v
  | .error _ =>
    match readDecimal s with
    | .ok v => some v
    | .error _ => none

end AsmLens.Numeral
