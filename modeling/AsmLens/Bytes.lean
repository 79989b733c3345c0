/-!
# Octets

Everything the library reads or writes is a finite sequence of octets: columns, offsets and lengths count octets, and a
text need not be UTF-8. The character classes below are those of ASCII; an octet outside ASCII is in none of them.
-/

namespace AsmLens

/-- A text, UTF-8 or not. -/
abbrev Bytes := List UInt8

/-- The UTF-8 form of a literal. -/
def utf8 (s : String) : Bytes := s.toUTF8.data.toList

/-! ## Classes of octets -/

/-- Tab, line feed, form feed, carriage return, space. Vertical tab is not one of them. -/
def isSpace (b : UInt8) : Bool := b == 9 || b == 10 || b == 12 || b == 13 || b == 32

def isDigit (b : UInt8) : Bool := 48 ≤ b && b ≤ 57

def isLower (b : UInt8) : Bool := 97 ≤ b && b ≤ 122

def isUpper (b : UInt8) : Bool := 65 ≤ b && b ≤ 90

def isAlnum (b : UInt8) : Bool := isDigit b || isLower b || isUpper b

/-- Letters, digits and the underscore. -/
def isWordByte (b : UInt8) : Bool := isAlnum b || b == 95

/-- Tab and space, the two kinds of filling that line ends are cleaned of. -/
def isFilling (b : UInt8) : Bool := b == 9 || b == 32

/-- The value of an octet as a digit of some base up to 36. -/
def digitValue? (b : UInt8) : Option Nat :=
  if isDigit b then some (b.toNat - 48)
  else if isLower b then some (b.toNat - 87)
  else if isUpper b then some (b.toNat - 55)
  else none

/-- Capital ASCII letters become small. -/
def lowercase (b : UInt8) : UInt8 := if isUpper b then b + 32 else b

namespace Bytes

/-! ## Cutting -/

/-- The text without the longest run of `p` at its end. -/
def trimEnd (p : UInt8 → Bool) (s : Bytes) : Bytes := (s.reverse.dropWhile p).reverse

/-- What stands before the first `b`, or the whole text. -/
def before (b : UInt8) (s : Bytes) : Bytes := s.takeWhile (· != b)

/-- What stands after the first `b`, if there is one. -/
def after? (b : UInt8) (s : Bytes) : Option Bytes :=
  match s.dropWhile (· != b) with
  | [] => none
  | _ :: rest => some rest

/-- The parts around the last `b`, if there is one. -/
def cutLast? (b : UInt8) (s : Bytes) : Option (Bytes × Bytes) :=
  (after? b s.reverse).map fun front => (front.reverse, (before b s.reverse).reverse)

/-- The texts with `sep` between neighbours. -/
def join (sep : Bytes) (parts : List Bytes) : Bytes := sep.intercalate parts

/-! ## Written numbers -/

/-- The digits of `n` in `base`, small letters after `9`. -/
def digits (base n : Nat) : Bytes := (Nat.toDigits base n).map Char.toUInt8

def decimal (n : Nat) : Bytes := digits 10 n

def signedDecimal (i : Int) : Bytes := if i < 0 then 45 :: decimal i.natAbs else decimal i.natAbs

/-- Exactly `width` hexadecimal digits, more if `n` needs them. -/
def paddedHex (width n : Nat) : Bytes :=
  let ds := digits 16 n
  List.replicate (width - ds.length) 48 ++ ds

end Bytes

end AsmLens
