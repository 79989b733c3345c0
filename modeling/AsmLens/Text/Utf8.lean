import AsmLens.Bytes

/-!
# UTF-8

A text is read as characters where it is UTF-8 and as stray octets elsewhere: an octet that does not begin a well-formed
sequence (shortest form, no surrogate, at most U+10FFFF) stands alone.
-/

namespace AsmLens.Utf8

/-- A character or an octet outside any character. -/
inductive Piece
  | char (c : Char)
  | stray (b : UInt8)
deriving DecidableEq

/-- An octet that may follow the first of a sequence. -/
def isContinuation (b : UInt8) : Bool := 0x80 ≤ b && b ≤ 0xBF

/-- The six value bits of a continuation octet. -/
def low6 (b : UInt8) : Nat := b.toNat % 64

/-- The character that begins with `a`, and how many octets of `rest` belong to it. -/
def sequence? (a : UInt8) (rest : Bytes) : Option (Char × Nat) :=
  if a < 0x80 then some (Char.ofNat a.toNat, 0)
  else if a < 0xC2 then none
  else if a < 0xE0 then
    match rest with
    | b :: _ => if isContinuation b then some (Char.ofNat (a.toNat % 32 * 64 + low6 b), 1) else none
    | [] => none
  else if a < 0xF0 then
    match rest with
    | b :: c :: _ =>
      let first :=
        if a == 0xE0 then 0xA0 ≤ b && b ≤ 0xBF
        else if a == 0xED then 0x80 ≤ b && b ≤ 0x9F
        else isContinuation b
      if first && isContinuation c then some (Char.ofNat (a.toNat % 16 * 4096 + low6 b * 64 + low6 c), 2) else none
    | _ => none
  else if a < 0xF5 then
    match rest with
    | b :: c :: d :: _ =>
      let first :=
        if a == 0xF0 then 0x90 ≤ b && b ≤ 0xBF
        else if a == 0xF4 then 0x80 ≤ b && b ≤ 0x8F
        else isContinuation b
      if first && isContinuation c && isContinuation d then
        some (Char.ofNat (a.toNat % 8 * 262144 + low6 b * 4096 + low6 c * 64 + low6 d), 3)
      else none
    | _ => none
  else none

/-- What stands in readable output for a stray octet. -/
def replacement : Char := Char.ofNat 0xFFFD

/-- The character that begins with `b`, the replacement character if `b` is a stray octet. -/
def charAt (b : UInt8) (rest : Bytes) : Char := ((sequence? b rest).map (·.1)).getD replacement

/-- How many octets follow the first in the character that a text begins with. A stray octet is a character. -/
def tailLength (b : UInt8) (rest : Bytes) : Nat := ((sequence? b rest).map (·.2)).getD 0

/-- What is left behind the longest run of characters of a class. The first `k` octets were read already. -/
def dropWhileFrom (p : Char → Bool) : Nat → Bytes → Bytes
  | _, [] => []
  | k + 1, _ :: rest => dropWhileFrom p k rest
  | 0, b :: rest => if p (charAt b rest) then dropWhileFrom p (tailLength b rest) rest else b :: rest

/-- The class of characters that are in ASCII and whose octets are in a class. -/
def asciiClass (q : UInt8 → Bool) (c : Char) : Bool := c.toNat < 0x80 && q c.toNat.toUInt8

/-- The pieces of a text whose first `k` octets were read already. -/
def decodeFrom : Nat → Bytes → List Piece
  | _, [] => []
  | k + 1, _ :: rest => decodeFrom k rest
  | 0, a :: rest =>
    match sequence? a rest with
    | some (c, k) => .char c :: decodeFrom k rest
    | none => .stray a :: decodeFrom 0 rest

/-- The pieces of a text. -/
def decode (s : Bytes) : List Piece := decodeFrom 0 s

def isValid (s : Bytes) : Bool := (decode s).all fun
  | .char _ => true
  | .stray _ => false

def Piece.toChar : Piece → Char
  | .char c => c
  | .stray _ => replacement

/-- The characters of a text, with one replacement character for each stray octet. -/
def chars (s : Bytes) : List Char := (decode s).map Piece.toChar

/-- The UTF-8 form of a character. -/
def encode (c : Char) : Bytes := String.utf8EncodeChar c

end AsmLens.Utf8
