import AsmLens.Bytes

/-!
# Resource identifiers

Of an identifier `scheme://authority/path?query#fragment` only scheme and path are kept, with escapes of the path
resolved. The other parts must be well formed but are otherwise ignored. A scheme that is not followed by a slash has
no path.

The authority may be an address of sixteen octets, written as eight groups of hexadecimal digits with colons between
them. The last two groups may be written as four decimal numbers with points between them, and two colons in a row stand
for one or more groups of zeros. A percent sign and the name of a zone may follow.
-/

/-! ## Addresses of sixteen octets -/

namespace AsmLens.Ipv6

/-- How many groups an address has. -/
def groupCount : Nat := 8

/-- One to four hexadecimal digits. -/
def isGroup (s : Bytes) : Bool :=
  !s.isEmpty && s.length ≤ 4 && s.all fun b => (digitValue? b).any (· < 16)

/-- A decimal number up to 255, without zeros in front. -/
def isOctet (s : Bytes) : Bool := (List.range 256).any fun n => Bytes.decimal n == s

/-- Four decimal numbers with points between them, in place of two groups. -/
def isQuad (s : Bytes) : Bool :=
  let numbers := s.splitOn 46
  numbers.length == 4 && numbers.all isOctet

/-- How many groups a row of fields stands for. Only the last field may be four decimal numbers. -/
def span? : List Bytes → Option Nat
  | [] => some 0
  | [s] => if isGroup s then some 1 else if isQuad s then some 2 else none
  | s :: rest => if isGroup s then (span? rest).map (· + 1) else none

/-- The parts around the first two colons in a row, if there are any. -/
def cutGap? : Bytes → Option (Bytes × Bytes)
  | [] => none
  | 58 :: 58 :: rest => some ([], rest)
  | b :: rest => (cutGap? rest).map fun (front, back) => (b :: front, back)

/-- The fields between colons; none in the empty text. -/
def fields (s : Bytes) : List Bytes := if s.isEmpty then [] else s.splitOn 58

/-- An address without zone. -/
def isPlain (s : Bytes) : Bool :=
  match cutGap? s with
  | none => span? (fields s) == some groupCount
  | some (front, back) =>
    (fields front).all isGroup && (span? (fields back)).any fun n => (fields front).length + n < groupCount

/-- A well-formed address. A zone that is announced must be named. -/
def isAddress (s : Bytes) : Bool := isPlain (Bytes.before 37 s) && Bytes.after? 37 s != some []

end AsmLens.Ipv6

namespace AsmLens.Uri

/-! ## Escapes -/

/-- The octet that two hexadecimal digits spell. -/
def hexOctet? (a b : UInt8) : Option UInt8 :=
  match digitValue? a, digitValue? b with
  | some a, some b => if a < 16 && b < 16 then some (UInt8.ofNat (a * 16 + b)) else none
  | _, _ => none

/-- Resolves the escapes `%XX`. Escaped octets must satisfy `escaped`, the others `plain`. -/
def unescape? (escaped plain : UInt8 → Bool) : Bytes → Option Bytes
  | [] => some []
  | 37 :: a :: b :: rest =>
    match hexOctet? a b with
    | none => none
    | some c => if escaped c then (unescape? escaped plain rest).map (c :: ·) else none
  | b :: rest => if b != 37 && plain b then (unescape? escaped plain rest).map (b :: ·) else none

/-- Resolves escapes where any octet may stand. -/
def unescapeAny? : Bytes → Option Bytes := unescape? (fun _ => true) (fun _ => true)

/-! ## Authorities -/

/-- ASCII octets that a host may hold as they are. -/
def isHostByte (b : UInt8) : Bool := isAlnum b || (utf8 "!$&'()*+,;=:[]<>\"-_.~").contains b

def isHostPlain (b : UInt8) : Bool := 0x80 ≤ b || isHostByte b

/-- Resolves the escapes of a host: only octets outside ASCII and `%` may be escaped. -/
def unescapeHost? : Bytes → Option Bytes := unescape? (fun b => 0x80 ≤ b || b == 37) isHostPlain

/-- Resolves the escapes of the zone of an address. -/
def unescapeZone? : Bytes → Option Bytes := unescape? (fun b => b == 37 || b == 32 || isHostByte b) isHostPlain

/-- Nothing, or a colon and digits. -/
def isNumber : Bytes → Bool
  | [] => true
  | 58 :: rest => rest.all isDigit
  | _ => false

/-- The part of a text before `%25`, and the rest from there, if `%25` occurs. -/
def cutZone? : Bytes → Option (Bytes × Bytes)
  | [] => none
  | 37 :: 50 :: 53 :: rest => some ([], 37 :: 50 :: 53 :: rest)
  | b :: rest => (cutZone? rest).map fun (front, zone) => (b :: front, zone)

/-- An address in brackets with its escapes resolved. -/
def unescapeAddress? (s : Bytes) : Option Bytes :=
  match cutZone? s with
  | some (host, zone) => do return (← unescapeHost? host) ++ (← unescapeZone? zone)
  | none => unescapeHost? s

/-- A well-formed host, perhaps with the number of a service behind it. A bracket opens an address, so that it can only
be the first octet. -/
def isHostNumber (s : Bytes) : Bool :=
  match Bytes.cutLast? 91 s with
  | some (front, rest) =>
    front.isEmpty &&
      match Bytes.cutLast? 93 rest with
      | some (inside, number) => isNumber number && (unescapeAddress? inside).any Ipv6.isAddress
      | none => false
  | none =>
    match Bytes.cutLast? 58 s with
    | some (_, number) => isNumber (58 :: number) && (unescapeHost? s).isSome
    | none => (unescapeHost? s).isSome

/-- Octets that may stand in the user part. -/
def isUserByte (b : UInt8) : Bool := isAlnum b || (utf8 "-._:~!$&'()*+,;=%@").contains b

/-- Well-formed user information: a name and perhaps a password. -/
def isUser (s : Bytes) : Bool :=
  s.all isUserByte && (unescapeAny? (Bytes.before 58 s)).isSome &&
    match Bytes.after? 58 s with
    | some password => (unescapeAny? password).isSome
    | none => true

def isAuthority (s : Bytes) : Bool :=
  match Bytes.cutLast? 64 s with
  | none => isHostNumber s
  | some (user, host) => isHostNumber host && isUser user

/-! ## Schemes -/

def isSchemeByte (b : UInt8) : Bool := isAlnum b || b == 43 || b == 45 || b == 46

/-- The scheme in small letters, empty if there is none, and what follows. A colon without a scheme is an error. -/
def scheme? (s : Bytes) : Option (Bytes × Bytes) :=
  let scheme := s.takeWhile isSchemeByte
  match s.dropWhile isSchemeByte with
  | 58 :: rest =>
    match scheme with
    | [] => none
    | b :: _ => if isLower b || isUpper b then some (scheme.map lowercase, rest) else some ([], s)
  | _ => some ([], s)

/-! ## Identifiers -/

/-- Scheme and path of an identifier. -/
structure Parts where
  scheme : Bytes
  path : Bytes
deriving DecidableEq

/-- Whether a text begins with a slash. -/
def isRooted (s : Bytes) : Bool := s.head? == some 47

/-- A path with its authority, behind the scheme. -/
def pathOf? (hasScheme : Bool) : Bytes → Option Bytes
  | 47 :: 47 :: rest =>
    -- Without a scheme a third slash means that there is no authority.
    if !hasScheme && isRooted rest then unescapeAny? (47 :: 47 :: rest)
    else if isAuthority (Bytes.before 47 rest) then unescapeAny? (rest.dropWhile (· != 47))
    else none
  | s => unescapeAny? s

/-- An identifier without its fragment. -/
def partsOf? (s : Bytes) : Option Parts :=
  if s.any fun b => b < 32 || b == 127 then none
  else if s == utf8 "*" then some ⟨[], s⟩
  else
    match scheme? s with
    | none => none
    | some (scheme, rest) =>
      let rest := Bytes.before 63 rest
      if !isRooted rest && !scheme.isEmpty then some ⟨scheme, []⟩
      else if !isRooted rest && (Bytes.before 47 rest).contains 58 then none
      else (pathOf? (!scheme.isEmpty) rest).map fun path => ⟨scheme, path⟩

/-- Reads an identifier. -/
def parse? (s : Bytes) : Option Parts :=
  match partsOf? (Bytes.before 35 s) with
  | none => none
  | some parts =>
    match unescapeAny? ((Bytes.after? 35 s).getD []) with
    | none => none
    | some _ => some parts

/-- The path of an identifier of a file. -/
def filePath? (s : Bytes) : Option Bytes :=
  match parse? s with
  | some ⟨scheme, path⟩ => if scheme == utf8 "file" then some path else none
  | none => none

end AsmLens.Uri
