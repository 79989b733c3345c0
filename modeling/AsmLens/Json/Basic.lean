import AsmLens.Dictionary
import AsmLens.Text.Utf8

/-!
# JSON values

A number is kept as it is written, and the members of an object in the order in which they are written, repeated
names included. `sorted` puts the members of every object in order of name; of several members with one name the last
counts.

Values are written without spaces. In a string the quote and the backslash are escaped, controls are written by code
point, and a stray octet becomes a replacement character.
-/

namespace AsmLens

/-- A JSON value. -/
inductive Json
  | null
  | bool (b : Bool)
  | number (literal : Bytes)
  | string (text : Bytes)
  | array (items : List Json)
  | object (members : List (Bytes × Json))
deriving Inhabited

namespace Json

/-- The number `n`. -/
def ofNat (n : Nat) : Json := number (Bytes.decimal n)

/-- The member of an object with a given name; of several the last. -/
def member? (name : Bytes) : Json → Option Json
  | object members => members.reverse.lookup name
  | _ => none

/-- An object with the given members. -/
def ofMembers (members : List (String × Json)) : Json := object (members.map fun m => (utf8 m.1, m.2))

/-! ## Objects in order -/

mutual

/-- The value with all its objects in order. -/
def sorted : Json → Json
  | array items => array (sortedItems items)
  | object members => object (Dictionary.ofList (sortedMembers members)).entries
  | json => json

/-- The items of an array, each with all its objects in order. -/
def sortedItems : List Json → List Json
  | [] => []
  | item :: items => sorted item :: sortedItems items

/-- The members of an object where they stand, each with all its objects in order. -/
def sortedMembers : List (Bytes × Json) → List (Bytes × Json)
  | [] => []
  | (name, value) :: members => (name, sorted value) :: sortedMembers members

end

/-! ## Writing -/

/-- A character inside a string. -/
def renderChar (c : Char) : Bytes :=
  if c == '"' || c == '\\' then 92 :: Utf8.encode c
  else if c.toNat < 32 || c.toNat == 127 then utf8 "\\u" ++ Bytes.paddedHex 4 c.toNat
  else Utf8.encode c

def renderString (s : Bytes) : Bytes := 34 :: (Utf8.chars s).flatMap renderChar ++ [34]

mutual

/-- The written form of a value. -/
def render : Json → Bytes
  | null => utf8 "null"
  | bool true => utf8 "true"
  | bool false => utf8 "false"
  | number literal => literal
  | string text => renderString text
  | array items => 91 :: renderItems items
  | object members => 123 :: renderMembers members

/-- The items of an array with the bracket that closes it. -/
def renderItems : List Json → Bytes
  | [] => [93]
  | [item] => render item ++ [93]
  | item :: items => render item ++ 44 :: renderItems items

/-- The members of an object with the brace that closes it. -/
def renderMembers : List (Bytes × Json) → Bytes
  | [] => [125]
  | [(name, value)] => renderString name ++ 58 :: render value ++ [125]
  | (name, value) :: members => renderString name ++ 58 :: render value ++ 44 :: renderMembers members

end

end Json

end AsmLens
