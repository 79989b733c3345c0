import AsmLens.Json.Basic
import AsmLens.Numeral

/-!
# Reading values of a fixed shape

A reader turns a JSON value into a value of some type, starting from the value that is there already: `null` leaves it
as it is, an object changes only what it names, and an array works on what earlier arrays left in its places. Names of
members count without regard to case, members that nobody asks for are skipped, and a value of the wrong type anywhere
else fails the whole reading.
-/

namespace AsmLens.Json

/-- How a JSON value changes a value; nothing if it is of the wrong type. -/
abbrev Reader (α : Type) := α → Json → Option α

/-- The items of an array. A shorter array that is read over a longer one leaves the places behind it as they were. -/
structure Row (α : Type) where
  items : List α
  /-- What stands in the places behind the items. -/
  spare : List α

namespace Row

variable {α : Type}

def empty : Row α := ⟨[], []⟩

/-- All places that hold something. -/
def places (r : Row α) : List α := r.items ++ r.spare

end Row

namespace Reader

variable {α β : Type}

/-- A text. -/
def text : Reader Bytes := fun old json =>
  match json with
  | null => some old
  | string s => some s
  | _ => none

/-- An integer of 64 bits, written without fraction and exponent. -/
def integer : Reader Int := fun old json =>
  match json with
  | null => some old
  | number literal => (Numeral.readDecimal literal).toOption
  | _ => none

/-- Items read one by one, each starting from the old item in its place or else from `fresh`. -/
def itemsFrom (fresh : α) (read : Reader α) : List α → List Json → Option (List α)
  | _, [] => some []
  | [], json :: rest => do return (← read fresh json) :: (← itemsFrom fresh read [] rest)
  | old :: olds, json :: rest => do return (← read old json) :: (← itemsFrom fresh read olds rest)

/-- An array. Only `null` and the empty array clear the places. -/
def row (fresh : α) (read : Reader α) : Reader (Row α) := fun old json =>
  match json with
  | null => some .empty
  | array [] => some .empty
  | array items => (itemsFrom fresh read old.places items).map fun new => ⟨new, old.places.drop new.length⟩
  | _ => none

/-- A value that may be missing; `null` takes it away. -/
def optional (fresh : α) (read : Reader α) : Reader (Option α) := fun old json =>
  match json with
  | null => some none
  | json => (read (old.getD fresh) json).map some

/-- Any value, taken as it is. -/
def raw : Reader Json := fun _ json => some json

/-- A value of the right type that nobody uses. -/
def unused (fresh : β) (read : Reader β) : Reader α := fun old json => (read fresh json).map fun _ => old

/-- A part of a value. -/
def part (get : α → β) (set : α → β → α) (read : Reader β) : Reader α := fun old json =>
  (read (get old) json).map (set old)

/-- A name without regard to case. Two letters outside ASCII are cases of `s` and `k`: U+017F and U+212A. -/
def foldCase : Bytes → Bytes
  | 0xC5 :: 0xBF :: rest => 115 :: foldCase rest
  | 0xE2 :: 0x84 :: 0xAA :: rest => 107 :: foldCase rest
  | b :: rest => lowercase b :: foldCase rest
  | [] => []

/-- The members of an object in the order in which they are written, each by the reader for its name. -/
def members (readers : List (String × Reader α)) : α → List (Bytes × Json) → Option α
  | old, [] => some old
  | old, (name, json) :: rest =>
    match readers.find? fun r => foldCase (utf8 r.1) == foldCase name with
    | none => members readers old rest
    | some (_, read) =>
      match read old json with
      | none => none
      | some new => members readers new rest

/-- An object with a reader for each member that counts. -/
def object (readers : List (String × Reader α)) : Reader α := fun old json =>
  match json with
  | null => some old
  | Json.object ms => members readers old ms
  | _ => none

end Reader

end AsmLens.Json
