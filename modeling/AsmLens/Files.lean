import AsmLens.Bytes

/-!
# Reading files

A file system is what it answers when a path is read. `Tree` is one that is held in memory: a path is followed
component by component from the root or from the current directory, every component but the last must lead to a
directory, and so must the last if a slash follows it.
-/

namespace AsmLens.Files

/-- Why a file could not be read. -/
inductive Reason
  | noEntry
  | notDirectory
  | isDirectory
  | invalidArgument
  | nameTooLong
  /-- A reason of the surrounding system, in its own words. -/
  | other (text : Bytes)
deriving DecidableEq

namespace Reason

def text : Reason → Bytes
  | noEntry => utf8 "no such file or directory"
  | notDirectory => utf8 "not a directory"
  | isDirectory => utf8 "is a directory"
  | invalidArgument => utf8 "invalid argument"
  | nameTooLong => utf8 "file name too long"
  | other text => text

/-- The failure in words. A directory can be opened and then not be read. -/
def message (path : Bytes) (r : Reason) : Bytes :=
  (if r = isDirectory then utf8 "read " else utf8 "open ") ++ path ++ utf8 ": " ++ r.text

end Reason

/-- What reading a path gives. -/
abbrev Reader := Bytes → Except Reason Bytes

/-! ## Files in memory -/

/-- The files and directories below the root, by their components from the root. -/
structure Tree where
  /-- The contents of each file, nothing for a directory. -/
  nodes : List (List Bytes × Option Bytes)
  current : List Bytes

namespace Tree

/-- The node at a place: `none` if there is none, `some none` for a directory. -/
def node? (t : Tree) (place : List Bytes) : Option (Option Bytes) :=
  if place.isEmpty then some none else t.nodes.lookup place

/-- Puts a node and the directories above it. -/
def insert (t : Tree) (place : List Bytes) (content : Option Bytes) : Tree :=
  let above := (List.range place.length).map fun n => (place.take n, none)
  { t with nodes := (place, content) :: above.filter (fun n => (t.node? n.1).isNone) ++ t.nodes }

/-- Longest name of a component. -/
def maxName : Nat := 255

/-- Paths must be shorter than this. -/
def maxPath : Nat := 4096

/-- Where one component leads from a place. -/
def step (t : Tree) (place : List Bytes) (name : Bytes) : Except Reason (List Bytes) :=
  match t.node? place with
  | some none =>
    if name.isEmpty || name == utf8 "." then .ok place
    else if name == utf8 ".." then .ok place.dropLast
    else if maxName < name.length then .error .nameTooLong
    else if (t.node? (place ++ [name])).isSome then .ok (place ++ [name])
    else .error .noEntry
  | _ => .error .notDirectory

/-- Where components lead from a place. -/
def walk (t : Tree) : List Bytes → List Bytes → Except Reason (List Bytes)
  | place, [] => .ok place
  | place, name :: names =>
    match t.step place name with
    | .error r => .error r
    | .ok place => walk t place names

/-- Reads a path. -/
def read (t : Tree) : Reader := fun path =>
  if path.contains 0 then .error .invalidArgument
  else if path.isEmpty then .error .noEntry
  else if maxPath ≤ path.length then .error .nameTooLong
  else
    match t.walk (if path.head? = some 47 then [] else t.current) (path.splitOn 47) with
    | .error r => .error r
    | .ok place =>
      match t.node? place with
      | some (some content) => .ok content
      | some none => .error .isDirectory
      | none => .error .noEntry

end Tree

end AsmLens.Files
