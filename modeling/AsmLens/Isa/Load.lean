import AsmLens.Files
import AsmLens.Isa.Description

/-!
# Loading a table

A table is loaded from the file that describes it. A file without a single declaration is no table. One table counts at
a time, the active one, which keeps the file that it came from; a load that fails makes the built-in table active.
-/

namespace AsmLens

/-- Why a table could not be loaded. -/
inductive LoadFailure
  | notFound
  | unreadable
  | empty
deriving DecidableEq, Repr

namespace LoadFailure

def text : LoadFailure → Bytes
  | notFound => utf8 "file not found"
  | unreadable => utf8 "file could not be read"
  | empty => utf8 "no instructions declared"

/-- The number of a failure. -/
def code : LoadFailure → Int
  | notFound => 0
  | unreadable => 1
  | empty => 2

def ofCode? (k : Int) : Option LoadFailure := [notFound, unreadable, empty].find? (·.code == k)

end LoadFailure

/-- A failed load, with the reason for which the file could not be read, if it could not. -/
structure LoadError where
  path : Bytes
  reason : Option Files.Reason
deriving DecidableEq

namespace LoadError

def failure (e : LoadError) : LoadFailure :=
  match e.reason with
  | some .noEntry => .notFound
  | some _ => .unreadable
  | none => .empty

/-- The file and what failed. -/
def summary (e : LoadError) : Bytes := e.path ++ utf8 ": " ++ e.failure.text

/-- The file, what failed and why. -/
def message (e : LoadError) : Bytes :=
  match e.reason with
  | some reason => e.summary ++ utf8 ": " ++ reason.message e.path
  | none => e.summary

end LoadError

namespace Isa

/-- Loads the table that a file describes. -/
def load (read : Files.Reader) (path : Bytes) : Except LoadError Isa :=
  match read path with
  | .error reason => .error ⟨path, some reason⟩
  | .ok text =>
    let isa := Description.parse text
    if isa.isEmpty then .error ⟨path, none⟩ else .ok isa

end Isa

/-! ## The active table -/

/-- The active table. -/
structure Active where
  isa : Isa
  /-- The file it was loaded from, empty for the built-in table. -/
  source : Bytes

namespace Active

/-- The built-in table. -/
def builtIn : Active := ⟨Isa.default, []⟩

def isDefault (a : Active) : Bool := a.source.isEmpty

/-- The active table after an attempt to load a file, and the failure if it failed. -/
def load (read : Files.Reader) (path : Bytes) : Active × Option LoadError :=
  match Isa.load read path with
  | .ok isa => (⟨isa, path⟩, none)
  | .error e => (builtIn, some e)

end Active

end AsmLens
