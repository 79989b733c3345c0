import AsmLens.Bytes

/-!
# File paths

Paths are components divided by slashes. Cleaning a path removes empty components and `.`, and lets `..` cancel the
component before it; at the root `..` is dropped, and at the start of a relative path it stays.
-/

namespace AsmLens.Path

def slash : UInt8 := 47

def dot : Bytes := [46]

def dotDot : Bytes := [46, 46]

def isAbsolute (p : Bytes) : Bool := p.head? == some slash

/-- The components that say something. -/
def components (p : Bytes) : List Bytes := (p.splitOn slash).filter fun c => !c.isEmpty && c != dot

/-- One more component behind cleaned ones, the last of which comes first. -/
def push (rooted : Bool) (cleaned : List Bytes) (c : Bytes) : List Bytes :=
  if c != dotDot then c :: cleaned
  else
    match cleaned with
    | [] => if rooted then [] else [dotDot]
    | last :: rest => if last == dotDot then dotDot :: last :: rest else rest

/-- The components of a cleaned path. -/
def cleanComponents (p : Bytes) : List Bytes := ((components p).foldl (push (isAbsolute p)) []).reverse

/-- The shortest path that names the same file by its components alone. -/
def clean (p : Bytes) : Bytes :=
  let body := Bytes.join [slash] (cleanComponents p)
  if isAbsolute p then slash :: body else if body.isEmpty then dot else body

/-- `p` taken from the directory `dir`; an empty directory is left out. -/
def join (dir p : Bytes) : Bytes :=
  if !dir.isEmpty then clean (dir ++ slash :: p) else if !p.isEmpty then clean p else []

/-- What is left of two lists behind what they have in common at the front. -/
def dropCommon : List Bytes → List Bytes → List Bytes × List Bytes
  | x :: xs, y :: ys => if x == y then dropCommon xs ys else (x :: xs, y :: ys)
  | xs, ys => (xs, ys)

/-- The relative path with the given components. -/
def ofComponents : List Bytes → Bytes
  | [] => dot
  | cs => Bytes.join [slash] cs

/-- The way from the absolute directory `dir` to the absolute path `p`: up as far as need be, then down. -/
def way (dir p : Bytes) : Bytes :=
  let (up, down) := dropCommon (cleanComponents dir) (cleanComponents p)
  ofComponents (up.map (fun _ => dotDot) ++ down)

/-- Whether a relative path begins by going up. -/
def leadsUp (p : Bytes) : Bool := p == dotDot || (dotDot ++ [slash]).isPrefixOf p

/-- A path for a setting of the workspace `root`: relative to it if it lies inside, else as it is. -/
def relativeTo (root p : Bytes) : Bytes :=
  if isAbsolute root && isAbsolute p && !leadsUp (way root p) then way root p else p

/-- The file that a setting of the workspace `root` names. An empty setting names none. -/
def resolve (root setting : Bytes) : Bytes :=
  if setting.isEmpty then [] else if isAbsolute setting then setting else join root setting

end AsmLens.Path
