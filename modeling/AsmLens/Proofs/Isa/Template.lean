import AsmLens.Isa.Table
import AsmLens.Proofs.Bytes

/-!
# Templates filled in

A template is a text with places in it, `${n:text}` being the place with the number `n` and a text that may be
replaced. A client that inserts a template and changes nothing leaves the text of every place, with dollar signs freed
of the backslashes before them (`expand`).

Reading a template takes places off its head (`pieces_append_place`) and leaves alone whatever has no dollar sign
(`pieces_append`). So the template of an instruction expands to the mnemonic and one sample operand of each kind
(`expand_snippet`), and its places are numbered from 1 on (`numbers_snippet`).
-/

namespace AsmLens

namespace Template

/-! ## Reading -/

/-- A stretch of a template: an octet that stays, or a place with its number and its text. -/
inductive Piece
  | octet (b : UInt8)
  | place (number text : Bytes)
deriving DecidableEq

namespace Piece

/-- What is left of a stretch when a template is inserted. -/
def text : Piece → Bytes
  | octet b => [b]
  | place _ text => text

def number? : Piece → Option Bytes
  | octet _ => none
  | place number _ => some number

end Piece

/-- The number and the text of the place at the head of a template, and what follows it. -/
def place? : Bytes → Option (Bytes × Bytes × Bytes)
  | 36 :: 123 :: s =>
    if (s.takeWhile isDigit).isEmpty then none
    else
      match s.dropWhile isDigit with
      | 58 :: s' => (Bytes.after? 125 s').map fun rest => (s.takeWhile isDigit, Bytes.before 125 s', rest)
      | _ => none
  | _ => none

/-- The pieces of a template whose first `k` octets were read already. -/
def piecesFrom : Nat → Bytes → List Piece
  | _, [] => []
  | k + 1, _ :: rest => piecesFrom k rest
  | 0, b :: rest =>
    match place? (b :: rest) with
    | some (number, text, after) => .place number text :: piecesFrom (rest.length - after.length) rest
    | none => .octet b :: piecesFrom 0 rest

/-- The pieces of a template. -/
def pieces (s : Bytes) : List Piece := piecesFrom 0 s

/-- The text with every backslash before a dollar sign dropped. -/
def freeDollars : Bytes → Bytes
  | 92 :: 36 :: rest => 36 :: freeDollars rest
  | b :: rest => b :: freeDollars rest
  | [] => []

/-- What a template becomes when its places are left as they are. -/
def expand (s : Bytes) : Bytes := freeDollars ((pieces s).flatMap Piece.text)

/-- The numbers of the places of a template, in order of place. -/
def numbers (s : Bytes) : List Bytes := (pieces s).filterMap Piece.number?

/-! ## Places and what stands between them -/

theorem piecesFrom_eq_drop (k : Nat) (s : Bytes) : piecesFrom k s = pieces (s.drop k) := by
  induction s generalizing k with
  | nil => cases k <;> rfl
  | cons b s ih =>
    cases k with
    | zero => rfl
    | succ k => exact ih k

theorem pieces_cons_of_ne {b : UInt8} (hb : b ≠ 36) (s : Bytes) : pieces (b :: s) = .octet b :: pieces s := by
  have hnone : place? (b :: s) = none := by simp [place?, hb]
  rw [pieces, piecesFrom, hnone]
  rfl

theorem pieces_append {x : Bytes} (hx : 36 ∉ x) (y : Bytes) : pieces (x ++ y) = x.map .octet ++ pieces y := by
  induction x with
  | nil => rfl
  | cons b x ih =>
    have hb : b ≠ 36 := fun h => hx (by simp [h])
    rw [List.cons_append, pieces_cons_of_ne hb, ih fun h => hx (List.mem_cons_of_mem _ h)]
    rfl

theorem pieces_append_place {number text : Bytes} (hne : number ≠ []) (hn : ∀ b ∈ number, isDigit b = true)
    (ht : 125 ∉ text) (rest : Bytes) :
    pieces (36 :: 123 :: (number ++ 58 :: (text ++ 125 :: rest))) = .place number text :: pieces rest := by
  have hcolon : ∀ b ∈ (58 :: (text ++ 125 :: rest) : Bytes).head?, isDigit b = false := by
    rintro _ ⟨⟩
    rfl
  have htext : ∀ b ∈ text, (b != 125) = true := fun b hb => by simpa using fun h : b = 125 => ht (h ▸ hb)
  have hclose : ∀ b ∈ (125 :: rest : Bytes).head?, (b != 125) = false := by
    rintro _ ⟨⟩
    rfl
  have hplace : place? (36 :: 123 :: (number ++ 58 :: (text ++ 125 :: rest))) = some (number, text, rest) := by
    simp [place?, takeWhile_append_stop hn hcolon, dropWhile_append_stop hn hcolon, Bytes.before, Bytes.after?,
      takeWhile_append_stop htext hclose, dropWhile_append_stop htext hclose, hne]
  have hread : (123 :: (number ++ 58 :: (text ++ 125 :: rest)) : Bytes) =
      123 :: (number ++ 58 :: (text ++ [125])) ++ rest := by simp
  rw [pieces, piecesFrom, hplace]
  simp only [piecesFrom_eq_drop]
  rw [hread, List.length_append, Nat.add_sub_cancel, List.drop_left]

theorem freeDollars_append {x : Bytes} (hx : 92 ∉ x) (y : Bytes) : freeDollars (x ++ y) = x ++ freeDollars y := by
  induction x with
  | nil => rfl
  | cons b x ih =>
    have hb : b ≠ 92 := fun h => hx (by simp [h])
    have hcons (t : Bytes) : freeDollars (b :: t) = b :: freeDollars t := by simp [freeDollars, hb]
    rw [List.cons_append, hcons, ih fun h => hx (List.mem_cons_of_mem _ h), List.cons_append]

@[simp]
theorem expand_nil : expand [] = [] := rfl

@[simp]
theorem numbers_nil : numbers [] = [] := rfl

theorem expand_append {x : Bytes} (hd : 36 ∉ x) (hb : 92 ∉ x) (y : Bytes) : expand (x ++ y) = x ++ expand y := by
  have htext : (x.map Piece.octet).flatMap Piece.text = x := by
    rw [List.flatMap_map]
    exact List.flatMap_singleton' x
  rw [expand, pieces_append hd, List.flatMap_append, htext, freeDollars_append hb]
  rfl

theorem numbers_append {x : Bytes} (hd : 36 ∉ x) (y : Bytes) : numbers (x ++ y) = numbers y := by
  have hnone : (x.map Piece.octet).filterMap Piece.number? = [] := by
    rw [List.filterMap_map]
    exact List.filterMap_eq_nil_iff.2 fun _ _ => rfl
  rw [numbers, pieces_append hd, List.filterMap_append, hnone, List.nil_append]
  rfl

end Template

/-! ## Templates of instructions -/

namespace Kind

/-- The sample operand of a kind, as it stands in a program. -/
def filled : Kind → Bytes
  | register => utf8 "$t0"
  | number => utf8 "0"
  | label => utf8 "label"
  | based => utf8 "0($t0)"

theorem freeDollars_sample_append (kind : Kind) (s : Bytes) :
    Template.freeDollars (kind.sample ++ s) = kind.filled ++ Template.freeDollars s := by
  cases kind <;> rfl

end Kind

namespace Catalog

open Template (expand numbers)

theorem pieces_place_append (i : Nat) (kind : Kind) (s : Bytes) :
    Template.pieces (place i kind ++ s) = .place (Bytes.decimal i) kind.sample :: Template.pieces s := by
  have htext : 125 ∉ kind.sample := by cases kind <;> decide
  have hplace : place i kind ++ s = 36 :: 123 :: (Bytes.decimal i ++ 58 :: (kind.sample ++ 125 :: s)) := by
    show [36, 123] ++ Bytes.decimal i ++ [58] ++ kind.sample ++ [125] ++ s = _
    simp
  rw [hplace, Template.pieces_append_place (Bytes.decimal_ne_nil i) (fun _ => Bytes.isDigit_of_mem_decimal) htext]

theorem expand_place_append (i : Nat) (kind : Kind) (s : Bytes) :
    expand (place i kind ++ s) = kind.filled ++ expand s := by
  rw [expand, pieces_place_append, List.flatMap_cons]
  exact kind.freeDollars_sample_append _

theorem numbers_place_append (i : Nat) (kind : Kind) (s : Bytes) :
    numbers (place i kind ++ s) = Bytes.decimal i :: numbers s := by
  rw [numbers, pieces_place_append]
  rfl

/-- The places of a template, one for each kind, counted from `k` on. -/
def places (k : Nat) (kinds : List Kind) : Bytes :=
  Bytes.join [44, 32] ((kinds.zipIdx k).map fun (kind, i) => place (i + 1) kind)

theorem places_singleton (k : Nat) (kind : Kind) : places k [kind] = place (k + 1) kind ++ [] := by
  simp [places, Bytes.join]

theorem places_cons_cons (k : Nat) (kind kind' : Kind) (kinds : List Kind) :
    places k (kind :: kind' :: kinds) = place (k + 1) kind ++ ([44, 32] ++ places (k + 1) (kind' :: kinds)) := by
  simp only [places, List.zipIdx_cons, List.map_cons, Bytes.join_cons_cons, List.append_assoc]

theorem expand_places : ∀ (kinds : List Kind) (k : Nat),
    expand (places k kinds) = Bytes.join [44, 32] (kinds.map Kind.filled)
  | [], _ => rfl
  | [kind], k => by
    rw [places_singleton, expand_place_append]
    simp [Bytes.join]
  | kind :: kind' :: kinds, k => by
    rw [places_cons_cons, expand_place_append, Template.expand_append (by decide) (by decide),
      expand_places (kind' :: kinds) (k + 1)]
    simp only [List.map_cons, Bytes.join_cons_cons, List.append_assoc]

theorem numbers_places : ∀ (kinds : List Kind) (k : Nat),
    numbers (places k kinds) = (List.range' (k + 1) kinds.length).map Bytes.decimal
  | [], _ => rfl
  | [kind], k => by
    rw [places_singleton, numbers_place_append]
    rfl
  | kind :: kind' :: kinds, k => by
    rw [places_cons_cons, numbers_place_append, Template.numbers_append (by decide),
      numbers_places (kind' :: kinds) (k + 1)]
    rfl

/-- An instruction with a sample operand of each kind. -/
def filled (mnemonic : Bytes) : List Kind → Bytes
  | [] => mnemonic
  | kinds => mnemonic ++ 32 :: Bytes.join [44, 32] (kinds.map Kind.filled)

theorem expand_snippet {mnemonic : Bytes} (hd : 36 ∉ mnemonic) (hb : 92 ∉ mnemonic) (kinds : List Kind) :
    expand (snippet mnemonic kinds) = filled mnemonic kinds := by
  cases kinds with
  | nil =>
    have := Template.expand_append hd hb []
    simpa [snippet, filled] using this
  | cons kind kinds =>
    show expand (mnemonic ++ [32] ++ places 0 (kind :: kinds)) = _
    rw [List.append_assoc, Template.expand_append hd hb, Template.expand_append (by decide) (by decide), expand_places]
    rfl

/-- The places of a template are numbered from 1 on, in order. -/
theorem numbers_snippet {mnemonic : Bytes} (hd : 36 ∉ mnemonic) (kinds : List Kind) :
    numbers (snippet mnemonic kinds) = (List.range' 1 kinds.length).map Bytes.decimal := by
  cases kinds with
  | nil =>
    have := Template.numbers_append hd []
    simpa [snippet] using this
  | cons kind kinds =>
    show numbers (mnemonic ++ [32] ++ places 0 (kind :: kinds)) = _
    rw [List.append_assoc, Template.numbers_append hd, Template.numbers_append (by decide), numbers_places]

end Catalog

end AsmLens
