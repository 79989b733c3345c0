import AsmLens.Proofs.Isa.Lexeme
import AsmLens.Proofs.Text.Trim

/-!
# Written markers

A marker may be written in many ways: with a backslash before `$` and before parentheses, and with spaces, tabs and
`\s*` inside `#I ( $name )`. `Written` lists them, and `Pattern` the ways to write several markers with spaces, tabs and
commas between them.

* Reading a pattern takes markers off its head (`kindsIn_append_marker`) and skips what stands between them
  (`kindsIn_append_filling`).
* Without its escapes a written marker is a plain one (`unescape_written`), and a plain one is found at the head of
  every text that does not continue it (`marker?_append`).
* `kinds_pattern`: the markers of a pattern are read back, also with a space before it.
-/

namespace AsmLens.Marker

/-! ## Lexemes -/

theorem lexemesFrom_eq_drop (k : Nat) (s : Bytes) : lexemesFrom k s = lexemes (s.drop k) := by
  induction s generalizing k with
  | nil => cases k <;> rfl
  | cons b s ih =>
    cases k with
    | zero => rfl
    | succ k => exact ih k

/-- The kinds of the markers in a text without escapes. -/
def kindsIn (s : Bytes) : List Kind := (lexemes s).filterMap (·.kind)

@[simp]
theorem kindsIn_nil : kindsIn [] = [] := rfl

theorem kindsIn_cons (b : UInt8) (s : Bytes) :
    kindsIn (b :: s) = (next b s).1.toList ++ kindsIn (s.drop (next b s).2) := by
  rw [kindsIn, lexemes, lexemesFrom]
  simp only [lexemesFrom_eq_drop, List.filterMap_cons]
  cases (next b s).1 <;> rfl

/-- A marker at the head of a text is read, and then what follows it. -/
theorem kindsIn_append_marker {kind : Kind} {v rest : Bytes} (hne : v ≠ [])
    (h : marker? (v ++ rest) = some (kind, rest)) : kindsIn (v ++ rest) = kind :: kindsIn rest := by
  obtain ⟨b, v, rfl⟩ := List.exists_cons_of_ne_nil hne
  have hnext : next b (v ++ rest) = (some kind, v.length) := by
    rw [next, ← List.cons_append, h]
    simp
  rw [List.cons_append, kindsIn_cons, hnext]
  simp

theorem marker?_cons_of_not_isSigil {b : UInt8} (h : isSigil b = false) (s : Bytes) : marker? (b :: s) = none := by
  simp only [isSigil, Bool.or_eq_false_iff, beq_eq_false_iff_ne] at h
  obtain ⟨⟨hdollar, hhash⟩, hpercent⟩ := h
  simp [marker?, afterBased?, afterNumber?, afterRegister?, afterLabel?, hdollar, hhash, hpercent]

/-- What holds no sigil is skipped up to the next one. -/
theorem kindsIn_append_filling {x rest : Bytes} (hx : ∀ b ∈ x, isSigil b = false)
    (hr : ∀ b ∈ rest.head?, isSigil b = true) : kindsIn (x ++ rest) = kindsIn rest := by
  cases x with
  | nil => rfl
  | cons b x =>
    have hb : isSigil b = false := hx b List.mem_cons_self
    have hrun : (x ++ rest).takeWhile (!isSigil ·) = x :=
      takeWhile_append_stop (fun c hc => by simp [hx c (List.mem_cons_of_mem _ hc)]) (fun c hc => by simp [hr c hc])
    have hnext : next b (x ++ rest) = (none, x.length) := by
      simp only [next, marker?_cons_of_not_isSigil hb, hb, hrun, Bool.false_eq_true, if_false]
    rw [List.cons_append, kindsIn_cons, hnext]
    simp

/-! ## Escapes -/

/-- The pattern without its escapes. -/
def unescape (s : Bytes) : Bytes := (expandEscapes s).filter (· != 92)

theorem kinds_eq (s : Bytes) : kinds s = kindsIn (unescape (Blank.trim s)) := by
  rw [kinds, lex?_rules]
  rfl

@[simp]
theorem unescape_nil : unescape [] = [] := rfl

theorem unescape_cons {b : UInt8} (h : b ≠ 92) (s : Bytes) : unescape (b :: s) = b :: unescape s := by
  have hexpand : expandEscapes (b :: s) = b :: expandEscapes s := by simp [expandEscapes, h]
  simp [unescape, hexpand, h]

theorem unescape_append {x : Bytes} (hx : 92 ∉ x) (s : Bytes) : unescape (x ++ s) = x ++ unescape s := by
  induction x with
  | nil => rfl
  | cons b x ih =>
    have hb : b ≠ 92 := fun h => hx (by simp [h])
    rw [List.cons_append, unescape_cons hb, ih fun h => hx (List.mem_cons_of_mem _ h), List.cons_append]

theorem unescape_spaces (s : Bytes) : unescape (92 :: 115 :: 42 :: s) = unescape s := rfl

/-- A backslash before a dollar or a parenthesis is dropped. -/
theorem unescape_backslash {b : UInt8} (h : b = 36 ∨ b = 40 ∨ b = 41) (s : Bytes) :
    unescape (92 :: b :: s) = b :: unescape s := by
  rcases h with rfl | rfl | rfl
  · simp [unescape, expandEscapes]
  · rfl
  · rfl

/-! ## Written forms -/

/-- Filling inside a marker: spaces, tabs and `\s*` in any order. -/
inductive Gap : Bytes → Prop
  | nil : Gap []
  | filling {b : UInt8} {g : Bytes} (hb : isFilling b = true) (hg : Gap g) : Gap (b :: g)
  | spaces {g : Bytes} (hg : Gap g) : Gap (utf8 "\\s*" ++ g)

/-- A text as it is or with a backslash before it. -/
inductive Escaped (s : Bytes) : Bytes → Prop
  | bare : Escaped s s
  | backslash : Escaped s (92 :: s)

/-- Letters and digits, at least one. -/
def IsName (name : Bytes) : Prop := name ≠ [] ∧ ∀ b ∈ name, isAlnum b = true

/-- The ways to write a marker. -/
inductive Written : Kind → Bytes → Prop
  | register {name w : Bytes} (hn : IsName name) (hw : Escaped (36 :: name) w) : Written .register w
  | number : Written .number (utf8 "#I")
  | label : Written .label (utf8 "%O")
  | based {g₁ opening g₂ register g₃ closing : Bytes} (hg₁ : Gap g₁) (ho : Escaped (utf8 "(") opening) (hg₂ : Gap g₂)
      (hr : Written .register register) (hg₃ : Gap g₃) (hc : Escaped (utf8 ")") closing) :
    Written .based (utf8 "#I" ++ (g₁ ++ (opening ++ (g₂ ++ (register ++ (g₃ ++ closing))))))

/-- What may stand between two markers: spaces, tabs and commas, at least one. -/
def IsSeparation (s : Bytes) : Prop := s ≠ [] ∧ ∀ b ∈ s, isFilling b = true ∨ b = 44

/-- The ways to write one or more markers. -/
inductive Pattern : List Kind → Bytes → Prop
  | one {kind : Kind} {w : Bytes} (hw : Written kind w) : Pattern [kind] w
  | more {kind : Kind} {kinds : List Kind} {w separation p : Bytes} (hw : Written kind w) (hs : IsSeparation separation)
      (hp : Pattern kinds p) : Pattern (kind :: kinds) (w ++ (separation ++ p))

/-! ## Plain markers -/

/-- A marker without escapes. -/
inductive Plain : Kind → Bytes → Prop
  | register {name : Bytes} (hn : IsName name) : Plain .register (36 :: name)
  | number : Plain .number [35, 73]
  | label : Plain .label [37, 79]
  | based {x y z name : Bytes} (hx : ∀ b ∈ x, isSpace b = true) (hy : ∀ b ∈ y, isSpace b = true) (hn : IsName name)
      (hz : ∀ b ∈ z, isSpace b = true) : Plain .based (35 :: 73 :: (x ++ 40 :: (y ++ 36 :: (name ++ (z ++ [41])))))

theorem head?_plain {kind : Kind} {v : Bytes} (h : Plain kind v) : ∃ b ∈ v.head?, isSigil b = true := by
  cases h <;> exact ⟨_, rfl, by decide⟩

theorem unescape_gap {g : Bytes} (h : Gap g) :
    ∃ x, (∀ b ∈ x, isSpace b = true) ∧ ∀ s, unescape (g ++ s) = x ++ unescape s := by
  induction h with
  | nil => exact ⟨[], by simp, fun s => rfl⟩
  | @filling b g hb hg ih =>
    obtain ⟨x, hx, hs⟩ := ih
    have hbs : b ≠ 92 := by rintro rfl; cases hb
    refine ⟨b :: x, ?_, fun s => ?_⟩
    · intro c hc
      rcases List.mem_cons.1 hc with rfl | hc
      · exact isSpace_of_isFilling hb
      · exact hx c hc
    · rw [List.cons_append, unescape_cons hbs, hs, List.cons_append]
  | @spaces g hg ih =>
    obtain ⟨x, hx, hs⟩ := ih
    exact ⟨x, hx, fun s => (unescape_spaces (g ++ s)).trans (hs s)⟩

theorem unescape_escaped {b : UInt8} (hb : b = 36 ∨ b = 40 ∨ b = 41) {s w : Bytes} (hs : 92 ∉ s)
    (hw : Escaped (b :: s) w) (t : Bytes) : unescape (w ++ t) = b :: (s ++ unescape t) := by
  have hne : b ≠ 92 := by rintro rfl; revert hb; decide
  cases hw with
  | bare => rw [List.cons_append, unescape_cons hne, unescape_append hs]
  | backslash => rw [List.cons_append, List.cons_append, unescape_backslash hb, unescape_append hs]

theorem IsName.backslash_not_mem {name : Bytes} (h : IsName name) : 92 ∉ name :=
  fun hm => absurd (h.2 92 hm) (by decide)

/-- Without its escapes a marker is plain, whatever follows it. -/
theorem unescape_written {kind : Kind} {w : Bytes} (h : Written kind w) :
    ∃ v, Plain kind v ∧ ∀ s, unescape (w ++ s) = v ++ unescape s := by
  have register {w : Bytes} (h : Written .register w) :
      ∃ name, IsName name ∧ ∀ s, unescape (w ++ s) = 36 :: (name ++ unescape s) := by
    cases h with
    | register hn hw => exact ⟨_, hn, unescape_escaped (.inl rfl) hn.backslash_not_mem hw⟩
  cases h with
  | register hn hw =>
    obtain ⟨name, hn, hs⟩ := register (.register hn hw)
    exact ⟨36 :: name, .register hn, hs⟩
  | number => exact ⟨[35, 73], .number, fun s => unescape_append (x := [35, 73]) (by decide) s⟩
  | label => exact ⟨[37, 79], .label, fun s => unescape_append (x := [37, 79]) (by decide) s⟩
  | based hg₁ ho hg₂ hr hg₃ hc =>
    obtain ⟨x, hx, hxs⟩ := unescape_gap hg₁
    obtain ⟨y, hy, hys⟩ := unescape_gap hg₂
    obtain ⟨name, hn, hns⟩ := register hr
    obtain ⟨z, hz, hzs⟩ := unescape_gap hg₃
    refine ⟨_, .based hx hy hn hz, fun s => ?_⟩
    have hmark (t : Bytes) : unescape (utf8 "#I" ++ t) = 35 :: 73 :: unescape t :=
      unescape_append (x := [35, 73]) (by decide) t
    have hopen := unescape_escaped (b := 40) (.inr (.inl rfl)) (List.not_mem_nil) ho
    have hclose := unescape_escaped (b := 41) (.inr (.inr rfl)) (List.not_mem_nil) hc
    simp only [List.append_assoc, hmark, hxs, hopen, hys, hns, hzs, hclose]
    simp

/-! ## Markers found -/

/-- What does not continue a marker: neither a letter or digit, nor a parenthesis behind spaces. -/
def Stops (rest : Bytes) : Prop :=
  (∀ b ∈ rest.head?, isAlnum b = false) ∧ ∀ b ∈ (rest.dropWhile isSpace).head?, b ≠ 40

theorem afterRegister?_append {name rest : Bytes} (hn : IsName name) (hr : ∀ b ∈ rest.head?, isAlnum b = false) :
    afterRegister? (36 :: (name ++ rest)) = some rest := by
  rw [afterRegister?, takeWhile_append_stop hn.2 hr, dropWhile_append_stop hn.2 hr]
  simp [hn.1]

theorem afterByte?_append {b : UInt8} (hb : isSpace b = false) {x : Bytes} (hx : ∀ c ∈ x, isSpace c = true)
    (rest : Bytes) : afterByte? b (x ++ b :: rest) = some rest := by
  rw [afterByte?, dropWhile_append_stop hx (by simpa using hb)]
  simp

theorem afterByte?_eq_none {b : UInt8} {s : Bytes} (h : ∀ c ∈ (s.dropWhile isSpace).head?, c ≠ b) :
    afterByte? b s = none := by
  unfold afterByte?
  split
  · next c rest hs =>
    have hc : c ≠ b := h c (by rw [hs]; rfl)
    simp [hc]
  · rfl

/-- A plain marker is found at the head of a text that does not continue it. -/
theorem marker?_append {kind : Kind} {v rest : Bytes} (h : Plain kind v) (hr : Stops rest) :
    marker? (v ++ rest) = some (kind, rest) := by
  cases h with
  | @register name hn =>
    have hbased : afterBased? (36 :: (name ++ rest)) = none := rfl
    rw [List.cons_append, marker?, hbased, afterRegister?_append hn hr.1]
  | number =>
    have hbased : afterBased? (35 :: 73 :: rest) = none := by
      show (afterByte? 40 rest).bind _ = none
      rw [afterByte?_eq_none hr.2]
      rfl
    show marker? (35 :: 73 :: rest) = _
    rw [marker?, hbased]
    rfl
  | label => rfl
  | @based x y z name hx hy hn hz =>
    have hdollar : ∀ b ∈ (36 :: (name ++ (z ++ [41] ++ rest)) : Bytes).head?, isSpace b = false := by
      intro b hb
      obtain rfl : 36 = b := by simpa using hb
      rfl
    have hclose : ∀ b ∈ (z ++ [41] ++ rest).head?, isAlnum b = false := by
      intro b hb
      cases z with
      | nil =>
        obtain rfl : 41 = b := by simpa using hb
        rfl
      | cons c z =>
        obtain rfl : c = b := by simpa using hb
        have hc := hz c List.mem_cons_self
        simp only [isSpace, Bool.or_eq_true, beq_iff_eq] at hc
        rcases hc with (((rfl | rfl) | rfl) | rfl) | rfl <;> rfl
    have hbased : afterBased? (35 :: 73 :: (x ++ 40 :: (y ++ 36 :: (name ++ (z ++ [41] ++ rest))))) = some rest := by
      show ((afterByte? 40 _).bind _) = some rest
      rw [afterByte?_append rfl hx, Option.bind_some, dropWhile_append_stop hy hdollar,
        afterRegister?_append hn hclose, Option.bind_some, List.append_assoc, List.singleton_append,
        afterByte?_append rfl hz]
    have hassoc : 35 :: 73 :: (x ++ 40 :: (y ++ 36 :: (name ++ (z ++ [41])))) ++ rest =
        35 :: 73 :: (x ++ 40 :: (y ++ 36 :: (name ++ (z ++ [41] ++ rest)))) := by simp
    rw [hassoc, marker?, hbased]

/-! ## Patterns read back -/

theorem isSeparation_byte {b : UInt8} (h : isFilling b = true ∨ b = 44) :
    isSigil b = false ∧ isAlnum b = false ∧ b ≠ 92 ∧ b ≠ 40 := by
  simp only [isFilling, Bool.or_eq_true, beq_iff_eq] at h
  rcases h with (rfl | rfl) | rfl <;> decide

/-- What follows a separation in a pattern does not continue the marker before it. -/
theorem stops_append {separation rest : Bytes} (hs : IsSeparation separation)
    (hr : ∀ b ∈ rest.head?, isSigil b = true) : Stops (separation ++ rest) := by
  obtain ⟨c, s, rfl⟩ := List.exists_cons_of_ne_nil hs.1
  refine ⟨fun b hb => ?_, fun b hb => ?_⟩
  · obtain rfl : c = b := by simpa using hb
    exact (isSeparation_byte (hs.2 c List.mem_cons_self)).2.1
  · -- Behind the spaces stands a comma or what comes next.
    rw [List.dropWhile_append] at hb
    split at hb
    · rintro rfl
      cases rest with
      | nil => cases hb
      | cons a rest =>
        have ha : isSigil a = true := hr a rfl
        have hspace : isSpace a = false := by
          simp only [isSigil, Bool.or_eq_true, beq_iff_eq] at ha
          rcases ha with (rfl | rfl) | rfl <;> rfl
        rw [List.dropWhile_cons_of_neg (by simp [hspace])] at hb
        obtain rfl : a = 40 := by simpa using hb
        cases ha
    · next hne =>
      have hmem : b ∈ (c :: s).dropWhile isSpace := by
        rw [List.head?_append_of_ne_nil _ (by simpa using hne)] at hb
        exact List.mem_of_head? hb
      exact (isSeparation_byte (hs.2 b ((List.dropWhile_suffix _).subset hmem))).2.2.2

/-- The markers of a pattern, which begins with a sigil. -/
theorem kindsIn_unescape_pattern {kinds : List Kind} {p : Bytes} (h : Pattern kinds p) :
    kindsIn (unescape p) = kinds ∧ ∃ b ∈ (unescape p).head?, isSigil b = true := by
  have hne {kind : Kind} {v : Bytes} (hv : Plain kind v) : v ≠ [] := by cases hv <;> simp
  induction h with
  | @one kind w hw =>
    obtain ⟨v, hv, hs⟩ := unescape_written hw
    have hv' : unescape w = v := by simpa using hs []
    have hstop : Stops [] := by constructor <;> simp
    rw [hv']
    refine ⟨?_, head?_plain hv⟩
    have := kindsIn_append_marker (hne hv) (marker?_append hv hstop)
    simpa using this
  | @more kind kinds w separation p hw hs hp ih =>
    obtain ⟨v, hv, hvs⟩ := unescape_written hw
    obtain ⟨hkinds, b, hb, hsigil⟩ := ih
    have hhead : ∀ c ∈ (unescape p).head?, isSigil c = true := by
      intro c hc
      obtain rfl : b = c := Option.some.inj ((Option.mem_def.1 hb).symm.trans (Option.mem_def.1 hc))
      exact hsigil
    have hfilling : ∀ c ∈ separation, isSigil c = false := fun c hc => (isSeparation_byte (hs.2 c hc)).1
    have hslash : 92 ∉ separation := fun hc => (isSeparation_byte (hs.2 92 hc)).2.2.1 rfl
    rw [hvs, unescape_append hslash]
    refine ⟨?_, ?_⟩
    · rw [kindsIn_append_marker (hne hv) (marker?_append hv (stops_append hs hhead)),
        kindsIn_append_filling hfilling hhead, hkinds]
    · obtain ⟨c, hc, hcs⟩ := head?_plain hv
      exact ⟨c, by rw [List.head?_append_of_ne_nil _ (hne hv)]; exact hc, hcs⟩

/-! ## The octets of patterns -/

/-- Neither a line feed nor a colon, so that a text stays on its line and in its part of it. -/
def IsInline (s : Bytes) : Prop := 10 ∉ s ∧ 58 ∉ s

instance : DecidablePred IsInline := fun s => inferInstanceAs (Decidable (10 ∉ s ∧ 58 ∉ s))

theorem isInline_append {x y : Bytes} (hx : IsInline x) (hy : IsInline y) : IsInline (x ++ y) := by
  simp [IsInline, hx.1, hx.2, hy.1, hy.2]

theorem IsName.isInline {name : Bytes} (h : IsName name) : IsInline name :=
  ⟨fun hm => absurd (h.2 10 hm) (by decide), fun hm => absurd (h.2 58 hm) (by decide)⟩

theorem isInline_gap {g : Bytes} (h : Gap g) : IsInline g := by
  induction h with
  | nil => exact ⟨by simp, by simp⟩
  | @filling b g hb hg ih =>
    have hb' : IsInline [b] := by constructor <;> rintro (_ | ⟨_, ⟨⟩⟩) <;> cases hb
    exact isInline_append hb' ih
  | spaces hg ih => exact isInline_append (by decide) ih

theorem isInline_escaped {s w : Bytes} (h : Escaped s w) (hs : IsInline s) : IsInline w := by
  cases h with
  | bare => exact hs
  | backslash => exact isInline_append (x := [92]) (by decide) hs

theorem isInline_written {kind : Kind} {w : Bytes} (h : Written kind w) : IsInline w := by
  have register {w : Bytes} (h : Written .register w) : IsInline w := by
    cases h with
    | register hn hw => exact isInline_escaped hw (isInline_append (x := [36]) (by decide) hn.isInline)
  cases h with
  | register hn hw => exact register (.register hn hw)
  | number => decide
  | label => decide
  | based hg₁ ho hg₂ hr hg₃ hc =>
    have hopen := isInline_escaped ho (by decide)
    have hclose := isInline_escaped hc (by decide)
    exact isInline_append (by decide) (isInline_append (isInline_gap hg₁) (isInline_append hopen
      (isInline_append (isInline_gap hg₂) (isInline_append (register hr) (isInline_append (isInline_gap hg₃) hclose)))))

theorem isInline_pattern {kinds : List Kind} {p : Bytes} (h : Pattern kinds p) : IsInline p := by
  induction h with
  | one hw => exact isInline_written hw
  | more hw hs hp ih =>
    refine isInline_append (isInline_written hw) (isInline_append ⟨fun hm => ?_, fun hm => ?_⟩ ih)
    · exact absurd (hs.2 _ hm) (by decide)
    · exact absurd (hs.2 _ hm) (by decide)

open Blank (isInk)

/-- A text that begins and ends with ink. -/
def HasInkEnds (s : Bytes) : Prop :=
  (∃ b t, s = b :: t ∧ isInk b = true) ∧ ∃ t b, s = t ++ [b] ∧ isInk b = true

theorem hasInkEnds_append {x z : Bytes} (hx : HasInkEnds x) (y : Bytes) (hz : HasInkEnds z) :
    HasInkEnds (x ++ (y ++ z)) := by
  obtain ⟨⟨b, t, rfl, hb⟩, -⟩ := hx
  obtain ⟨-, t', b', rfl, hb'⟩ := hz
  exact ⟨⟨b, _, rfl, hb⟩, ⟨b :: t ++ (y ++ t'), b', by simp, hb'⟩⟩

theorem isInk_of_isAlnum {b : UInt8} (h : isAlnum b = true) : isInk b = true := by
  simp only [isAlnum, isDigit, isLower, isUpper] at h
  rw [isInk, Bool.and_eq_true, Bool.not_eq_true']
  refine ⟨by grind, ?_⟩
  simp only [Blank.isBlank1]
  grind

theorem hasInkEnds_escaped {s w : Bytes} (h : Escaped s w) (hs : HasInkEnds s) : HasInkEnds w := by
  cases h with
  | bare => exact hs
  | backslash =>
    obtain ⟨-, t, b, rfl, hb⟩ := hs
    exact ⟨⟨92, _, rfl, rfl⟩, ⟨92 :: t, b, rfl, hb⟩⟩

theorem hasInkEnds_written {kind : Kind} {w : Bytes} (h : Written kind w) : HasInkEnds w := by
  cases h with
  | @register name w hn hw =>
    refine hasInkEnds_escaped hw ⟨⟨36, name, rfl, rfl⟩, ?_⟩
    obtain ⟨t, b, rfl⟩ := (List.eq_nil_or_concat name).resolve_left hn.1
    exact ⟨36 :: t, b, by simp, isInk_of_isAlnum (hn.2 b (by simp))⟩
  | number => exact ⟨⟨35, [73], rfl, rfl⟩, ⟨[35], 73, rfl, rfl⟩⟩
  | label => exact ⟨⟨37, [79], rfl, rfl⟩, ⟨[37], 79, rfl, rfl⟩⟩
  | @based g₁ opening g₂ register g₃ closing _ _ _ _ _ hc =>
    have hmark : HasInkEnds (utf8 "#I") := ⟨⟨35, [73], rfl, rfl⟩, ⟨[35], 73, rfl, rfl⟩⟩
    have hclose : HasInkEnds closing := hasInkEnds_escaped hc ⟨⟨41, [], rfl, rfl⟩, ⟨[], 41, rfl, rfl⟩⟩
    have := hasInkEnds_append hmark (g₁ ++ (opening ++ (g₂ ++ (register ++ g₃)))) hclose
    simpa using this

theorem isTight_pattern {kinds : List Kind} {p : Bytes} (h : Pattern kinds p) : Blank.IsTight p := by
  have hends : HasInkEnds p := by
    induction h with
    | one hw => exact hasInkEnds_written hw
    | more hw _ _ ih => exact hasInkEnds_append (hasInkEnds_written hw) _ ih
  obtain ⟨⟨b, t, hb, hbi⟩, t', b', hb', hbi'⟩ := hends
  exact ⟨hb ▸ Blank.beginsTight_cons hbi t, hb' ▸ Blank.endsTight_concat hbi' t'⟩

/-- The markers of a pattern are read back. -/
theorem kinds_pattern {kinds : List Kind} {p : Bytes} (h : Pattern kinds p) : Marker.kinds (32 :: p) = kinds := by
  rw [kinds_eq, Blank.trim_cons_blank (by decide), (isTight_pattern h).trim_eq, (kindsIn_unescape_pattern h).1]

end AsmLens.Marker
