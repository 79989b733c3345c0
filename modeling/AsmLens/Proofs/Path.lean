import AsmLens.Path
import AsmLens.Proofs.Bytes

/-!
# Paths by their components

The components of a path that is put together are those of its parts (`components_append_slash`, `components_join`).
Cleaning an absolute path leaves some of its components and no `..` (`mem_cleanComponents`), and these are the
components of the cleaned path (`components_clean`). Behind a directory a path without `..` is cleaned to the cleaned
directory and its own components (`cleanComponents_append_slash`).

A relative path goes up first just if its first component is `..` (`leadsUp_ofComponents`). The way from a directory to
a path does so just if the path is not in the directory, and otherwise it is what the cleaned path has behind the
cleaned directory (`way_cases`). Hence a setting for a path is that way or the path itself (`relativeTo_cases`).

* `isSettingFor_relativeTo`: a setting names the path that it was made for.
-/

namespace AsmLens.Path

/-! ## Components -/

/-- What can be a component of a path. -/
structure IsComponent (c : Bytes) : Prop where
  ne_nil : c ≠ []
  ne_dot : c ≠ dot
  slash_not_mem : slash ∉ c

theorem isComponent_of_mem_components {p c : Bytes} (h : c ∈ components p) : IsComponent c := by
  obtain ⟨hsplit, hkept⟩ := List.mem_filter.1 h
  simp only [Bool.and_eq_true, Bool.not_eq_true', List.isEmpty_eq_false_iff, bne_iff_ne] at hkept
  refine ⟨hkept.1, hkept.2, fun hs => ?_⟩
  have hmark := (mem_splitOnP hsplit).2 slash hs
  simp at hmark

theorem components_append_slash (x y : Bytes) : components (x ++ slash :: y) = components x ++ components y := by
  have hsplit : (x ++ slash :: y).splitOn slash = x.splitOn slash ++ y.splitOn slash :=
    List.splitOnP_append_cons x y (beq_self_eq_true slash)
  rw [components, hsplit, List.filter_append]
  rfl

theorem components_cons_slash (p : Bytes) : components (slash :: p) = components p := components_append_slash [] p

/-- Components are read back from a path that is made of them. -/
theorem components_join {cs : List Bytes} (h : ∀ c ∈ cs, IsComponent c) : components (Bytes.join [slash] cs) = cs := by
  by_cases hne : cs = []
  · subst hne
    rfl
  · rw [components, Bytes.splitOn_join hne fun c hc => (h c hc).slash_not_mem, List.filter_eq_self]
    intro c hc
    simp [(h c hc).ne_nil, (h c hc).ne_dot]

/-! ## Cleaning -/

section Cleaning

variable {p root : Bytes}

/-- One more component of an absolute path leaves what was there, or comes to it if it is not `..`. -/
theorem mem_push_rooted {cleaned : List Bytes} {c d : Bytes} (h : d ∈ push true cleaned c) :
    d = c ∧ c ≠ dotDot ∨ d ∈ cleaned := by
  unfold push at h
  split at h
  · next hc =>
    rcases List.mem_cons.1 h with rfl | h
    · exact .inl ⟨rfl, by simpa using hc⟩
    · exact .inr h
  · right
    cases cleaned with
    | nil => simp at h
    | cons last rest =>
      simp only at h
      split at h
      · next hlast =>
        rcases List.mem_cons.1 h with rfl | h
        · rw [beq_iff_eq.1 hlast]
          exact List.mem_cons_self
        · exact h
      · exact List.mem_cons_of_mem _ h

theorem mem_foldl_push_rooted {cs : List Bytes} {d : Bytes} :
    ∀ {cleaned : List Bytes}, d ∈ cs.foldl (push true) cleaned → d ∈ cs ∧ d ≠ dotDot ∨ d ∈ cleaned := by
  induction cs with
  | nil => exact fun h => .inr h
  | cons c cs ih =>
    intro cleaned h
    rcases ih h with ⟨hd, hne⟩ | h
    · exact .inl ⟨List.mem_cons_of_mem _ hd, hne⟩
    · rcases mem_push_rooted h with ⟨rfl, hne⟩ | h
      · exact .inl ⟨List.mem_cons_self, hne⟩
      · exact .inr h

/-- Without `..` nothing is taken back. -/
theorem foldl_push {rooted : Bool} {cs : List Bytes} (h : dotDot ∉ cs) :
    ∀ cleaned, cs.foldl (push rooted) cleaned = cs.reverse ++ cleaned := by
  induction cs with
  | nil => intro cleaned; rfl
  | cons c cs ih =>
    intro cleaned
    rw [List.mem_cons, not_or] at h
    have hpush : push rooted cleaned c = c :: cleaned := by
      unfold push
      rw [if_pos (by simpa using Ne.symm h.1)]
    rw [List.foldl_cons, hpush, ih h.2]
    simp

theorem mem_cleanComponents (hp : isAbsolute p = true) {c : Bytes} (h : c ∈ cleanComponents p) :
    c ∈ components p ∧ c ≠ dotDot := by
  rw [cleanComponents, hp, List.mem_reverse] at h
  rcases mem_foldl_push_rooted h with h | h
  · exact h
  · cases h

theorem isComponent_of_mem_cleanComponents (hp : isAbsolute p = true) :
    ∀ c ∈ cleanComponents p, IsComponent c :=
  fun _ hc => isComponent_of_mem_components (mem_cleanComponents hp hc).1

theorem clean_of_isAbsolute (hp : isAbsolute p = true) :
    clean p = slash :: Bytes.join [slash] (cleanComponents p) := by
  rw [clean, if_pos hp]

/-- The components of a cleaned path are those that cleaning leaves. -/
theorem components_clean (hp : isAbsolute p = true) : components (clean p) = cleanComponents p := by
  rw [clean_of_isAbsolute hp, components_cons_slash, components_join (isComponent_of_mem_cleanComponents hp)]

theorem isEmpty_of_isAbsolute (hp : isAbsolute p = true) : p.isEmpty = false := by
  cases p with
  | nil => cases hp
  | cons b p => rfl

theorem isAbsolute_append (hroot : isAbsolute root = true) (q : Bytes) : isAbsolute (root ++ q) = true := by
  unfold isAbsolute at hroot ⊢
  rw [List.head?_append, beq_iff_eq.1 hroot]
  rfl

theorem cleanComponents_append_slash (hroot : isAbsolute root = true) {q : Bytes} (hq : dotDot ∉ components q) :
    cleanComponents (root ++ slash :: q) = cleanComponents root ++ components q := by
  rw [cleanComponents, isAbsolute_append hroot, components_append_slash, List.foldl_append, foldl_push hq,
    List.reverse_append, List.reverse_reverse, cleanComponents, hroot]

end Cleaning

/-! ## Relative paths -/

section Relative

variable {cs : List Bytes}

theorem components_ofComponents (h : ∀ c ∈ cs, IsComponent c) : components (ofComponents cs) = cs := by
  cases cs with
  | nil => rfl
  | cons c cs => exact components_join h

theorem ofComponents_ne_nil (h : ∀ c ∈ cs, IsComponent c) : ofComponents cs ≠ [] := by
  intro hnil
  have hcs := components_ofComponents h
  rw [hnil] at hcs
  subst hcs
  exact absurd hnil (by decide)

theorem isAbsolute_ofComponents (h : ∀ c ∈ cs, IsComponent c) : isAbsolute (ofComponents cs) = false := by
  match cs, h with
  | [], _ => rfl
  | c :: cs, h =>
    obtain ⟨hne, -, hslash⟩ := h c List.mem_cons_self
    obtain ⟨b, tail, rfl⟩ := List.exists_cons_of_ne_nil hne
    have hhead : (ofComponents ((b :: tail) :: cs)).head? = some b := by
      cases cs with
      | nil => simp [ofComponents, Bytes.join]
      | cons d cs =>
        show (Bytes.join [slash] ((b :: tail) :: d :: cs)).head? = some b
        rw [Bytes.join_cons_cons]
        rfl
    have hb : b ≠ slash := fun hb => hslash (by simp [hb])
    simpa [isAbsolute, hhead] using hb

theorem leadsUp_iff {q : Bytes} : leadsUp q = true ↔ q = dotDot ∨ dotDot ++ [slash] <+: q := by
  rw [leadsUp, Bool.or_eq_true, beq_iff_eq, List.isPrefixOf_iff_prefix]

/-- A path goes up first just if its first component is `..`, not just one that begins with it. -/
theorem leadsUp_ofComponents (h : ∀ c ∈ cs, IsComponent c) :
    leadsUp (ofComponents cs) = true ↔ cs.head? = some dotDot := by
  have hcomponents := components_ofComponents h
  have hself : components dotDot = [dotDot] := by decide
  rw [leadsUp_iff]
  constructor
  · rintro (heq | ⟨tail, heq⟩)
    · rw [heq, hself] at hcomponents
      rw [← hcomponents]
      rfl
    · rw [List.append_assoc, List.singleton_append] at heq
      rw [← heq, components_append_slash, hself] at hcomponents
      rw [← hcomponents]
      rfl
  · intro hhead
    obtain ⟨cs, rfl⟩ := List.head?_eq_some_iff.1 hhead
    cases cs with
    | nil => exact .inl (by simp [ofComponents, Bytes.join])
    | cons c cs =>
      right
      show dotDot ++ [slash] <+: Bytes.join [slash] (dotDot :: c :: cs)
      rw [Bytes.join_cons_cons]
      exact List.prefix_append _ _

end Relative

/-! ## The way to a path -/

theorem exists_dropCommon (xs ys : List Bytes) :
    ∃ common, xs = common ++ (dropCommon xs ys).1 ∧ ys = common ++ (dropCommon xs ys).2 := by
  fun_induction dropCommon xs ys with
  | case1 x xs y ys hxy ih =>
    obtain ⟨common, hxs, hys⟩ := ih
    refine ⟨x :: common, ?_, ?_⟩
    · rw [List.cons_append, ← hxs]
    · rw [List.cons_append, ← hys, beq_iff_eq.1 hxy]
  | case2 => exact ⟨[], rfl, rfl⟩
  | case3 => exact ⟨[], rfl, rfl⟩

theorem dropCommon_fst_eq_nil_iff (xs ys : List Bytes) : (dropCommon xs ys).1 = [] ↔ xs <+: ys := by
  fun_induction dropCommon xs ys with
  | case1 x xs y ys hxy ih => rw [ih, beq_iff_eq.1 hxy, List.prefix_cons_inj]
  | case2 x xs y ys hxy =>
    have hne : x ≠ y := by simpa using hxy
    simp [List.cons_prefix_cons, hne]
  | case3 xs ys hnot =>
    cases xs with
    | nil => simp
    | cons x xs =>
      cases ys with
      | nil => simp
      | cons y ys => exact absurd rfl (hnot x xs y ys rfl)

/-- The path lies in the directory. -/
def IsInside (root p : Bytes) : Prop :=
  isAbsolute root = true ∧ components (clean root) <+: components (clean p)

section Way

variable {root p : Bytes}

/-- Of two absolute paths the way from the one to the other goes up just if the other is not in the one, and otherwise
it is what is left of the other. -/
theorem way_cases (hroot : isAbsolute root = true) (hp : isAbsolute p = true) :
    (∃ rest, cleanComponents p = cleanComponents root ++ rest ∧ way root p = ofComponents rest ∧
      leadsUp (way root p) = false) ∨ ¬ IsInside root p ∧ leadsUp (way root p) = true := by
  obtain ⟨common, hup, hdown⟩ := exists_dropCommon (cleanComponents root) (cleanComponents p)
  have hnil := dropCommon_fst_eq_nil_iff (cleanComponents root) (cleanComponents p)
  generalize hd : dropCommon (cleanComponents root) (cleanComponents p) = d at hup hdown hnil
  obtain ⟨up, down⟩ := d
  have hway : way root p = ofComponents (up.map (fun _ => dotDot) ++ down) := by rw [way, hd]
  have hmem : ∀ c ∈ down, c ∈ cleanComponents p := fun c hc => hdown ▸ List.mem_append_right _ hc
  have hcomponent : ∀ c ∈ up.map (fun _ => dotDot) ++ down, IsComponent c := by
    intro c hc
    rcases List.mem_append.1 hc with hc | hc
    · obtain ⟨-, -, rfl⟩ := List.mem_map.1 hc
      exact ⟨by decide, by decide, by decide⟩
    · exact isComponent_of_mem_cleanComponents hp c (hmem c hc)
  have hleads := leadsUp_ofComponents hcomponent
  rw [hway, IsInside, components_clean hroot, components_clean hp, ← hnil]
  cases up with
  | nil =>
    refine .inl ⟨down, ?_, rfl, ?_⟩
    · rw [hdown, show cleanComponents root = common by simpa using hup]
    · rw [← Bool.not_eq_true, hleads]
      exact fun hhead => (mem_cleanComponents hp (hmem _ (List.mem_of_head? hhead))).2 rfl
  | cons c up => exact .inr ⟨fun h => absurd h.2 (List.cons_ne_nil c up), hleads.2 rfl⟩

/-! ## Settings -/

/-- A setting is the way down from the workspace, or the path itself where that is not in the workspace. -/
theorem relativeTo_cases (root : Bytes) (hp : isAbsolute p = true) :
    (isAbsolute root = true ∧ ∃ rest, cleanComponents p = cleanComponents root ++ rest ∧
      relativeTo root p = ofComponents rest ∧ leadsUp (relativeTo root p) = false) ∨
      ¬ IsInside root p ∧ relativeTo root p = p := by
  unfold relativeTo
  by_cases hroot : isAbsolute root = true
  · rcases way_cases hroot hp with ⟨rest, hrest, hway, hup⟩ | ⟨hnot, hup⟩
    · rw [if_pos (by simp [hroot, hp, hup])]
      exact .inl ⟨hroot, rest, hrest, hway, hup⟩
    · rw [if_neg (by simp [hup])]
      exact .inr ⟨hnot, rfl⟩
  · rw [if_neg (by simp [hroot])]
    exact .inr ⟨fun h => hroot h.1, rfl⟩

theorem resolve_of_isAbsolute (root : Bytes) (hp : isAbsolute p = true) : resolve root p = p := by
  rw [resolve, isEmpty_of_isAbsolute hp, if_neg Bool.false_ne_true, if_pos hp]

/-- What an absolute path has behind a part of it. -/
theorem isComponent_rest (hp : isAbsolute p = true) {front rest : List Bytes}
    (hrest : cleanComponents p = front ++ rest) : (∀ c ∈ rest, IsComponent c) ∧ dotDot ∉ rest := by
  have hmem : ∀ c ∈ rest, c ∈ cleanComponents p := fun c hc => hrest ▸ List.mem_append_right _ hc
  exact ⟨fun c hc => isComponent_of_mem_cleanComponents hp c (hmem c hc),
    fun hc => (mem_cleanComponents hp (hmem _ hc)).2 rfl⟩

/-- From the workspace the way down leads to the cleaned path. -/
theorem resolve_ofComponents (hroot : isAbsolute root = true) (hp : isAbsolute p = true) {rest : List Bytes}
    (hrest : cleanComponents p = cleanComponents root ++ rest) : resolve root (ofComponents rest) = clean p := by
  obtain ⟨h, hdots⟩ := isComponent_rest hp hrest
  have hne : (ofComponents rest).isEmpty = false := by simpa using ofComponents_ne_nil h
  have hcomponents : cleanComponents (root ++ slash :: ofComponents rest) = cleanComponents p := by
    rw [cleanComponents_append_slash hroot, components_ofComponents h, hrest]
    rwa [components_ofComponents h]
  simp only [resolve, hne, isAbsolute_ofComponents h, join, isEmpty_of_isAbsolute hroot, Bool.false_eq_true, if_false,
    Bool.not_false, if_true]
  rw [clean_of_isAbsolute (isAbsolute_append hroot _), hcomponents, clean_of_isAbsolute hp]

/-- A setting of a workspace that names a path. -/
structure IsSettingFor (root p setting : Bytes) : Prop where
  resolve_eq : resolve root setting = p ∨ resolve root setting = clean p
  relative_iff : isAbsolute setting = false ↔ IsInside root p
  /-- A relative setting does not lead out of the workspace. -/
  stays : isAbsolute setting = false → setting ≠ dotDot ∧ ¬ dotDot ++ [slash] <+: setting
  eq_of_not_isInside : ¬ IsInside root p → setting = p

theorem isSettingFor_relativeTo (root : Bytes) (hp : isAbsolute p = true) :
    IsSettingFor root p (relativeTo root p) := by
  rcases relativeTo_cases root hp with ⟨hroot, rest, hrest, heq, hup⟩ | ⟨hnot, heq⟩
  · have hinside : IsInside root p := by
      refine ⟨hroot, ?_⟩
      rw [components_clean hroot, components_clean hp, hrest]
      exact List.prefix_append _ _
    have hstays : ¬ leadsUp (relativeTo root p) = true := by simp [hup]
    rw [leadsUp_iff, not_or] at hstays
    refine ⟨.inr ?_, iff_of_true ?_ hinside, fun _ => hstays, fun hnot => absurd hinside hnot⟩
    · rw [heq]
      exact resolve_ofComponents hroot hp hrest
    · rw [heq]
      exact isAbsolute_ofComponents (isComponent_rest hp hrest).1
  · rw [heq]
    refine ⟨.inl (resolve_of_isAbsolute root hp), iff_of_false (by simp [hp]) hnot, fun hrel => ?_, fun _ => rfl⟩
    rw [hp] at hrel
    cases hrel

end Way

end AsmLens.Path
