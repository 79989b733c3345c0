import AsmLens.Bytes

/-!
# Dictionaries keyed by text

A finite map kept as the list of its entries in strictly increasing order of key, octet by octet. Two dictionaries with
the same entries are equal, and listing one is listing it in order.

* `Dictionary.find?_insert`: an insertion is seen at its key and nowhere else.
* `Dictionary.find?_erase`: a removal likewise.
* `Dictionary.find?_ofList`: of a list of entries the last with a key counts.
* `Dictionary.ext_find?`: a dictionary is determined by its look-ups.
-/

namespace AsmLens

/-- A finite map from text, in order of key. -/
structure Dictionary (α : Type) where
  entries : List (Bytes × α)
  /-- No key is repeated and all are in order. -/
  sorted : entries.Pairwise (·.1 < ·.1)
deriving DecidableEq

namespace Dictionary

variable {α β : Type}

/-! ## Lists of entries -/

/-- Puts an entry where its key belongs, in place of one with the same key. -/
def insertEntry (k : Bytes) (v : α) : List (Bytes × α) → List (Bytes × α)
  | [] => [(k, v)]
  | (k', v') :: rest =>
    if k = k' then (k, v) :: rest
    else if k < k' then (k, v) :: (k', v') :: rest
    else (k', v') :: insertEntry k v rest

theorem lt_of_not_lt {a b : Bytes} (hne : a ≠ b) (h : ¬ a < b) : b < a := by
  have tri : Std.Trichotomous (α := Bytes) (· < ·) := inferInstance
  by_cases hba : b < a
  · exact hba
  · exact absurd (tri.trichotomous a b h hba) hne

theorem key_mem_insertEntry {k : Bytes} {v : α} {e : Bytes × α} :
    ∀ {es : List (Bytes × α)}, e ∈ insertEntry k v es → e.1 = k ∨ e ∈ es
  | [], h => by simp [insertEntry] at h; exact .inl (by rw [h])
  | (k', v') :: rest, h => by
    unfold insertEntry at h
    split at h
    · rcases List.mem_cons.1 h with rfl | h
      · exact .inl rfl
      · exact .inr (List.mem_cons_of_mem _ h)
    · split at h
      · rcases List.mem_cons.1 h with rfl | h
        · exact .inl rfl
        · exact .inr h
      · rcases List.mem_cons.1 h with rfl | h
        · exact .inr (List.mem_cons_self ..)
        · exact (key_mem_insertEntry h).imp_right (List.mem_cons_of_mem _)

theorem sorted_insertEntry (k : Bytes) (v : α) :
    ∀ {es : List (Bytes × α)}, es.Pairwise (·.1 < ·.1) → (insertEntry k v es).Pairwise (·.1 < ·.1)
  | [], _ => by simp [insertEntry]
  | (k', v') :: rest, h => by
    obtain ⟨hhead, htail⟩ := List.pairwise_cons.1 h
    unfold insertEntry
    split
    · next heq => subst heq; exact List.pairwise_cons.2 ⟨hhead, htail⟩
    · next hne =>
      split
      · next hlt =>
        refine List.pairwise_cons.2 ⟨fun e he => ?_, h⟩
        rcases List.mem_cons.1 he with rfl | he
        · exact hlt
        · exact List.lt_trans hlt (hhead e he)
      · next hnlt =>
        refine List.pairwise_cons.2 ⟨fun e he => ?_, sorted_insertEntry k v htail⟩
        rcases key_mem_insertEntry he with hk | he
        · rw [hk]; exact lt_of_not_lt hne hnlt
        · exact hhead e he

/-! ## Operations -/

def empty : Dictionary α := ⟨[], .nil⟩

def insert (d : Dictionary α) (k : Bytes) (v : α) : Dictionary α :=
  ⟨insertEntry k v d.entries, sorted_insertEntry k v d.sorted⟩

def erase (d : Dictionary α) (k : Bytes) : Dictionary α :=
  ⟨d.entries.filter (·.1 != k), d.sorted.filter _⟩

def find? (d : Dictionary α) (k : Bytes) : Option α := d.entries.lookup k

def contains (d : Dictionary α) (k : Bytes) : Bool := (d.find? k).isSome

def keys (d : Dictionary α) : List Bytes := d.entries.map (·.1)

def isEmpty (d : Dictionary α) : Bool := d.entries.isEmpty

/-- The dictionary of a list of entries; of two with one key the later counts. -/
def ofList (es : List (Bytes × α)) : Dictionary α := es.foldl (fun d e => d.insert e.1 e.2) empty

def map (f : α → β) (d : Dictionary α) : Dictionary β :=
  ⟨d.entries.map fun e => (e.1, f e.2), by simpa [List.pairwise_map] using d.sorted⟩

/-! ## Look-ups -/

theorem lookup_entry (k k₀ : Bytes) (v₀ : α) (es : List (Bytes × α)) :
    ((k₀, v₀) :: es).lookup k = if k = k₀ then some v₀ else es.lookup k := by
  by_cases h : k = k₀
  · simp [h]
  · have : (k == k₀) = false := by simpa using h
    simp [List.lookup_cons, this, h]

theorem lookup_insertEntry (k k' : Bytes) (v : α) (es : List (Bytes × α)) :
    (insertEntry k v es).lookup k' = if k' = k then some v else es.lookup k' := by
  induction es with
  | nil => simp [insertEntry, lookup_entry]
  | cons e es ih =>
    unfold insertEntry
    split
    · next heq => subst heq; rw [lookup_entry, lookup_entry]; split <;> rfl
    · split
      · rw [lookup_entry]
      · next hne _ =>
        rw [lookup_entry, lookup_entry, ih]
        split
        · next h => subst h; rw [if_neg (Ne.symm hne)]
        · rfl

@[simp]
theorem find?_insert (d : Dictionary α) (k k' : Bytes) (v : α) :
    (d.insert k v).find? k' = if k' = k then some v else d.find? k' :=
  lookup_insertEntry k k' v d.entries

theorem lookup_filter_ne (k k' : Bytes) (es : List (Bytes × α)) :
    (es.filter (·.1 != k)).lookup k' = if k' = k then none else es.lookup k' := by
  induction es with
  | nil => simp
  | cons e es ih =>
    rw [List.filter_cons]
    split
    · next h =>
      rw [lookup_entry, lookup_entry, ih]
      split
      · next h' => subst h'; rw [if_neg (by simpa using h)]
      · rfl
    · next h =>
      rw [ih, lookup_entry]
      split
      · rfl
      · next h' => rw [if_neg (fun he => h' (he.trans (by simpa using h)))]

@[simp]
theorem find?_erase (d : Dictionary α) (k k' : Bytes) :
    (d.erase k).find? k' = if k' = k then none else d.find? k' :=
  lookup_filter_ne k k' d.entries

@[simp]
theorem find?_empty (k : Bytes) : (empty : Dictionary α).find? k = none := rfl

theorem find?_foldl_insert (es : List (Bytes × α)) (k : Bytes) : ∀ d : Dictionary α,
    (es.foldl (fun d e => d.insert e.1 e.2) d).find? k = (es.reverse.lookup k).or (d.find? k) := by
  induction es with
  | nil => intro d; rfl
  | cons e es ih =>
    intro d
    rw [List.foldl_cons, ih, find?_insert, List.reverse_cons, List.lookup_append, Option.or_assoc, lookup_entry]
    split <;> rfl

theorem find?_ofList (es : List (Bytes × α)) (k : Bytes) : (ofList es).find? k = es.reverse.lookup k := by
  rw [ofList, find?_foldl_insert, find?_empty, Option.or_none]

theorem lookup_map (f : α → β) (k : Bytes) (es : List (Bytes × α)) :
    (es.map fun e => (e.1, f e.2)).lookup k = (es.lookup k).map f := by
  induction es with
  | nil => rfl
  | cons e es ih =>
    rw [List.map_cons, lookup_entry, lookup_entry, ih]
    split <;> rfl

@[simp]
theorem find?_map (f : α → β) (d : Dictionary α) (k : Bytes) : (d.map f).find? k = (d.find? k).map f :=
  lookup_map f k d.entries

theorem lookup_eq_some_iff {es : List (Bytes × α)} (hs : es.Pairwise (·.1 < ·.1)) {k : Bytes} {v : α} :
    es.lookup k = some v ↔ (k, v) ∈ es := by
  induction es with
  | nil => simp
  | cons e es ih =>
    obtain ⟨k₀, v₀⟩ := e
    obtain ⟨hhead, htail⟩ := List.pairwise_cons.1 hs
    rw [lookup_entry, List.mem_cons]
    split
    · next h =>
      subst h
      have : (k, v) ∉ es := fun hm => List.lt_irrefl k (hhead _ hm)
      simp [this, eq_comm]
    · next h => simp [h, ih htail]

theorem find?_eq_some_iff (d : Dictionary α) {k : Bytes} {v : α} : d.find? k = some v ↔ (k, v) ∈ d.entries :=
  lookup_eq_some_iff d.sorted

theorem entries_eq_of_mem_iff :
    ∀ {xs ys : List (Bytes × α)}, xs.Pairwise (·.1 < ·.1) → ys.Pairwise (·.1 < ·.1) → (∀ e, e ∈ xs ↔ e ∈ ys) → xs = ys
  | [], [], _, _, _ => rfl
  | [], y :: ys, _, _, h => absurd ((h y).2 (List.mem_cons_self ..)) (by simp)
  | x :: xs, [], _, _, h => absurd ((h x).1 (List.mem_cons_self ..)) (by simp)
  | x :: xs, y :: ys, hx, hy, h => by
    obtain ⟨hx₁, hx₂⟩ := List.pairwise_cons.1 hx
    obtain ⟨hy₁, hy₂⟩ := List.pairwise_cons.1 hy
    -- The least entry of the one list is the least of the other.
    have hxy : x = y := by
      rcases List.mem_cons.1 ((h x).1 (List.mem_cons_self ..)) with rfl | hxm
      · rfl
      · rcases List.mem_cons.1 ((h y).2 (List.mem_cons_self ..)) with rfl | hym
        · rfl
        · exact absurd (hx₁ y hym) (List.lt_asymm (hy₁ x hxm))
    subst hxy
    congr 1
    refine entries_eq_of_mem_iff hx₂ hy₂ fun e => ⟨fun he => ?_, fun he => ?_⟩
    · rcases List.mem_cons.1 ((h e).1 (List.mem_cons_of_mem _ he)) with rfl | hm
      · exact absurd (hx₁ _ he) (List.lt_irrefl _)
      · exact hm
    · rcases List.mem_cons.1 ((h e).2 (List.mem_cons_of_mem _ he)) with rfl | hm
      · exact absurd (hy₁ _ he) (List.lt_irrefl _)
      · exact hm

theorem ext_find? {d d' : Dictionary α} (h : ∀ k, d.find? k = d'.find? k) : d = d' := by
  obtain ⟨es, hs⟩ := d
  obtain ⟨es', hs'⟩ := d'
  have : es = es' := entries_eq_of_mem_iff hs hs' fun ⟨k, v⟩ => by
    rw [← lookup_eq_some_iff hs, ← lookup_eq_some_iff hs']
    exact (congrArg (· = some v) (h k)).to_iff
  subst this
  rfl

/-- An entry that is there already changes nothing. -/
theorem insert_eq_self {d : Dictionary α} {k : Bytes} {v : α} (h : d.find? k = some v) : d.insert k v = d := by
  apply ext_find?
  intro k'
  rw [find?_insert]
  split
  · next hk => rw [hk, h]
  · rfl

theorem pairwise_keys (d : Dictionary α) : d.keys.Pairwise (· < ·) := List.pairwise_map.2 d.sorted

theorem mem_keys_iff (d : Dictionary α) {k : Bytes} : k ∈ d.keys ↔ ∃ v, d.find? k = some v := by
  simp [keys, find?_eq_some_iff]

instance : EmptyCollection (Dictionary α) := ⟨empty⟩

instance : Inhabited (Dictionary α) := ⟨empty⟩

end Dictionary

end AsmLens
