import AsmLens.Isa.Table
import AsmLens.Proofs.Bytes
import Mathlib.Data.List.Perm.Subperm
import Mathlib.Tactic.TFAE

/-!
# What a catalogue tells of its table

A catalogue lists the mnemonics of a table in order, and its details tell the operands: a text of names with commas
between them is made of these names in one way only (`Bytes.join_inj`), no name has a comma in it, and what stands for
no operands is no name (`Catalog.detail_injective`).

Two tables are compared from one side only, entry by entry. That is enough: as many entries as the other has, all found
there, are all that the other has (`Dictionary.eq_of_subset`).

* `ofIsa_eq_map_mergeSort`: a catalogue does not depend on the order in which the mnemonics are collected.
* `ofIsa_faithful`: catalogues are sorted and complete, and tables with the same mnemonics and details are the same.
-/

namespace AsmLens

/-! ## Joined texts taken apart -/

namespace Bytes

theorem before_join {b : UInt8} (sep : Bytes) {a : Bytes} (ha : b ∉ a) (rest : List Bytes) :
    before b (join (b :: sep) (a :: rest)) = a := by
  cases rest with
  | nil =>
    have hall : ∀ c ∈ a, (c != b) = true := fun c hc => by simpa using fun hcb : c = b => ha (hcb ▸ hc)
    simpa [join, before] using hall
  | cons c rest => rw [join_cons_cons, List.append_assoc, List.cons_append, before_append ha]

/-- Texts without the octet that begins the separator are told apart by joining them. -/
theorem join_inj {b : UInt8} {sep : Bytes} {parts parts' : List Bytes} (hne : parts ≠ []) (hne' : parts' ≠ [])
    (hb : ∀ w ∈ parts, b ∉ w) (hb' : ∀ w ∈ parts', b ∉ w) (h : join (b :: sep) parts = join (b :: sep) parts') :
    parts = parts' := by
  induction parts generalizing parts' with
  | nil => exact absurd rfl hne
  | cons a rest ih =>
    obtain ⟨a', rest', rfl⟩ := List.exists_cons_of_ne_nil hne'
    -- The first text is what stands before the first separator.
    obtain rfl : a = a' := by
      rw [← before_join sep (hb a List.mem_cons_self) rest, h, before_join sep (hb' a' List.mem_cons_self) rest']
    congr 1
    cases rest with
    | nil =>
      cases rest' with
      | nil => rfl
      | cons c' rest' =>
        rw [join_cons_cons] at h
        simp [join] at h
    | cons c rest =>
      cases rest' with
      | nil =>
        rw [join_cons_cons] at h
        simp [join] at h
      | cons c' rest' =>
        rw [join_cons_cons, join_cons_cons] at h
        exact ih (by simp) (by simp) (fun w hw => hb w (List.mem_cons_of_mem _ hw))
          (fun w hw => hb' w (List.mem_cons_of_mem _ hw)) (List.append_cancel_left h)

end Bytes

/-! ## Keys and entries of dictionaries -/

namespace Dictionary

variable {α : Type}

theorem nodup_entries (d : Dictionary α) : d.entries.Nodup := by
  refine d.sorted.imp fun {x y} hlt => ?_
  rintro rfl
  exact List.lt_irrefl x.1 hlt

/-- A dictionary whose entries all belong to one with as many entries is that one. -/
theorem eq_of_subset {d d' : Dictionary α} (hlen : d.entries.length = d'.entries.length)
    (h : d.entries ⊆ d'.entries) : d = d' := by
  have hperm : d.entries.Perm d'.entries :=
    (List.subperm_of_subset d.nodup_entries h).perm_of_length_le (Nat.le_of_eq hlen.symm)
  refine ext_find? fun k => Option.ext fun v => ?_
  rw [find?_eq_some_iff, find?_eq_some_iff]
  exact hperm.mem_iff

/-- The keys, collected in any order and then sorted. -/
theorem mergeSort_of_perm {d : Dictionary α} {names : List Bytes} (h : names.Perm d.keys) :
    names.mergeSort = d.keys := by
  have hsorted : names.mergeSort.Pairwise (· ≤ ·) := by
    have htrans (a b c : Bytes) (hab : decide (a ≤ b) = true) (hbc : decide (b ≤ c) = true) :
        decide (a ≤ c) = true := by
      simpa using List.le_trans (of_decide_eq_true hab) (of_decide_eq_true hbc)
    have htotal (a b : Bytes) : (decide (a ≤ b) || decide (b ≤ a)) = true := by simpa using List.le_total a b
    simpa using List.pairwise_mergeSort htrans htotal names
  refine List.Perm.eq_of_pairwise (fun a b _ _ => List.le_antisymm) hsorted ?_ ((names.mergeSort_perm _).trans h)
  exact d.pairwise_keys.imp fun hlt => List.le_of_lt hlt

end Dictionary

theorem Table.sameAs_iff {α : Type} [DecidableEq α] {a b : Table α} : a.sameAs b = true ↔ a = b := by
  constructor
  · intro h
    simp only [sameAs, Bool.and_eq_true, beq_iff_eq, List.all_eq_true] at h
    exact Dictionary.eq_of_subset h.1 fun e he => (Dictionary.find?_eq_some_iff b).1 (h.2 e he)
  · rintro rfl
    simp only [sameAs, Bool.and_eq_true, beq_iff_eq, List.all_eq_true, true_and]
    exact fun e he => (Dictionary.find?_eq_some_iff a).2 he

/-! ## Details -/

namespace Kind

theorem name_injective : Function.Injective name := by
  intro a b
  cases a <;> cases b <;> decide

theorem comma_not_mem_name (k : Kind) : 44 ∉ k.name := by cases k <;> decide

end Kind

namespace Catalog

/-- The texts between the commas of a detail. -/
def detailTexts : List Kind → List Bytes
  | [] => [utf8 "no operands"]
  | kinds => kinds.map Kind.name

theorem detail_eq (kinds : List Kind) : detail kinds = Bytes.join (utf8 ", ") (detailTexts kinds) := by
  cases kinds with
  | nil => simp [detail, detailTexts, Bytes.join]
  | cons k ks => rfl

theorem detailTexts_ne_nil (kinds : List Kind) : detailTexts kinds ≠ [] := by cases kinds <;> simp [detailTexts]

theorem comma_not_mem_detailTexts {kinds : List Kind} : ∀ w ∈ detailTexts kinds, 44 ∉ w := by
  cases kinds with
  | nil =>
    rw [detailTexts, List.forall_mem_singleton]
    decide
  | cons k ks =>
    intro w hw
    obtain ⟨k', -, rfl⟩ := List.mem_map.1 hw
    exact k'.comma_not_mem_name

theorem detailTexts_injective : Function.Injective detailTexts := by
  have hnone (k : Kind) : k.name ≠ utf8 "no operands" := by cases k <;> decide
  intro ks ks' h
  cases ks with
  | nil =>
    cases ks' with
    | nil => rfl
    | cons k' ks' => exact absurd (List.cons.inj h).1.symm (hnone k')
  | cons k ks =>
    cases ks' with
    | nil => exact absurd (List.cons.inj h).1 (hnone k)
    | cons k' ks' => exact Kind.name_injective.list_map h

/-- A detail tells the operands. -/
theorem detail_injective : Function.Injective detail := by
  intro ks ks' h
  rw [detail_eq, detail_eq] at h
  exact detailTexts_injective (Bytes.join_inj (b := 44) (detailTexts_ne_nil ks) (detailTexts_ne_nil ks')
    comma_not_mem_detailTexts comma_not_mem_detailTexts h)

/-! ## Catalogues -/

/-- What a catalogue shows for reading: mnemonics and details. -/
def outline (isa : Isa) : List (Bytes × Bytes) := (ofIsa isa).map fun e => (e.mnemonic, e.detail)

theorem outline_eq (isa : Isa) : outline isa = isa.entries.map fun e => (e.1, detail e.2) := by
  simp [outline, ofIsa, entry]

theorem map_mnemonic_ofIsa (isa : Isa) : (ofIsa isa).map (·.mnemonic) = isa.keys := by
  simp [ofIsa, entry, Dictionary.keys]

/-- A catalogue is made by collecting the mnemonics in any order, sorting them, and looking each of them up. -/
theorem ofIsa_eq_map_mergeSort {isa : Isa} {names : List Bytes} (h : names.Perm isa.keys) :
    ofIsa isa = names.mergeSort.map fun m => entry m ((isa.find? m).getD []) := by
  rw [Dictionary.mergeSort_of_perm h, ofIsa, Dictionary.keys, List.map_map]
  refine List.map_congr_left fun e he => ?_
  have hf : isa.find? e.1 = some e.2 := isa.find?_eq_some_iff.2 he
  simp [hf]

theorem outline_injective : Function.Injective outline := by
  intro a b h
  have hentry : Function.Injective fun e : Bytes × List Kind => (e.1, detail e.2) := by
    rintro ⟨m, ks⟩ ⟨m', ks'⟩ he
    obtain ⟨hm, hd⟩ := Prod.mk.inj he
    exact Prod.ext hm (detail_injective hd)
  rw [outline_eq, outline_eq] at h
  have hentries : a.entries = b.entries := hentry.list_map h
  exact Dictionary.eq_of_subset (by rw [hentries]) (by rw [hentries]; exact List.Subset.refl _)

/-- A catalogue lists the mnemonics of its table in strictly increasing order, and all of them. Two tables have the same
mnemonics and details in their catalogues just if a comparison from either side finds them the same, just if they take
the same operands for every mnemonic. -/
theorem ofIsa_faithful :
    (∀ isa : Isa, ((ofIsa isa).map (·.mnemonic)).Pairwise (· < ·) ∧
      ∀ m, m ∈ (ofIsa isa).map (·.mnemonic) ↔ ∃ kinds, isa.find? m = some kinds) ∧
      ∀ a b : Isa, List.TFAE [outline a = outline b, Table.sameAs a b = true, Table.sameAs b a = true,
        ∀ m, a.find? m = b.find? m] := by
  refine ⟨fun isa => ⟨?_, fun m => ?_⟩, fun a b => ?_⟩
  · rw [map_mnemonic_ofIsa]
    exact isa.pairwise_keys
  · rw [map_mnemonic_ofIsa]
    exact isa.mem_keys_iff
  · tfae_have 1 → 2 := fun h => Table.sameAs_iff.2 (outline_injective h)
    tfae_have 2 → 3 := fun h => Table.sameAs_iff.2 (Table.sameAs_iff.1 h).symm
    tfae_have 3 → 4 := fun h m => by rw [Table.sameAs_iff.1 h]
    tfae_have 4 → 1 := fun h => congrArg outline (Dictionary.ext_find? h)
    tfae_finish

end Catalog

end AsmLens
