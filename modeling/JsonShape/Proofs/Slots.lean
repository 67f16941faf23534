import Mathlib.Data.List.Induction
import Mathlib.Data.List.Nodup
import JsonShape.Registry.Basic

/-!
# Proofs: the slots of names

Before any shape is compiled, the names are given slots, one after the other. If no name is blank
and none occurs twice, then this goes through, and the slot of a name is its place among the names
(`Slots.Places`). Nothing else about the map matters later: compiled shapes are described by places
in the list of names.
-/

namespace JsonShape

/-- The place of a name that stands in a list. -/
theorem idxOf?_of_mem {names : List String} {name : String} (h : name ∈ names) :
    names.idxOf? name = some (names.idxOf name) := by
  obtain ⟨place, hplace⟩ := Option.isSome_iff_exists.1 (List.isSome_idxOf?.2 h)
  rw [List.idxOf_eq_getD_idxOf?, hplace]
  rfl

namespace Slots

variable {slots : Slots} {names before rest : List String} {name owner target : String} {slot : Nat}

/-- The slot of a name is its place in a list, and no other names have slots. -/
def Places (slots : Slots) (names : List String) : Prop :=
  ∀ name, slots.find? name = names.idxOf? name

/-! ## Aliases -/

/-- An alias is resolved to the place of its name, and refused if the name has none. -/
theorem Places.resolve_eq (hslots : slots.Places names) (owner target : String) :
    slots.resolve owner target =
      if target ∈ names then .ok (names.idxOf target)
      else .error (.unresolvedAlias owner target) := by
  rw [resolve, hslots]
  by_cases h : target ∈ names
  · rw [idxOf?_of_mem h, if_pos h]
  · rw [List.idxOf?_eq_none_iff.2 h, if_neg h]

theorem Places.resolve_of_mem (hslots : slots.Places names) (h : target ∈ names) :
    slots.resolve owner target = .ok (names.idxOf target) := by
  rw [hslots.resolve_eq, if_pos h]

theorem Places.resolve_eq_ok (hslots : slots.Places names)
    (h : slots.resolve owner target = .ok slot) : target ∈ names ∧ slot = names.idxOf target := by
  rw [hslots.resolve_eq] at h
  split at h
  · next hmem =>
    cases h
    exact ⟨hmem, rfl⟩
  · cases h

theorem Places.resolve_eq_error (hslots : slots.Places names) {e : CompileError}
    (h : slots.resolve owner target = .error e) :
    e = .unresolvedAlias owner target ∧ target ∉ names := by
  rw [hslots.resolve_eq] at h
  split at h
  · cases h
  · next hundefined =>
    cases h
    exact ⟨rfl, hundefined⟩

/-! ## The map of a list of names -/

/-- The slots that names get in their order. -/
def ofNames (names : List String) : Slots := ⟨names.zipIdx.reverse⟩

theorem find?_insert (slots : Slots) (other : String) (slot : Nat) (name : String) :
    (slots.insert other slot).find? name =
      if name = other then some slot else slots.find? name := by
  rw [insert, find?, List.lookup_cons]
  split
  · next h => rw [if_pos (beq_iff_eq.1 h)]
  · next h => rw [if_neg (beq_eq_false_iff_ne.1 h), find?]

/-- One more name is given the slot after those of the others. -/
theorem insert_ofNames (names : List String) (name : String) :
    (ofNames names).insert name names.length = ofNames (names ++ [name]) := by
  simp [ofNames, insert, List.zipIdx_append]

/-- A name stands in its slot. -/
theorem getElem?_of_find?_ofNames (h : (ofNames names).find? name = some slot) :
    names[slot]? = some name := by
  induction names using List.reverseRec generalizing slot with
  | nil => cases h
  | append_singleton names last ih =>
    -- names are inserted at the end, so the last one is found first
    rw [← insert_ofNames, find?_insert] at h
    split at h
    · next heq =>
      cases h
      rw [heq]
      exact List.getElem?_concat_length
    · have hbefore := ih h
      obtain ⟨hlt, -⟩ := List.getElem?_eq_some_iff.1 hbefore
      rw [List.getElem?_append_left hlt, hbefore]

theorem find?_ofNames_of_notMem (h : name ∉ names) : (ofNames names).find? name = none := by
  refine Option.eq_none_iff_forall_ne_some.2 fun slot hslot => ?_
  exact h (List.mem_of_getElem? (getElem?_of_find?_ofNames hslot))

/-- Distinct names have their places as slots. -/
theorem places_ofNames (hd : names.Nodup) : (ofNames names).Places names := by
  induction names using List.reverseRec with
  | nil => exact fun _ => rfl
  | append_singleton names last ih =>
    obtain ⟨hnames, -, hlast⟩ := List.nodup_append.1 hd
    intro name
    rw [← insert_ofNames, find?_insert, ih hnames name, List.idxOf?, List.findIdx?_append]
    by_cases heq : name = last
    · subst heq
      have hnew : names.idxOf? name = none := List.idxOf?_eq_none_iff.2 fun hmem =>
        hlast name hmem name List.mem_cons_self rfl
      rw [List.idxOf?] at hnew
      simp [hnew]
    · have hnone : [last].findIdx? (· == name) = none := by simp [Ne.symm heq]
      rw [if_neg heq, hnone, Option.map_none, Option.or_none]

/-! ## Giving slots to names

All along, the names `before` have their slots already, and the next slot is their number.
-/

/-- What becomes of the next name. -/
theorem assign_cons (hd : before.Nodup) (name : String) (rest : List String) :
    (ofNames before).assign before.length (name :: rest) =
      if Text.allBlank name.toList then .error .emptyName
      else if name ∈ before then .error (.duplicateName name)
      else (ofNames (before ++ [name])).assign (before ++ [name]).length rest := by
  have htaken : ((ofNames before).find? name).isSome = true ↔ name ∈ before := by
    rw [places_ofNames hd, List.isSome_idxOf?]
  rw [assign, insert_ofNames, List.length_append, List.length_singleton]
  simp only [htaken]

/-- Names get slots only if none of them is blank and all are distinct, and then they get their
places. -/
theorem assign_eq_ok (hd : before.Nodup)
    (h : (ofNames before).assign before.length rest = .ok slots) :
    (∀ name ∈ rest, Text.allBlank name.toList = false) ∧ (before ++ rest).Nodup ∧
      slots = ofNames (before ++ rest) := by
  induction rest generalizing before with
  | nil =>
    cases h
    rw [List.append_nil]
    exact ⟨List.forall_mem_nil _, hd, rfl⟩
  | cons name rest ih =>
    rw [assign_cons hd] at h
    split at h
    · cases h
    · next hblank =>
      split at h
      · cases h
      · next hnew =>
        obtain ⟨hnamed, hdistinct, rfl⟩ := ih (List.concat_eq_append ▸ hd.concat hnew) h
        rw [List.append_assoc, List.singleton_append] at hdistinct ⊢
        exact ⟨List.forall_mem_cons.2 ⟨Bool.eq_false_iff.2 hblank, hnamed⟩, hdistinct, rfl⟩

theorem assign_of_nodup (hnamed : ∀ name ∈ rest, Text.allBlank name.toList = false)
    (hd : (before ++ rest).Nodup) :
    (ofNames before).assign before.length rest = .ok (ofNames (before ++ rest)) := by
  induction rest generalizing before with
  | nil => rw [List.append_nil, assign]
  | cons name rest ih =>
    obtain ⟨hvisible, hnamed⟩ := List.forall_mem_cons.1 hnamed
    obtain ⟨hbefore, -, hnew⟩ := List.nodup_append.1 hd
    have hnew : name ∉ before := fun hmem => hnew name hmem name List.mem_cons_self rfl
    rw [← List.singleton_append, ← List.append_assoc] at hd
    rw [assign_cons hbefore, if_neg (Bool.eq_false_iff.1 hvisible), if_neg hnew, ih hnamed hd,
      List.append_assoc, List.singleton_append]

/-- Names are refused at a blank one or at the second one of a name. -/
theorem assign_eq_error {e : CompileError} (hd : before.Nodup)
    (h : (ofNames before).assign before.length rest = .error e) :
    (e = .emptyName ∧ ∃ name ∈ rest, Text.allBlank name.toList = true) ∨
      ∃ name, e = .duplicateName name ∧ 2 ≤ (before ++ rest).count name := by
  induction rest generalizing before with
  | nil => cases h
  | cons name rest ih =>
    rw [assign_cons hd] at h
    split at h
    · next hblank =>
      cases h
      exact .inl ⟨rfl, name, List.mem_cons_self, hblank⟩
    · split at h
      · next hseen =>
        cases h
        refine .inr ⟨name, rfl, ?_⟩
        have hbefore : 0 < before.count name := List.count_pos_iff.2 hseen
        rw [List.count_append, List.count_cons_self]
        omega
      · next hnew =>
        rcases ih (List.concat_eq_append ▸ hd.concat hnew) h with
          ⟨he, other, hmem, hblank⟩ | ⟨other, he, htwice⟩
        · exact .inl ⟨he, other, List.mem_cons_of_mem _ hmem, hblank⟩
        · rw [List.append_assoc, List.singleton_append] at htwice
          exact .inr ⟨other, he, htwice⟩

end Slots

end JsonShape
