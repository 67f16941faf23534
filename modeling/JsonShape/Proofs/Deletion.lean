import JsonShape.Proofs.Values

/-!
# Proofs: deleting keys

`Json.without K` deletes the entries whose key is in `K` from all objects in a value, at every
depth. Nothing is left of these keys, everything under other keys is found as before, and two values
that become equal in this way have the same form.
-/

namespace JsonShape.Json

mutual

/-- A value without the entries whose keys are in `K`, at every depth. -/
def without (K : String → Bool) : Json → Json
  | .array items => .array (withoutItems K items)
  | .object entries => .object (withoutEntries K entries)
  | value => value

/-- Items without these entries. -/
def withoutItems (K : String → Bool) : List Json → List Json
  | [] => []
  | item :: rest => without K item :: withoutItems K rest

/-- Entries without those whose keys are in `K`, there and below. -/
def withoutEntries (K : String → Bool) : List (String × Json) → List (String × Json)
  | [] => []
  | (key, value) :: rest =>
    if K key then withoutEntries K rest else (key, without K value) :: withoutEntries K rest

end

/-- A key occurs in a value, at some depth. -/
inductive HasKey (key : String) : Json → Prop where
  | here {entries : List (String × Json)} (h : key ∈ keys entries) : HasKey key (.object entries)
  | item {items : List Json} {item : Json} (hi : item ∈ items) (h : HasKey key item) :
      HasKey key (.array items)
  | entry {entries : List (String × Json)} {entry : String × Json} (he : entry ∈ entries)
      (h : HasKey key entry.2) : HasKey key (.object entries)

variable {K : String → Bool} {key : String} {value other : Json} {items : List Json}
  {entries left right : List (String × Json)}

/-! ## What is left -/

theorem withoutItems_eq_map : withoutItems K items = items.map (without K) := by
  induction items with
  | nil => rfl
  | cons item rest ih => rw [withoutItems, ih, List.map_cons]

theorem without_array : (Json.array items).without K = .array (items.map (without K)) := by
  rw [without, withoutItems_eq_map]

theorem without_object : (Json.object entries).without K = .object (withoutEntries K entries) := by
  rw [without]

theorem mem_withoutEntries {entry : String × Json} (h : entry ∈ withoutEntries K entries) :
    K entry.1 = false ∧ ∃ value, (entry.1, value) ∈ entries ∧ entry.2 = without K value := by
  induction entries with
  | nil => exact absurd h List.not_mem_nil
  | cons first rest ih =>
    obtain ⟨first, value⟩ := first
    rw [withoutEntries] at h
    split at h
    · obtain ⟨hkept, value', hmem, heq⟩ := ih h
      exact ⟨hkept, value', List.mem_cons_of_mem _ hmem, heq⟩
    · next hkept =>
      rcases List.mem_cons.1 h with rfl | h
      · exact ⟨Bool.eq_false_iff.2 hkept, value, List.mem_cons_self, rfl⟩
      · obtain ⟨hkept', value', hmem, heq⟩ := ih h
        exact ⟨hkept', value', List.mem_cons_of_mem _ hmem, heq⟩

/-- Under a deleted key nothing is found, and under another one what was there, without its own
deleted entries. -/
theorem find?_withoutEntries (key : String) : find? key (withoutEntries K entries) =
    if K key then none else (find? key entries).map (without K) := by
  induction entries with
  | nil => simp [withoutEntries, find?]
  | cons first rest ih =>
    obtain ⟨first, value⟩ := first
    rw [withoutEntries, find?]
    by_cases hfirst : first = key
    · subst hfirst
      by_cases hdeleted : K first = true
      · rw [if_pos hdeleted, ih]
        simp [hdeleted]
      · simp [hdeleted, find?]
    · rw [if_neg hfirst]
      split
      · exact ih
      · rw [find?, if_neg hfirst, ih]

theorem pairwise_keys_withoutEntries (h : (keys entries).Pairwise (· < ·)) :
    (keys (withoutEntries K entries)).Pairwise (· < ·) := by
  have hsub : (keys (withoutEntries K entries)).Sublist (keys entries) := by
    clear h
    induction entries with
    | nil => exact .slnil
    | cons first rest ih =>
      obtain ⟨first, value⟩ := first
      rw [withoutEntries]
      split
      · exact ih.cons _
      · exact ih.cons_cons _
  exact h.sublist hsub

theorem not_hasKey_without (hkey : K key = true) : ¬(value.without K).HasKey key := by
  induction value with
  | array items ih =>
    intro h
    rw [without_array] at h
    cases h with
    | item hi h =>
      obtain ⟨item, hitem, rfl⟩ := List.mem_map.1 hi
      exact ih item hitem h
  | object entries ih =>
    intro h
    rw [without_object] at h
    cases h with
    | here h =>
      obtain ⟨entry, hentry, rfl⟩ := List.mem_map.1 h
      rw [(mem_withoutEntries hentry).1] at hkey
      cases hkey
    | entry he h =>
      obtain ⟨-, value, hmem, heq⟩ := mem_withoutEntries he
      rw [heq] at h
      exact ih _ hmem h
  | _ =>
    intro h
    cases h

/-- With no keys to delete a value stays as it is. -/
theorem without_nothing (value : Json) : value.without (fun _ => false) = value := by
  induction value with
  | array items ih =>
    rw [without_array, List.map_congr_left ih, List.map_id']
  | object entries ih =>
    rw [without_object]
    have hsame : withoutEntries (fun _ => false) entries = entries := by
      induction entries with
      | nil => rfl
      | cons first rest ihrest =>
        obtain ⟨hfirst, hrest⟩ := List.forall_mem_cons.1 ih
        rw [withoutEntries, hfirst, ihrest hrest]
        simp
    rw [hsame]
  | _ => rfl

/-! ## Values with the same rest -/

/-- A value that has neither items nor entries. -/
def isScalar : Json → Bool
  | .array _ | .object _ => false
  | _ => true

theorem without_of_isScalar (h : value.isScalar = true) : value.without K = value := by
  cases value with
  | array | object => cases h
  | _ => rfl

theorem eq_of_without_scalar (h : value.isScalar = true)
    (hsame : value.without K = other.without K) : other = value := by
  rw [without_of_isScalar h] at hsame
  subst hsame
  cases other with
  | array | object => cases h
  | _ => rfl

theorem exists_of_without_array (h : (Json.array items).without K = other.without K) :
    ∃ items', other = .array items' ∧ items.map (without K) = items'.map (without K) := by
  rw [without_array] at h
  cases other with
  | array items' =>
    rw [without_array] at h
    exact ⟨items', rfl, Json.array.inj h⟩
  | _ => cases h

theorem exists_of_without_object (h : (Json.object entries).without K = other.without K) :
    ∃ entries', other = .object entries' ∧ withoutEntries K entries = withoutEntries K entries' := by
  rw [without_object] at h
  cases other with
  | object entries' =>
    rw [without_object] at h
    exact ⟨entries', rfl, Json.object.inj h⟩
  | _ => cases h

/-- Entries with the same rest agree under every key that is not deleted. -/
theorem find?_of_withoutEntries (h : withoutEntries K left = withoutEntries K right)
    (hkey : K key = false) :
    (find? key left).map (without K) = (find? key right).map (without K) := by
  have hfind := congrArg (find? key) h
  simpa [find?_withoutEntries, hkey] using hfind

/-- Sorted entries have the same rest if they agree under every key that is not deleted. -/
theorem withoutEntries_eq (hleft : (keys left).Pairwise (· < ·))
    (hright : (keys right).Pairwise (· < ·))
    (h : ∀ key, K key = false →
      (find? key left).map (without K) = (find? key right).map (without K)) :
    withoutEntries K left = withoutEntries K right := by
  refine eq_of_find?_eq (pairwise_keys_withoutEntries hleft)
    (pairwise_keys_withoutEntries hright) fun key => ?_
  rw [find?_withoutEntries, find?_withoutEntries]
  cases hkey : K key with
  | true => rfl
  | false => exact h key hkey

end JsonShape.Json
